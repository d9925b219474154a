import NativeBoundary.Data.Table
import NativeBoundary.Handles.Handle
import NativeBoundary.Transport.Network

/-!
# Registries

A registry maps handles to host objects.  A process has one registry that native entry points
look into, and may have others; all of them draw their handles from one counter, so that no two
registries ever give out the same handle and a released handle is never given out again.

* `Registries.register`, `Registries.release`, `Registries.lookup?` — the operations.
* `lookup?_register`, `lookup?_release` — each registry is a finite map of its own.
-/

namespace NativeBoundary

/-- A host object that is known to native code by its handle. -/
inductive Object
  | value (v : HostValue)
  /-- A policy that a thread has bound. -/
  | policy (p : Policy)
  /-- A transport that a session has opened. -/
  | transport (id : TransportId)

namespace Object

/-- What an object is to whoever looks at it from outside the boundary. -/
def seen : Object → HostValue
  | value v => v
  | policy _ => .other
  | transport _ => .other

end Object

/-- The number of a registry. -/
abbrev RegistryId := Nat

/-- The registry that native entry points look into. -/
def globalRegistry : RegistryId := 0

/-- All registries of a process, and the counter that they share. -/
structure Registries where
  /-- How many handles were given out. -/
  issued : Nat := 0
  /-- The number of the next registry. -/
  next : RegistryId := 1
  tables : Table RegistryId (Table Handle Object) := .empty

namespace Registries

/-- The objects of a registry; one that nothing was stored in is empty. -/
def objects (rs : Registries) (r : RegistryId) : Table Handle Object :=
  (rs.tables.get? r).getD .empty

/-- A new registry. -/
def create (rs : Registries) : RegistryId × Registries := (rs.next, { rs with next := rs.next + 1 })

/-- Stores an object under the next handle. -/
def register (rs : Registries) (r : RegistryId) (object : Object) : Handle × Registries :=
  let handle := Handle.issue rs.issued
  (handle,
    { rs with
      issued := rs.issued + 1
      tables := rs.tables.insert r ((rs.objects r).insert handle object) })

/-- The object under a handle. -/
def lookup? (rs : Registries) (r : RegistryId) (handle : Handle) : Option Object :=
  (rs.objects r).get? handle

/-- The object under a handle, if it passes for the type that is asked for. -/
def lookupAs? (rs : Registries) (r : RegistryId) (handle : Handle) (isType : Object → Bool) :
    Option Object :=
  (rs.lookup? r handle).filter isType

/-- Whether there is an object under a handle. -/
def contains (rs : Registries) (r : RegistryId) (handle : Handle) : Bool :=
  (rs.objects r).contains handle

/-- Removes the object under a handle, if there is one. -/
def release (rs : Registries) (r : RegistryId) (handle : Handle) : Option Object × Registries :=
  match rs.lookup? r handle with
  | none => (none, rs)
  | some object =>
      (some object, { rs with tables := rs.tables.insert r ((rs.objects r).erase handle) })

/-- The number of objects in a registry. -/
def size (rs : Registries) (r : RegistryId) : Nat := (rs.objects r).size

/-- A registry as a value of its type. -/
def describe (rs : Registries) (r : RegistryId) : String :=
  "HandleRegistry \x7b len: " ++ toString (rs.size r) ++ " \x7d"

/-- Registering adds one handle to one registry. -/
theorem lookup?_register (rs : Registries) (r q : RegistryId) (object : Object) (h : Handle) :
    (rs.register r object).2.lookup? q h =
      if q = r ∧ h = Handle.issue rs.issued then some object else rs.lookup? q h := by
  unfold register lookup? objects
  by_cases hq : q = r
  · subst hq
    simp [Table.get?_insert]
  · simp [hq, Table.get?_insert_of_ne]

/-- Releasing removes one handle from one registry. -/
theorem lookup?_release (rs : Registries) (r q : RegistryId) (k h : Handle) :
    (rs.release r k).2.lookup? q h = if q = r ∧ h = k then none else rs.lookup? q h := by
  unfold release
  cases hl : rs.lookup? r k with
  | none =>
    by_cases hk : q = r ∧ h = k
    · rw [if_pos hk, hk.1, hk.2, hl]
    · rw [if_neg hk]
  | some object =>
    unfold lookup? objects
    by_cases hq : q = r
    · subst hq
      simp [Table.get?_erase]
    · simp [hq, Table.get?_insert_of_ne]

end Registries

/-- A registered object that is released when its guard is dropped. -/
structure HandleGuard where
  registry : RegistryId
  handle : Handle
deriving DecidableEq, Repr

namespace HandleGuard

/-- The guard as a value of its type. -/
def describe (g : HandleGuard) : String := s!"HandleGuard({g.handle.describe})"

end HandleGuard

end NativeBoundary

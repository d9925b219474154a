import NativeBoundary.Data.Hexadecimal

/-!
# Handles

Native code never holds a pointer to a host object.  It holds a handle: a 64-bit number
that a registry maps to the object.  Handles are counted up from a seed that is far from
any small number a confused caller might pass, by one counter for the whole process.  On
the native side a handle is an opaque pointer, and the null pointer is no handle.

* `Handle.issue` — the handle of the `n`-th registration of the process.
* `Handle.ofPointer?` — decoding an opaque pointer.
-/

namespace NativeBoundary

/-- The number that stands for a registered object. -/
structure Handle where
  id : UInt64
deriving DecidableEq, Repr

namespace Handle

/-- The first number that is handed out. -/
def seed : Nat := 0xdeadbeef0000

/-- The handle of the registration that `n` others came before. -/
def issue (n : Nat) : Handle := ⟨UInt64.ofNat (seed + n)⟩

/-- The handle as the opaque pointer that native code stores. -/
def toPointer (h : Handle) : UInt64 := h.id

/-- The handle that an opaque pointer carries; null carries none. -/
def ofPointer? (pointer : UInt64) : Option Handle :=
  if pointer = 0 then none else some ⟨pointer⟩

/-- The handle as it is shown: in base sixteen. -/
def text (h : Handle) : String := hexNumber h.id.toNat

/-- The handle as a value of its type: in base ten. -/
def describe (h : Handle) : String := s!"Handle({h.id.toNat})"

theorem ofPointer?_toPointer {h : Handle} (hn : h.id ≠ 0) : ofPointer? h.toPointer = some h := by
  simp [ofPointer?, toPointer, hn]

end Handle

end NativeBoundary

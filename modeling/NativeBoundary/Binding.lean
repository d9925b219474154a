import NativeBoundary.Process

/-!
# Bindings

Native code finds the policy of its thread through the policy slot.  Binding a policy registers
it and puts its handle into the slot; a thread that has a policy gets no second one.  Ending a
binding clears the slot only while it still holds that binding, so that an old binding never
takes away a newer one, and then releases the handle.

* `Process.bind`, `Process.unbind` — a binding and its end.
* `Process.withPolicy` — a binding around some work.
* `Process.currentPolicy` — the policy that native code would find now.
-/

namespace NativeBoundary

/-- A policy that is bound on a thread. -/
structure Binding where
  handle : Handle
deriving DecidableEq, Repr

namespace Binding

/-- The binding as a value of its type. -/
def describe (b : Binding) : String :=
  "PolicyBinding \x7b handle: " ++ b.handle.describe ++ ", _not_send: PhantomData<*const ()> \x7d"

end Binding

namespace Process

/-- Whether the running thread has a policy. -/
def isBound (p : Process) : Bool := p.slot ≠ 0

/-- Puts a value into the policy slot.  Replacing another value is reported. -/
def setSlot (p : Process) (pointer : UInt64) : Process :=
  let p' := { p with slot := pointer }
  if p.slot ≠ 0 ∧ p.slot ≠ pointer then p'.report (.slotOverwritten ⟨p.slot⟩ ⟨pointer⟩) else p'

/-- Clears the policy slot. -/
def clearSlot (p : Process) : Process := { p with slot := 0 }.note .slotCleared

/-- Binds a policy to the running thread. -/
def bind (p : Process) (policy : Policy) : Except Fault Binding × Process :=
  if p.isBound then (.error .alreadyBound, p.report .bindingRefused)
  else
    let (handle, p) := p.register globalRegistry (.policy policy)
    (.ok ⟨handle⟩, p.setSlot handle.toPointer)

/-- Ends a binding. -/
def unbind (p : Process) (b : Binding) : Process :=
  let p := if p.slot = b.handle.toPointer then p.clearSlot else p.report (.slotLost b.handle)
  match p.releaseHandle globalRegistry b.handle with
  | (.ok object, p) => p.dropObject object
  | (.error _, p) => p

/-- Does some work with a policy bound, unless the thread has one already.  The binding ends with
the work, whether that gives an answer or panics; which of the two it was is part of `α`. -/
def withPolicy {α : Type} (p : Process) (policy : Policy) (body : Process → α × Process) :
    Except Fault α × Process :=
  match p.bind policy with
  | (.error fault, p) => (.error fault, p)
  | (.ok binding, p) =>
      let (result, p) := body p
      (.ok result, p.unbind binding)

/-- The policy of the running thread. -/
def currentPolicy (p : Process) : Except Fault Policy :=
  match Handle.ofPointer? p.slot with
  | none => .error (.notFound "no KEM policy bound on this thread")
  | some handle =>
      match p.lookup? globalRegistry handle with
      | some (.policy policy) => .ok policy
      | _ => .error (.notFound s!"KEM policy handle {handle.text}")

/-- A thread that has a policy gets no second one, and nothing else changes. -/
theorem bind_of_isBound {p : Process} (policy : Policy) (h : p.isBound = true) :
    p.bind policy = (.error .alreadyBound, p.report .bindingRefused) := by
  simp [bind, h]

/-- A thread without a policy has no current one. -/
theorem currentPolicy_of_null {p : Process} (h : p.slot = 0) :
    p.currentPolicy = .error (.notFound "no KEM policy bound on this thread") := by
  simp [currentPolicy, h, Handle.ofPointer?]

/-- The current policy is the one that the slot names. -/
theorem currentPolicy_of_lookup {p : Process} {policy : Policy} {handle : Handle}
    (hs : p.slot = handle.toPointer) (hn : handle.id ≠ 0)
    (hl : p.lookup? globalRegistry handle = some (.policy policy)) :
    p.currentPolicy = .ok policy := by
  simp [currentPolicy, hs, Handle.ofPointer?_toPointer hn, hl]

end Process

end NativeBoundary

/-!
# Secrecy and strategy

Two decisions that are made before a byte crosses the boundary: whether a buffer has to be
wiped before its memory is given back, and whether an input may be lent to native code or has
to be copied.

* `Secrecy.mustWipe` — secret buffers always, public ones only on request.
* `Strategy.select` — lending is for calls that read their inputs and return before anything
  else runs.
-/

namespace NativeBoundary

/-- What a buffer may hold. -/
inductive Secrecy
  /-- Private keys, scalars, shared secrets, plaintexts, key shares. -/
  | secret
  /-- Public keys, proofs, commitments, session identifiers. -/
  | exposed
deriving DecidableEq, Repr

namespace Secrecy

instance : Inhabited Secrecy := ⟨secret⟩

/-- Whether a buffer is wiped before its memory is given back. -/
def mustWipe (s : Secrecy) (wipePublic : Bool) : Bool :=
  match s with
  | secret => true
  | exposed => wipePublic

theorem mustWipe_eq_false_iff (s : Secrecy) (wipePublic : Bool) :
    s.mustWipe wipePublic = false ↔ s = exposed ∧ wipePublic = false := by
  cases s <;> simp [mustWipe]

end Secrecy

/-- What a native call does with its inputs. -/
inductive CallShape
  /-- It reads them and returns before anything else runs. -/
  | singleRoundTrip
  /-- It runs several steps of a protocol. -/
  | multiStep
  /-- It may call back into host policy. -/
  | invokesCallbacks
  /-- It may wait for the network. -/
  | mayBlock
deriving DecidableEq, Repr

/-- How an input crosses. -/
inductive Strategy
  /-- Native code sees host memory for the duration of the call. -/
  | borrowedView
  /-- Native code sees a copy in native memory. -/
  | ownedCopy
deriving DecidableEq, Repr

namespace Strategy

/-- The strategy for a call. -/
def select (shape : CallShape) (forceOwned : Bool) : Strategy :=
  if forceOwned then ownedCopy
  else
    match shape with
    | .singleRoundTrip => borrowedView
    | .multiStep | .invokesCallbacks | .mayBlock => ownedCopy

/-- The strategy as a value of its type. -/
def describe : Strategy → String
  | borrowedView => "BorrowedView"
  | ownedCopy => "OwnedCopy"

/-- Only an unforced call of one round trip borrows. -/
theorem select_eq_borrowedView_iff (shape : CallShape) (forceOwned : Bool) :
    select shape forceOwned = borrowedView ↔ shape = .singleRoundTrip ∧ forceOwned = false := by
  cases shape <;> cases forceOwned <;> simp [select]

end Strategy

end NativeBoundary

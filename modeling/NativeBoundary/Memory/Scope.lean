import NativeBoundary.Memory.Batch
import NativeBoundary.Memory.Pool

/-!
# Scopes

A scope holds the inputs of one native call.  Its strategy says whether an input is lent or
copied; copies come from the pool of the scope when they fit there and from the heap otherwise.
Batches are always copied.  When the scope ends its copies are released, last made first.

* `Scope.wipingPublic`, `Memory.equip` — what a scope is told about its copies.
* `Memory.input`, `Memory.inputBatch` — marshalling one input.
* `Memory.endScope` — releasing all of them.
-/

namespace NativeBoundary

/-- A copy that a scope holds. -/
inductive ScopeCopy
  | pooled (block : PoolBlock)
  | heap (buffer : OwnedBuffer)
  | batch (batch : OwnedBatch)
deriving DecidableEq, Repr

/-- The inputs of one call. -/
structure Scope where
  strategy : Strategy
  pool? : Option PoolId := none
  /-- Wipe public copies on release too. -/
  wipePublic : Bool := false
  /-- The copies made so far, newest first. -/
  copies : List ScopeCopy := []
deriving DecidableEq, Repr

namespace Scope

/-- The number of copies that a scope holds. -/
def owned (s : Scope) : Nat := s.copies.length

/-- The scope with another rule for the public copies that it makes from now on. -/
def wipingPublic (s : Scope) (wipePublic : Bool) : Scope := { s with wipePublic }

/-- The scope as a value of its type. -/
def describe (s : Scope) : String :=
  "CallScope \x7b strategy: " ++ s.strategy.describe ++ ", owned: " ++ toString s.owned ++ " \x7d"

end Scope

namespace Memory

/-- Changes the heap. -/
def onHeap {α : Type} (m : Memory) (f : Heap → α × Heap) : α × Memory :=
  let (result, heap) := f m.heap
  (result, { m with heap })

/-- A block from the pool of a scope that holds `bytes`, if there is one. -/
def inputBlock (m : Memory) (s : Scope) (bytes : Bytes) : Option PoolBlock × Memory :=
  match s.pool? with
  | none => (none, m)
  | some id => m.acquireWith id bytes

/-- Marshals one input. -/
def input (m : Memory) (s : Scope) (bytes : Bytes) (secrecy : Secrecy) :
    Except Fault RawBuffer × Scope × Memory :=
  match s.strategy with
  | .borrowedView => (RawBuffer.view bytes, s, m)
  | .ownedCopy =>
      if bytes = [] then (.ok .empty, s, m)
      else
        match m.inputBlock s bytes with
        | (some block, m) =>
            (.ok (m.blockRaw block), { s with copies := .pooled block :: s.copies }, m)
        | (none, m) =>
            match m.onHeap (OwnedBuffer.copyFrom bytes secrecy) with
            | (.error fault, m) => (.error fault, s, m)
            | (.ok buffer, m) =>
                let buffer := { buffer with wipePublic := s.wipePublic }
                (.ok buffer.raw, { s with copies := .heap buffer :: s.copies }, m)

/-- Marshals a batch of secret inputs. -/
def inputBatch (m : Memory) (s : Scope) (items : List Bytes) :
    Except Fault RawBatch × Scope × Memory :=
  match m.onHeap (OwnedBatch.copyFrom items .secret) with
  | (.error fault, m) => (.error fault, s, m)
  | (.ok batch, m) => (.ok batch.raw, { s with copies := .batch batch :: s.copies }, m)

/-- Gives a scope a pool to take its copies from.  The pool that it had has one user fewer. -/
def equip (m : Memory) (s : Scope) (id : PoolId) : Scope × Memory :=
  ({ s with pool? := some id },
    match s.pool? with
    | none => m
    | some old => m.dropPool old)

/-- Releases one copy. -/
def releaseCopy (m : Memory) : ScopeCopy → Memory
  | .pooled block => m.releaseBlock block
  | .heap buffer => { m with heap := buffer.drop m.heap }
  | .batch batch => { m with heap := batch.drop m.heap }

/-- Releases copies in the order of the list. -/
def releaseCopies (m : Memory) (copies : List ScopeCopy) : Memory := copies.foldl releaseCopy m

/-- Ends a scope: its copies are released, newest first, and its pool has one user fewer. -/
def endScope (m : Memory) (s : Scope) : Memory :=
  let m := m.releaseCopies s.copies
  match s.pool? with
  | none => m
  | some id => m.dropPool id

end Memory

end NativeBoundary

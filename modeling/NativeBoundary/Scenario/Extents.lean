import NativeBoundary.Scenario.State

/-!
# Steps on extents

Making buffers of very many zero bytes.  A length that the size field cannot hold is refused
before a single byte is looked at, so these steps look at lengths first and write zeros down only
where an operation would really read them.
-/

namespace NativeBoundary.Scenario

/-- What becomes of zeros. -/
inductive ExtentUse
  | view
  | own
  /-- A raw buffer that nobody releases. -/
  | allocate
  /-- A batch of all the buffers. -/
  | batch
  /-- A batch with as many empty byte strings as the length says. -/
  | count
  /-- Whether a small pool takes them. -/
  | pool
  | scope (strategy : Strategy)

/-- A step on buffers of which only the lengths matter.  All but a batch use the first alone. -/
structure ExtentAction where
  purpose : ExtentUse
  lengths : List Nat

namespace State

/-- Zeros that the size field can count. -/
def zeros (length : Nat) : Except Fault Bytes := do
  let _ ← sizeField length
  return Bytes.zeros length

/-- The extent of a raw buffer. -/
def extentOf (b : RawBuffer) : Extent := ⟨b.size, b.length⟩

/-- The extent of a view of zeros. -/
def viewExtent (length : Nat) : Except Fault Extent := do
  return ⟨← sizeField length, length⟩

/-- Makes a batch of zeros and lets go of it. -/
def zeroBatch (s : State) (lengths : List Nat) : Answer × State :=
  match OwnedBatch.measure lengths with
  | .error fault => (.fault fault, s)
  | .ok _ =>
      match OwnedBatch.copyFrom (lengths.map Bytes.zeros) .secret s.heap with
      | (.error fault, heap) => (.fault fault, s.setHeap heap)
      | (.ok batch, heap) => (.count batch.count, s.setHeap (batch.drop heap))

/-- Offers zeros to a pool of two blocks of sixteen bytes.  One byte too many is refused like any
larger number. -/
def poolTakes (s : State) (length : Nat) : Answer × State :=
  match s.memory.createPool 2 16 with
  | (none, memory) => (.noSlot, s.setMemory memory)
  | (some id, memory) =>
      match memory.acquireWith id (Bytes.zeros (min length 17)) with
      | (none, memory) => (.flag false, s.setMemory (memory.dropPool id))
      | (some block, memory) =>
          (.flag true, s.setMemory ((memory.releaseBlock block).dropPool id))

/-- Marshals zeros through a scope of their own. -/
def scopeZeros (s : State) (strategy : Strategy) (length : Nat) : Answer × State :=
  match strategy with
  | .borrowedView => (.scopeExtent (viewExtent length) 0, s)
  | .ownedCopy =>
      match zeros length with
      | .error fault => (.scopeExtent (.error fault) 0, s)
      | .ok bytes =>
          let (result, scope, memory) := s.memory.input { strategy } bytes .secret
          (.scopeExtent (result.map extentOf) scope.owned, s.setMemory (memory.endScope scope))

end State

namespace ExtentAction

/-- Runs a step on one buffer of `length` zeros, or on all of them. -/
def runFrom (s : State) (purpose : ExtentUse) (length : Nat) (lengths : List Nat) : Answer × State :=
  match purpose with
  | .view =>
      match State.viewExtent length with
      | .error fault => (.fault fault, s)
      | .ok extent => (.extent extent, s)
  | .own =>
      match State.zeros length with
      | .error fault => (.fault fault, s)
      | .ok bytes =>
          match OwnedBuffer.copyFrom bytes .secret s.heap with
          | (.error fault, heap) => (.fault fault, s.setHeap heap)
          | (.ok b, heap) => (.raw b.raw (b.bytes heap), s.setHeap (b.drop heap))
  | .allocate =>
      match State.zeros length with
      | .error _ => (.raw .empty [], s)
      | .ok bytes =>
          let (b, heap) := RawBuffer.allocate bytes s.heap
          (.raw b (b.bytes heap), s.setHeap heap)
  | .batch => s.zeroBatch lengths
  | .count =>
      match sizeField length with
      | .error fault => (.fault fault, s)
      | .ok _ => s.zeroBatch (List.replicate length 0)
  | .pool => s.poolTakes length
  | .scope strategy => s.scopeZeros strategy length

/-- Runs a step on extents.  Without any length there is nothing to run it on. -/
def run (s : State) (action : ExtentAction) : Answer × State :=
  match action.lengths with
  | [] => (.noSlot, s)
  | length :: _ => runFrom s action.purpose length action.lengths

end ExtentAction

end NativeBoundary.Scenario

import NativeBoundary.Scenario.Buffers

/-!
# Steps on batches

Making owned and raw batches, handing them over in both directions, and releasing them.
-/

namespace NativeBoundary.Scenario

/-- A step on batches. -/
inductive BatchAction
  | copy (slot : SlotName) (items : List Bytes) (secrecy : Secrecy)
  | info (slot : SlotName)
  | drop (slot : SlotName)
  /-- Hands an owned batch to native code. -/
  | intoRaw (slot : SlotName)
  /-- Native code makes a batch of any tables and count. -/
  | foreign (slot : SlotName) (data : Option Bytes) (sizes : Option (List Int32)) (count : Int32)
  | rawEmpty (slot : SlotName)
  | rawInfo (slot : SlotName)
  /-- Takes a raw batch over. -/
  | adopt (slot : SlotName)
  /-- Copies a raw batch out and releases it. -/
  | take (slot : SlotName)
  /-- Releases a raw batch. -/
  | discard (slot : SlotName)

namespace State

/-- An owned batch as it is now. -/
def showBatch (s : State) (b : OwnedBatch) : Answer :=
  .batch b (b.lengths s.heap) (b.entries s.heap)

/-- Keeps a raw batch. -/
def keepRawBatch (s : State) (slot : SlotName) (b : RawBatch) : Answer × State :=
  (.rawBatch b, s.put .rawBatch slot b)

/-- Keeps an owned batch. -/
def keepBatch (s : State) (slot : SlotName) (b : OwnedBatch) : Answer × State :=
  (s.showBatch b, s.put .batch slot b)

end State

namespace BatchAction

/-- Runs a step on batches. -/
def run (s : State) : BatchAction → Answer × State
  | copy slot items secrecy =>
      match OwnedBatch.copyFrom items secrecy s.heap with
      | (.error fault, heap) => (.fault fault, s.setHeap heap)
      | (.ok batch, heap) => (s.setHeap heap).keepBatch slot batch
  | info slot => s.reading .batch slot fun b => (s.showBatch b, s)
  | drop slot => s.drop .batch slot
  | intoRaw slot => s.taking .batch slot fun s b => s.keepRawBatch slot b.raw
  | foreign slot data sizes count =>
      let (data, s) := s.foreignBlock? data
      let (sizes, s) := s.foreignBlock? (sizes.map (·.flatMap Bytes.ofInt32))
      s.keepRawBatch slot ⟨data, sizes, count⟩
  | rawEmpty slot => s.keepRawBatch slot .empty
  | rawInfo slot => s.reading .rawBatch slot fun b => (.rawBatch b, s)
  | adopt slot =>
      s.taking .rawBatch slot fun s raw =>
        match s.process.adoptBatch raw with
        | (.error fault, process) => (.fault fault, { s with process })
        | (.ok batch, process) => ({ s with process } : State).keepBatch slot batch
  | take slot =>
      s.taking .rawBatch slot fun s raw =>
        match s.process.takeBatch raw with
        | (.error fault, process) => (.fault fault, { s with process })
        | (.ok entries, process) => (.bytesList entries, { s with process })
  | discard slot =>
      s.taking .rawBatch slot fun s raw =>
        (.nothing, { s with process := s.process.discardBatch raw })

end BatchAction

end NativeBoundary.Scenario

import NativeBoundary.Scenario.State

/-!
# Steps on buffers

Making owned and raw buffers, handing them over in both directions, and releasing them.  A
foreign buffer is one that native code has made.
-/

namespace NativeBoundary.Scenario

/-- A step on buffers. -/
inductive BufferAction
  /-- Lends host bytes. -/
  | view (bytes : Bytes)
  /-- Copies host bytes. -/
  | own (slot : SlotName) (bytes : Bytes) (secrecy : Secrecy) (wipePublic : Bool)
  | ownEmpty (slot : SlotName)
  | ownInfo (slot : SlotName)
  | setWipePublic (slot : SlotName) (wipe : Bool)
  | dropOwn (slot : SlotName)
  /-- Hands an owned buffer to native code. -/
  | intoRaw (slot : SlotName)
  | allocate (slot : SlotName) (bytes : Bytes)
  | rawEmpty (slot : SlotName)
  | rawInfo (slot : SlotName)
  /-- Native code makes a buffer with any size field; without bytes its pointer is null. -/
  | foreign (slot : SlotName) (bytes : Option Bytes) (size : Int32)
  /-- Takes a raw buffer over. -/
  | adopt (slot : SlotName)
  /-- Copies a raw buffer out and releases it. -/
  | take (slot : SlotName)
  /-- Releases a raw buffer. -/
  | discard (slot : SlotName)
  | wipeRaw (slot : SlotName) (length : Nat)
  | releaseRaw (slot : SlotName) (length : Nat) (wipe : Bool)

namespace State

/-- An owned buffer as it is now. -/
def showOwned (s : State) (b : OwnedBuffer) : Answer := .owned b (b.bytes s.heap)

/-- A raw buffer as it is now. -/
def showRaw (s : State) (b : RawBuffer) : Answer := .raw b (b.bytes s.heap)

/-- A block that native code makes: at least one byte, and zero where nothing is written. -/
def foreignBlock (s : State) (bytes : Bytes) : Pointer × State :=
  match s.heap.allocate (max 1 bytes.length) with
  | (none, heap) => (.null, s.setHeap heap)
  | (some id, heap) =>
      (.native id 0, s.setHeap (heap.write id 0 (if bytes = [] then [0] else bytes)))

/-- A block that native code makes, or none. -/
def foreignBlock? (s : State) : Option Bytes → Pointer × State
  | none => (.null, s)
  | some bytes => s.foreignBlock bytes

/-- Copies host bytes into an owned buffer and keeps it. -/
def own (s : State) (slot : SlotName) (bytes : Bytes) (secrecy : Secrecy) (wipePublic : Bool) :
    Answer × State :=
  match OwnedBuffer.copyFrom bytes secrecy s.heap with
  | (.error fault, heap) => (.fault fault, s.setHeap heap)
  | (.ok buffer, heap) =>
      let buffer := { buffer with wipePublic }
      let s := s.setHeap heap
      (s.showOwned buffer, s.put .owned slot buffer)

/-- Keeps a raw buffer. -/
def keepRaw (s : State) (slot : SlotName) (b : RawBuffer) : Answer × State :=
  (s.showRaw b, s.put .raw slot b)

/-- Wipes the first bytes behind a pointer. -/
def wipeAt (s : State) (p : Pointer) (length : Nat) : State :=
  match p with
  | .native id offset => s.setHeap (s.heap.wipe id offset length)
  | _ => s

/-- Releases the block that a pointer leads to.  A null pointer leads to none, and there is nothing
to release. -/
def releaseAt (s : State) (p : Pointer) (length : Nat) (wipe : Bool) : Answer × State :=
  match p.block? with
  | some id => (.nothing, s.setHeap (s.heap.release id length wipe))
  | none => (.noSlot, s)

end State

namespace BufferAction

/-- Runs a step on buffers. -/
def run (s : State) : BufferAction → Answer × State
  | view bytes =>
      match RawBuffer.view bytes with
      | .error fault => (.fault fault, s)
      | .ok b => (.view b (b.bytes s.heap), s)
  | own slot bytes secrecy wipePublic => s.own slot bytes secrecy wipePublic
  | ownEmpty slot =>
      let buffer := OwnedBuffer.empty .secret
      (s.showOwned buffer, s.put .owned slot buffer)
  | ownInfo slot => s.reading .owned slot fun b => (s.showOwned b, s)
  | setWipePublic slot wipe =>
      s.reading .owned slot fun b =>
        (.nothing, s.store .owned slot { b with wipePublic := wipe })
  | dropOwn slot => s.drop .owned slot
  | intoRaw slot => s.taking .owned slot fun s b => s.keepRaw slot b.raw
  | allocate slot bytes =>
      let (b, heap) := RawBuffer.allocate bytes s.heap
      (s.setHeap heap).keepRaw slot b
  | rawEmpty slot => s.keepRaw slot .empty
  | rawInfo slot => s.reading .raw slot fun b => (s.showRaw b, s)
  | foreign slot bytes size =>
      let (data, s) := s.foreignBlock? bytes
      s.keepRaw slot ⟨data, size⟩
  | adopt slot =>
      s.taking .raw slot fun s b =>
        let buffer := OwnedBuffer.adopt b
        (s.showOwned buffer, s.put .owned slot buffer)
  | take slot =>
      s.taking .raw slot fun s b =>
        let (bytes, heap) := b.take s.heap
        (.bytes bytes, s.setHeap heap)
  | discard slot => s.taking .raw slot fun s b => (.nothing, s.setHeap (b.discard s.heap))
  | wipeRaw slot length =>
      s.reading .raw slot fun b =>
        let s := s.wipeAt b.data length
        (s.showRaw b, s)
  | releaseRaw slot length wipe =>
      s.taking .raw slot fun s b => s.releaseAt b.data length wipe

end BufferAction

end NativeBoundary.Scenario

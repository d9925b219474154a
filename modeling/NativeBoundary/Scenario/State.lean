import NativeBoundary.Scenario.Answer

/-!
# The state of a scenario

Whatever a scenario makes it keeps under a name of its own choice, in a table for each kind of
thing.  Putting something under a name that is in use lets go of what was there, in the way that
its kind asks for: an owned buffer is wiped and freed, a guard releases its handle, a raw buffer
is forgotten.

* `State.get?`, `State.put`, `State.take?` — what stands under a name.
* `State.letGo` — how each kind is let go.
* `State.eventsSince`, `State.noticesSince` — what happened since the last record was made.
-/

namespace NativeBoundary.Scenario

/-- The kinds of things that a scenario makes. -/
inductive Kind
  | owned | raw | batch | rawBatch | pool | block | scope | registry | handle | guard | held
  | object | binding | bridge | party | scripted | session
deriving DecidableEq, Repr

/-- What a thing of a kind is. -/
@[reducible] def Kind.Item : Kind → Type
  | owned => OwnedBuffer
  | raw => RawBuffer
  | batch => OwnedBatch
  | rawBatch => RawBatch
  | pool => PoolId
  | block => PoolBlock
  | scope => Scope
  | registry => RegistryId
  | handle => Handle
  | guard => HandleGuard
  | held => Object
  | object => NativeObject
  | binding => Binding
  | bridge => Bridge
  | party => TransportId
  | scripted => TransportId
  | session => TransportSession

/-- The name of a slot. -/
abbrev SlotName := String

/-- A table of slots for each kind. -/
structure Slots where
  table : (k : Kind) → Table SlotName k.Item

namespace Slots

/-- No slot holds anything. -/
def empty : Slots := ⟨fun _ => .empty⟩

/-- The slots with another table for a kind. -/
def setTable (s : Slots) (k : Kind) (t : Table SlotName k.Item) : Slots :=
  ⟨fun j => if h : k = j then h ▸ t else s.table j⟩

end Slots

/-- A process, the slots of a scenario, and what the scenario has to remember between steps. -/
structure State where
  process : Process := {}
  slots : Slots := .empty
  /-- The scopes of the calls under way, innermost first. -/
  scopes : List Scope := []
  /-- The last return code of an entry point. -/
  lastCode : Int32 := Code.success
  /-- Whether the heap is watched.  Only then may the allocator be told to refuse a request, and
  only then do records have heap events. -/
  watched : Bool := true
  /-- How many objects of the native library were released outside this heap. -/
  releasedElsewhere : Nat := 0
  /-- How many heap events stand in earlier records. -/
  eventMark : Nat := 0
  /-- How many notices stand in earlier records. -/
  noticeMark : Nat := 0

namespace State

/-- The heap. -/
def heap (s : State) : Heap := s.process.heap

/-- The memory. -/
def memory (s : State) : Memory := s.process.memory

/-- The state with another heap. -/
def setHeap (s : State) (heap : Heap) : State := { s with process := s.process.setHeap heap }

/-- The state with other memory. -/
def setMemory (s : State) (memory : Memory) : State :=
  { s with process := s.process.setMemory memory }

/-- The state with another network. -/
def setNetwork (s : State) (network : Network) : State :=
  { s with process := { s.process with network } }

/-- What stands under a name. -/
def get? (s : State) (k : Kind) (name : SlotName) : Option k.Item := (s.slots.table k).get? name

/-- The state with `item` under a name, and nothing let go. -/
def store (s : State) (k : Kind) (name : SlotName) (item : k.Item) : State :=
  { s with slots := s.slots.setTable k ((s.slots.table k).insert name item) }

/-- The state with nothing under a name, and nothing let go. -/
def forget (s : State) (k : Kind) (name : SlotName) : State :=
  { s with slots := s.slots.setTable k ((s.slots.table k).erase name) }

/-- Lets go of a thing in the way that its kind asks for. -/
def letGo (s : State) : (k : Kind) → k.Item → State
  | .owned, buffer => s.setHeap (OwnedBuffer.drop buffer s.heap)
  | .batch, batch => s.setHeap (OwnedBatch.drop batch s.heap)
  | .pool, id => s.setMemory (s.memory.dropPool id)
  | .block, block => s.setMemory (s.memory.releaseBlock block)
  | .scope, scope => { s with process := s.process.endScope scope }
  | .guard, guard => { s with process := s.process.dropGuard guard }
  | .held, object => { s with process := s.process.dropObject object }
  | .object, object => s.setHeap (s.heap.releaseObject object)
  | .binding, binding => { s with process := s.process.unbind binding }
  | .bridge, bridge => { s with process := s.process.dropBridge bridge }
  | .party, id => s.setNetwork (s.process.network.letGo id)
  | .scripted, id => s.setNetwork (s.process.network.letGo id)
  | .session, session => { s with process := s.process.closeTransport session }
  | .raw, _ | .rawBatch, _ | .registry, _ | .handle, _ => s

/-- Puts a thing under a name and lets go of what was there. -/
def put (s : State) (k : Kind) (name : SlotName) (item : k.Item) : State :=
  match s.get? k name with
  | none => s.store k name item
  | some old => (s.store k name item).letGo k old

/-- Takes what stands under a name. -/
def take? (s : State) (k : Kind) (name : SlotName) : Option (k.Item × State) :=
  (s.get? k name).map fun item => (item, s.forget k name)

/-- Lets go of what stands under a name. -/
def drop (s : State) (k : Kind) (name : SlotName) : Answer × State :=
  match s.take? k name with
  | none => (.noSlot, s)
  | some (item, s) => (.nothing, s.letGo k item)

/-- Lets go of all things of a kind. -/
def dropAll (s : State) (k : Kind) : State :=
  (s.slots.table k).values.foldl (fun s item => s.letGo k item)
    { s with slots := s.slots.setTable k .empty }

/-- Answers from what stands under a name. -/
def reading (s : State) (k : Kind) (name : SlotName) (f : k.Item → Answer × State) :
    Answer × State :=
  match s.get? k name with
  | none => (.noSlot, s)
  | some item => f item

/-- Takes what stands under a name and goes on with it. -/
def taking (s : State) (k : Kind) (name : SlotName) (f : State → k.Item → Answer × State) :
    Answer × State :=
  match s.take? k name with
  | none => (.noSlot, s)
  | some (item, s) => f s item

/-- The heap events since the last record, oldest first. -/
def eventsSince (s : State) : List HeapEvent :=
  if s.watched then (s.heap.trace.take (s.heap.trace.length - s.eventMark)).reverse else []

/-- The notices since the last record, oldest first. -/
def noticesSince (s : State) : List Notice :=
  (s.process.notices.take (s.process.notices.length - s.noticeMark)).reverse

/-- The state after everything so far was put into a record. -/
def settled (s : State) : State :=
  { s with eventMark := s.heap.trace.length, noticeMark := s.process.notices.length }

/-- Tells the allocator when to refuse; without a number it refuses nothing on purpose. -/
def arm (s : State) (failAt : Option Nat) : State :=
  if s.watched then s.setHeap { s.heap with granted := failAt } else s

/-- How many objects of the native library were released so far. -/
def releases (s : State) : Nat := s.releasedElsewhere + s.heap.objectsReleased

/-- The record of a step. -/
def close (s : State) (answer : Answer) : Record Answer × State :=
  ({ answer, events := s.eventsSince, notices := s.noticesSince }, (s.arm none).settled)

end State

end NativeBoundary.Scenario

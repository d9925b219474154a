import NativeBoundary.Handles.Registry
import NativeBoundary.Memory.Scope
import NativeBoundary.Notice

/-!
# The process

Everything that the boundary knows: native memory, the registries, the transports, and the policy
slot of the running thread, a pointer-sized value that is null when no policy is bound.  Three
histories go with it, newest entry first: what was reported, which host code was called with which
arguments, and what happened to the things that native code can get at.  In the last one, whatever
happens in native memory stands in one order with the ends of bindings and handles.

* `Process.setMemory`, `Process.setHeap` — other memory, with what happened in it.
* `Process.onThread`, `Process.rejoin` — what threads share, and what they do not.
* `Process.releaseHandle` — removing a registered object, reported when there is none.
* `Process.dropObject` — letting go of an object that nobody else holds.
* `Process.adoptBatch`, `Process.takeBatch`, `Process.discardBatch` — raw batches, with a report
  for each rejection.
-/

namespace NativeBoundary

/-- A call of host code on behalf of native code. -/
inductive HostCall
  | encapsulate (policy : Handle) (encapsulationKey : Bytes) (seed : Bytes32)
  | decapsulate (policy : Handle) (object : HostValue) (ciphertext : Bytes)
  | derivePublic (policy : Handle) (object : HostValue)
  | send (transport : TransportId) (receiver : Nat) (message : Bytes)
  | receive (transport : TransportId) (sender : Nat)
  | receiveAll (transport : TransportId) (senders : List Nat)
deriving DecidableEq, Repr

/-- What happened in a process. -/
inductive ProcessEvent
  | memory (event : MemoryEvent)
  /-- The policy slot was cleared. -/
  | slotCleared
  /-- An object was removed from a registry. -/
  | handleReleased (registry : RegistryId) (handle : Handle)
deriving DecidableEq, Repr

/-- The state of a process, as its running thread sees it. -/
structure Process where
  memory : Memory := {}
  registries : Registries := {}
  network : Network := {}
  /-- The policy slot of the running thread; zero is null. -/
  slot : UInt64 := 0
  notices : List Notice := []
  calls : List HostCall := []
  /-- What happened on the running thread. -/
  history : List ProcessEvent := []

namespace Process

/-- The process as a new thread finds it: nothing that the thread does in native memory is seen
elsewhere, so it starts with memory of its own, its policy slot is empty, and nothing has happened
on it. -/
def onThread (p : Process) : Process := { p with memory := {}, slot := 0, history := [] }

/-- The process after a thread has ended and left `t` behind: the memory, the policy slot and what
happened are those of the thread that goes on. -/
def rejoin (p t : Process) : Process :=
  { t with memory := p.memory, slot := p.slot, history := p.history }

/-- The native heap. -/
def heap (p : Process) : Heap := p.memory.heap

/-- The process with other memory; what happened there since is put on record. -/
def setMemory (p : Process) (memory : Memory) : Process :=
  { p with
    memory
    history := (memory.heap.historySince p.heap).map .memory ++ p.history }

/-- The process with another heap. -/
def setHeap (p : Process) (heap : Heap) : Process := p.setMemory { p.memory with heap }

/-- Memory that stays the same is no event. -/
theorem setHeap_self (p : Process) : p.setHeap p.heap = p := by
  unfold setHeap setMemory heap
  simp only [Heap.historySince_self]
  rfl

/-- Reports something. -/
def report (p : Process) (notice : Notice) : Process := { p with notices := notice :: p.notices }

/-- Records a call of host code. -/
def record (p : Process) (call : HostCall) : Process := { p with calls := call :: p.calls }

/-- Puts something on record that happened. -/
def note (p : Process) (event : ProcessEvent) : Process := { p with history := event :: p.history }

/-- Registers an object. -/
def register (p : Process) (r : RegistryId) (object : Object) : Handle × Process :=
  let (handle, registries) := p.registries.register r object
  (handle, { p with registries })

/-- The object under a handle. -/
def lookup? (p : Process) (r : RegistryId) (handle : Handle) : Option Object :=
  p.registries.lookup? r handle

/-- Removes the object under a handle.  A handle that is not registered is reported, and nothing
else happens. -/
def releaseHandle (p : Process) (r : RegistryId) (handle : Handle) :
    Except Fault Object × Process :=
  match p.registries.release r handle with
  | (some object, registries) =>
      (.ok object, { p with registries }.note (.handleReleased r handle))
  | (none, _) => (.error (.notFound s!"handle {handle.text}"), p.report (.unknownRelease handle))

/-- One more holder of an object. -/
def holdObject (p : Process) : Object → Process
  | .transport id => { p with network := p.network.hold id }
  | _ => p

/-- One holder of an object fewer. -/
def dropObject (p : Process) : Object → Process
  | .transport id => { p with network := p.network.letGo id }
  | _ => p

/-- Registers an object and guards it. -/
def guard (p : Process) (r : RegistryId) (object : Object) : HandleGuard × Process :=
  let (handle, p) := p.register r object
  ({ registry := r, handle }, p)

/-- Releases what a guard stands for. -/
def dropGuard (p : Process) (g : HandleGuard) : Process :=
  match p.releaseHandle g.registry g.handle with
  | (.ok object, p) => p.dropObject object
  | (.error _, p) => p

/-- Takes over a raw batch; a rejection is reported. -/
def adoptBatch (p : Process) (raw : RawBatch) : Except Fault OwnedBatch × Process :=
  match OwnedBatch.adopt raw p.heap with
  | (.ok batch, heap) => (.ok batch, p.setHeap heap)
  | (.error reason, heap) =>
      (.error reason.fault, (p.setHeap heap).report (.malformedBatch raw.count reason))

/-- Copies a raw batch out and releases it; a rejection is reported. -/
def takeBatch (p : Process) (raw : RawBatch) : Except Fault (List Bytes) × Process :=
  match raw.take p.heap with
  | (.ok entries, heap) => (.ok entries, p.setHeap heap)
  | (.error reason, heap) =>
      (.error reason.fault, (p.setHeap heap).report (.malformedBatch raw.count reason))

/-- Releases a raw batch; a rejection is reported. -/
def discardBatch (p : Process) (raw : RawBatch) : Process :=
  match raw.discard p.heap with
  | (none, heap) => p.setHeap heap
  | (some reason, heap) => (p.setHeap heap).report (.malformedBatch raw.count reason)

end Process

end NativeBoundary

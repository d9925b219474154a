import NativeBoundary.Scenario.State

/-!
# Steps on handles and native objects

Registering host objects under handles and looking them up again, and owning objects of the
native library.  A handle is given by the name of its slot or by its number.
-/

namespace NativeBoundary.Scenario

/-- A handle as a step names it. -/
inductive HandleRef
  | named (slot : SlotName)
  | literal (handle : Handle)
  /-- No handle is named where one is needed. -/
  | missing
deriving DecidableEq, Repr

/-- A registry as a step names it; without a name it is the registry of the process. -/
abbrev RegistryRef := Option SlotName

/-- The types that a registered object can be asked for. -/
inductive ValueType
  | text | word64 | word32 | bytes | unit | key
deriving DecidableEq, Repr

/-- Whether a value is of a type. -/
def ValueType.holds : ValueType → HostValue → Bool
  | text, .text _ => true
  | word64, .word64 _ => true
  | word32, .word32 _ => true
  | bytes, .bytes _ => true
  | unit, .unit => true
  | key, .key _ => true
  | _, _ => false

/-- A step on handles and native objects. -/
inductive HandleAction
  | registry (slot : SlotName)
  | register (registry : RegistryRef) (slot : SlotName) (value : HostValue)
  | guard (registry : RegistryRef) (slot : SlotName) (value : HostValue)
  | dropGuard (slot : SlotName)
  /-- Gives up a guard and keeps the object registered. -/
  | intoHandle (slot : SlotName)
  | lookup (registry : RegistryRef) (handle : HandleRef)
  | lookupAs (registry : RegistryRef) (handle : HandleRef) (type : ValueType)
  | release (registry : RegistryRef) (handle : HandleRef)
  | contains (registry : RegistryRef) (handle : HandleRef)
  | registryInfo (registry : RegistryRef)
  /-- Looks an object up and keeps it. -/
  | hold (registry : RegistryRef) (slot : SlotName) (handle : HandleRef)
  | held (slot : SlotName)
  | handleInfo (handle : HandleRef)
  /-- Registers `each` objects from each of several threads, then releases them all. -/
  | registerConcurrently (registry : RegistryRef) (threads each : Nat)
  /-- Takes over an object of the native library, or a null pointer. -/
  | object (slot : SlotName) (isNull : Bool)
  | dropObject (slot : SlotName)
  /-- Gives up the pointer of an object. -/
  | objectIntoRaw (slot : SlotName)

namespace State

/-- The handle that a reference stands for. -/
def handle? (s : State) : HandleRef → Option Handle
  | .named slot => s.get? .handle slot
  | .literal handle => some handle
  | .missing => none

/-- The opaque pointer that a reference stands for; none at all is null. -/
def pointer? (s : State) : Option HandleRef → Option UInt64
  | none => some 0
  | some ref => (s.handle? ref).map Handle.toPointer

/-- The registry that a reference stands for. -/
def registry? (s : State) : RegistryRef → Option RegistryId
  | none => some globalRegistry
  | some slot => s.get? .registry slot

/-- Answers from a registry. -/
def inRegistry (s : State) (ref : RegistryRef) (f : RegistryId → Answer × State) :
    Answer × State :=
  match s.registry? ref with
  | none => (.noSlot, s)
  | some r => f r

/-- Answers from a handle. -/
def withHandle (s : State) (ref : HandleRef) (f : Handle → Answer × State) : Answer × State :=
  match s.handle? ref with
  | none => (.noSlot, s)
  | some handle => f handle

/-- What an object is, if there is one. -/
def showObject : Option Object → Answer
  | some object => .value object.seen
  | none => .nothing

/-- Registers many objects at once and releases them again. -/
def registerMany (s : State) (r : RegistryId) (n : Nat) : Answer × State :=
  let before := s.process.registries.size r
  let (handles, process) := (List.range n).foldl
    (fun (handles, process) _ =>
      let (handle, process) := Process.register process r (.value .unit)
      (handle :: handles, process))
    (([] : List Handle), s.process)
  let size := process.registries.size r
  let span :=
    match handles.head?, handles.getLast? with
    | some last, some first => last.id.toNat - first.id.toNat + 1
    | _, _ => 0
  let process := handles.foldl (fun process handle => (process.releaseHandle r handle).2) process
  (.concurrent (size - before) span size (process.registries.size r), { s with process })

/-- Takes over an object of eight bytes that the native library makes. -/
def makeObject (s : State) (slot : SlotName) (isNull : Bool) : Answer × State :=
  let (pointer, s) :=
    if isNull then (.null, s)
    else
      match s.heap.allocate 8 with
      | (none, heap) => (.null, s.setHeap heap)
      | (some id, heap) =>
          (Pointer.native id 0, s.setHeap (heap.write id 0 (List.replicate 8 7)))
  match NativeObject.ofPointer pointer with
  | .error fault => (.fault fault, s)
  | .ok owned => (.object (owned.pointer = pointer) owned.describe, s.put .object slot owned)

/-- How many objects of the native library were released so far. -/
def showReleases (s : State) : Answer := .count s.releases

end State

namespace HandleAction

/-- Runs a step on handles. -/
def run (s : State) : HandleAction → Answer × State
  | registry slot =>
      let (r, registries) := s.process.registries.create
      (.nothing, ({ s with process := { s.process with registries } } : State).put .registry slot r)
  | register ref slot value =>
      s.inRegistry ref fun r =>
        let (handle, process) := s.process.register r (.value value)
        (.handle handle, ({ s with process } : State).put .handle slot handle)
  | guard ref slot value =>
      s.inRegistry ref fun r =>
        let (g, process) := s.process.guard r (.value value)
        let s := ({ s with process } : State).put .guard slot g
        (.holder g.handle g.describe, s.put .handle slot g.handle)
  | dropGuard slot => s.drop .guard slot
  | intoHandle slot => s.taking .guard slot fun s g => (.handle (HandleGuard.handle g), s)
  | lookup ref handle =>
      s.inRegistry ref fun r =>
        s.withHandle handle fun handle => (State.showObject (s.process.lookup? r handle), s)
  | lookupAs ref handle type =>
      s.inRegistry ref fun r =>
        s.withHandle handle fun handle =>
          let found := s.process.registries.lookupAs? r handle fun o => type.holds o.seen
          (State.showObject found, s)
  | release ref handle =>
      s.inRegistry ref fun r =>
        s.withHandle handle fun handle =>
          match s.process.releaseHandle r handle with
          | (.error fault, process) => (.fault fault, { s with process })
          | (.ok found, process) =>
              (.value found.seen, { s with process := process.dropObject found })
  | contains ref handle =>
      s.inRegistry ref fun r =>
        s.withHandle handle fun handle => (.flag (s.process.registries.contains r handle), s)
  | registryInfo ref =>
      s.inRegistry ref fun r =>
        (.registry (s.process.registries.size r) (s.process.registries.describe r), s)
  | hold ref slot handle =>
      s.inRegistry ref fun r =>
        s.withHandle handle fun handle =>
          match s.process.lookup? r handle with
          | none => (.noSlot, s)
          | some found =>
              let s : State := { s with process := s.process.holdObject found }
              (.nothing, s.put .held slot found)
  | held slot => s.reading .held slot fun found => (.value (Object.seen found), s)
  | handleInfo handle =>
      s.withHandle handle fun handle => (.handleInfo handle (Handle.ofPointer? handle.toPointer), s)
  | registerConcurrently ref threads each =>
      s.inRegistry ref fun r => s.registerMany r (threads * each)
  | object slot isNull => s.makeObject slot isNull
  | dropObject slot =>
      s.taking .object slot fun s owned =>
        let s := s.setHeap (s.heap.releaseObject owned)
        (s.showReleases, s)
  | objectIntoRaw slot =>
      s.taking .object slot fun s owned =>
        (s.showReleases, s.put .raw slot ⟨NativeObject.pointer owned, 8⟩)

end HandleAction

end NativeBoundary.Scenario

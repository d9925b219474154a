import NativeBoundary.Kem.Script
import NativeBoundary.Scenario.Handles

/-!
# Steps on policies and their entry points

Binding policies, looking at the policy slot, and calling the entry points for key encapsulation
as native code would.  Every out-parameter holds junk before the call, so that it can be seen
whether an entry point has written to it; what it has written is taken out at once.
-/

namespace NativeBoundary.Scenario

/-- A step on policies. -/
inductive PolicyAction
  | bind (slot : SlotName) (policy : Policy)
  | unbind (slot : SlotName)
  | setSlot (handle : HandleRef)
  | clearSlot
  | getSlot
  /-- Calls the current policy from the host side. -/
  | current
  | encapsulate (encapsulationKey seed : RawBuffer) (nullCiphertext nullSecret : Bool)
  | decapsulate (key : Option HandleRef) (ciphertext : RawBuffer) (nullOut : Bool)
  | derivePublic (key : Option HandleRef) (nullOut : Bool)
  | tables

/-- What an out-parameter holds before a call. -/
def junk : RawBuffer := ⟨.host [], 77⟩

/-- An out-parameter before a call. -/
def outParameter (isNull : Bool) : Option RawBuffer := if isNull then none else some junk

/-- The encapsulation key that the current policy is tried with. -/
def trialKey : Bytes := List.replicate 32 9

/-- The seed that the current policy is tried with. -/
def trialSeed : Bytes32 := ⟨List.replicate 32 5, by simp⟩

namespace State

/-- Takes out what an entry point has left in an out-parameter. -/
def takeOut (s : State) : Option RawBuffer → OutView × State
  | none => (none, s)
  | some b =>
      if b = junk then (none, s)
      else
        let (bytes, heap) := b.take s.heap
        (some (b, bytes), s.setHeap heap)

/-- The state after an entry point has returned a code. -/
def returned (s : State) (process : Process) (code : Int32) : State :=
  { s with process, lastCode := code }

/-- Calls the current policy from the host side. -/
def tryPolicy (s : State) : Answer :=
  match s.process.currentPolicy with
  | .error fault => .fault fault
  | .ok policy =>
      match policy.encapsulate trialKey trialSeed with
      | .value (ciphertext, secret) => .encapsulated ciphertext secret
      | .refusal e => .kemRefusal e
      | .panic message => .panicked message

/-- Answers from an opaque pointer. -/
def withPointer (s : State) (ref : Option HandleRef) (f : UInt64 → Answer × State) :
    Answer × State :=
  match s.pointer? ref with
  | none => (.noSlot, s)
  | some pointer => f pointer

/-- The answer of an entry point with one out-parameter. -/
def showOut (s : State) (reply : OutReply) : Answer × State :=
  let (out, s) := s.takeOut reply.out
  (.outReply reply.code out, s)

end State

namespace PolicyAction

/-- Runs a step on policies. -/
def run (s : State) : PolicyAction → Answer × State
  | bind slot policy =>
      match s.process.bind policy with
      | (.error fault, process) => (.fault fault, { s with process })
      | (.ok binding, process) =>
          let s := ({ s with process } : State).put .binding slot binding
          (.holder binding.handle binding.describe, s.put .handle slot binding.handle)
  | unbind slot => s.drop .binding slot
  | setSlot handle =>
      s.withHandle handle fun handle =>
        (.nothing, { s with process := s.process.setSlot handle.toPointer })
  | clearSlot => (.nothing, { s with process := s.process.clearSlot })
  | getSlot => (.slot (Handle.ofPointer? s.process.slot) s.process.isBound, s)
  | current => (s.tryPolicy, s)
  | encapsulate encapsulationKey seed nullCiphertext nullSecret =>
      let (reply, process) := s.process.encapsulate encapsulationKey seed
        (outParameter nullCiphertext) (outParameter nullSecret)
      let s := s.returned process reply.code
      let (ciphertext, s) := s.takeOut reply.ciphertext
      let (secret, s) := s.takeOut reply.secret
      (.encapsulateReply reply.code ciphertext secret, s)
  | decapsulate key ciphertext nullOut =>
      s.withPointer key fun key =>
        let (reply, process) := s.process.decapsulate key ciphertext (outParameter nullOut)
        (s.returned process reply.code).showOut reply
  | derivePublic key nullOut =>
      s.withPointer key fun key =>
        let (reply, process) := s.process.derivePublic key (outParameter nullOut)
        (s.returned process reply.code).showOut reply
  | tables => (.tables KemEntry.describeTable TransportEntry.describeTable, s)

end PolicyAction

end NativeBoundary.Scenario

import NativeBoundary.Binding

/-!
# Entry points for key encapsulation

Native code calls back into the policy of its thread through three entry points.  Each of them
empties its out-parameters, finds the policy, checks its arguments in a fixed order, calls the
policy once, and hands the results over as native blocks.  Whatever goes wrong becomes a return
code and a report, and no block that was made on the way survives a failure.

An out-parameter is given by what it held before the call; a null one is absent.

* `Process.encapsulate`, `Process.decapsulate`, `Process.derivePublic` — the entry points.
* `encapsulateRequest`, `decapsulateRequest`, `derivePublicRequest` — the checks before the policy
  is called, in their order.
-/

namespace NativeBoundary

/-- The length of a seed. -/
def seedLength : Nat := 32

/-- What an entry point with one out-parameter leaves behind. -/
structure OutReply where
  code : Int32
  out : Option RawBuffer
deriving DecidableEq, Repr

/-- What encapsulating leaves behind. -/
structure EncapsulateReply where
  code : Int32
  ciphertext : Option RawBuffer
  secret : Option RawBuffer
deriving DecidableEq, Repr

namespace KemEntry

def encapsulateName : String := "kem_encapsulate"
def decapsulateName : String := "kem_decapsulate"
def derivePublicName : String := "kem_derive_public"

/-- The entry points as a table of opaque pointers. -/
def describeTable : String :=
  "KemCallbacks \x7b encapsulate: <ptr>, decapsulate: <ptr>, derive_public: <ptr> \x7d"

/-- An out-parameter must not be null. -/
def requireOut (out : Option RawBuffer) (name : String) : Except Fault Unit :=
  if out.isNone then .error (.badArgument s!"null {name} out-parameter") else .ok ()

/-- An input must carry bytes. -/
def requireInput (input : RawBuffer) (name : String) : Except Fault Unit :=
  if input.isEmpty then .error (.badArgument s!"empty {name}") else .ok ()

/-- A seed must have its length. -/
def requireSeed (seed : RawBuffer) (heap : Heap) : Except Fault Bytes32 :=
  match (seed.bytes heap).to32? with
  | some rho => .ok rho
  | none => .error (.badArgument s!"seed must be {seedLength} bytes, got {seed.length}")

end KemEntry

namespace Process

open KemEntry

/-- The object under a private key handle. -/
def privateKey (p : Process) (pointer : UInt64) : Except Fault HostValue :=
  match Handle.ofPointer? pointer with
  | none => .error (.badArgument "null private key handle")
  | some handle =>
      match p.lookup? globalRegistry handle with
      | some object => .ok object.seen
      | none => .error (.notFound s!"private key handle {handle.text}")

/-- The checks before a policy encapsulates. -/
def encapsulateRequest (p : Process) (encapsulationKey seed : RawBuffer)
    (ciphertext secret : Option RawBuffer) : Except Fault (Policy × Bytes × Bytes32) := do
  let policy ← p.currentPolicy
  requireOut ciphertext "ciphertext"
  requireOut secret "shared secret"
  requireInput encapsulationKey "encapsulation key"
  let rho ← requireSeed seed p.heap
  return (policy, encapsulationKey.bytes p.heap, rho)

/-- The checks before a policy decapsulates. -/
def decapsulateRequest (p : Process) (key : UInt64) (ciphertext : RawBuffer)
    (out : Option RawBuffer) : Except Fault (Policy × HostValue × Bytes) := do
  let policy ← p.currentPolicy
  requireOut out "shared secret"
  requireInput ciphertext "ciphertext"
  let object ← p.privateKey key
  return (policy, object, ciphertext.bytes p.heap)

/-- The checks before a policy derives a public key. -/
def derivePublicRequest (p : Process) (key : UInt64) (out : Option RawBuffer) :
    Except Fault (Policy × HostValue) := do
  let policy ← p.currentPolicy
  requireOut out "encapsulation key"
  let object ← p.privateKey key
  return (policy, object)

/-- The return code for the outcome of an entry point, which is reported when it is a failure. -/
def closeKem {α : Type} (p : Process) (op : String) : Reply Fault α → Int32 × Process
  | .value _ => (Code.success, p)
  | .refusal fault => (fault.code, p.report (.policyFailed op fault))
  | .panic _ => (Code.crypto, p.report (.policyPanicked op))

/-- A native block for one result. -/
def handOver (p : Process) (bytes : Bytes) (secrecy : Secrecy) :
    Except Fault RawBuffer × Process :=
  match OwnedBuffer.copyFrom bytes secrecy p.heap with
  | (.ok buffer, heap) => (.ok buffer.raw, p.setHeap heap)
  | (.error fault, heap) => (.error fault, p.setHeap heap)

/-- Native blocks for a ciphertext and a shared secret: both or none. -/
def handOverPair (p : Process) (ciphertext secret : Bytes) :
    Except Fault (RawBuffer × RawBuffer) × Process :=
  match OwnedBuffer.copyFrom ciphertext .exposed p.heap with
  | (.error fault, heap) => (.error fault, p.setHeap heap)
  | (.ok first, heap) =>
      match OwnedBuffer.copyFrom secret .secret heap with
      | (.error fault, heap) => (.error fault, p.setHeap (first.drop heap))
      | (.ok second, heap) => (.ok (first.raw, second.raw), p.setHeap heap)

/-- What follows the answer of a policy: its results are handed over, anything else is passed on. -/
def settle {α β : Type} (p : Process) (reply : Reply KemError α)
    (handOver : Process → α → Except Fault β × Process) : Reply Fault β × Process :=
  match reply.asFault with
  | .value a =>
      match handOver p a with
      | (.ok b, p) => (.value b, p)
      | (.error fault, p) => (.refusal fault, p)
  | .refusal fault => (.refusal fault, p)
  | .panic message => (.panic message, p)

/-- The handle of the policy that the running thread has bound. -/
def boundHandle (p : Process) : Handle := ⟨p.slot⟩

/-- Encapsulates: the checks, the policy, the results. -/
def runEncapsulate (p : Process) (encapsulationKey seed : RawBuffer)
    (ciphertext secret : Option RawBuffer) : Reply Fault (RawBuffer × RawBuffer) × Process :=
  match p.encapsulateRequest encapsulationKey seed ciphertext secret with
  | .error fault => (.refusal fault, p)
  | .ok (policy, key, rho) =>
      (p.record (.encapsulate p.boundHandle key rho)).settle (policy.encapsulate key rho)
        fun p (ciphertext, secret) => p.handOverPair ciphertext secret

/-- Decapsulates: the checks, the policy, the result. -/
def runDecapsulate (p : Process) (key : UInt64) (ciphertext : RawBuffer)
    (out : Option RawBuffer) : Reply Fault RawBuffer × Process :=
  match p.decapsulateRequest key ciphertext out with
  | .error fault => (.refusal fault, p)
  | .ok (policy, object, bytes) =>
      (p.record (.decapsulate p.boundHandle object bytes)).settle (policy.decapsulate object bytes)
        fun p secret => p.handOver secret .secret

/-- Derives a public key: the checks, the policy, the result. -/
def runDerivePublic (p : Process) (key : UInt64) (out : Option RawBuffer) :
    Reply Fault RawBuffer × Process :=
  match p.derivePublicRequest key out with
  | .error fault => (.refusal fault, p)
  | .ok (policy, object) =>
      (p.record (.derivePublic p.boundHandle object)).settle (policy.derivePublic object)
        fun p encapsulationKey => p.handOver encapsulationKey .exposed

/-- What stands in an out-parameter after an entry point: its result, or nothing. -/
def filled (out : Option RawBuffer) : Reply Fault RawBuffer → Option RawBuffer
  | .value raw => out.map fun _ => raw
  | _ => out.map fun _ => .empty

/-- Encapsulates to a public key, with a seed of 32 bytes. -/
def encapsulate (p : Process) (encapsulationKey seed : RawBuffer)
    (ciphertext secret : Option RawBuffer) : EncapsulateReply × Process :=
  let (reply, p) := p.runEncapsulate encapsulationKey seed ciphertext secret
  let (code, p) := p.closeKem encapsulateName reply
  ({ code
     ciphertext := filled ciphertext (reply.map Prod.fst)
     secret := filled secret (reply.map Prod.snd) }, p)

/-- Recovers a shared secret with the private key under a handle. -/
def decapsulate (p : Process) (key : UInt64) (ciphertext : RawBuffer) (out : Option RawBuffer) :
    OutReply × Process :=
  let (reply, p) := p.runDecapsulate key ciphertext out
  let (code, p) := p.closeKem decapsulateName reply
  ({ code, out := filled out reply }, p)

/-- Derives the encapsulation key of the private key under a handle. -/
def derivePublic (p : Process) (key : UInt64) (out : Option RawBuffer) : OutReply × Process :=
  let (reply, p) := p.runDerivePublic key out
  let (code, p) := p.closeKem derivePublicName reply
  ({ code, out := filled out reply }, p)

end Process

end NativeBoundary

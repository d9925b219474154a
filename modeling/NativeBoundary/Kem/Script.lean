import NativeBoundary.Kem.Policy

/-!
# Scripted policies

A scripted policy does what its script says: for each operation it answers, refuses or panics.
An operation without a line in the script is not supported.  An answer is either fixed or made
of a tag and the arguments of the call, so that what the policy was handed can be read off it.

* `PolicyScript.policy` — the policy of a script.
-/

namespace NativeBoundary

/-- A scripted answer to an encapsulation. -/
inductive EncapsulateCue
  | pair (ciphertext secret : Bytes)
  /-- The tag, the encapsulation key and the seed as the ciphertext; the seed as the secret. -/
  | tagged (tag : Bytes)
deriving DecidableEq, Repr

/-- A scripted answer to a decapsulation. -/
inductive DecapsulateCue
  | secret (bytes : Bytes)
  /-- The tag and the ciphertext as the secret. -/
  | tagged (tag : Bytes)
deriving DecidableEq, Repr

/-- The answer that a cue gives for an encapsulation key and a seed. -/
def EncapsulateCue.answer (encapsulationKey : Bytes) (seed : Bytes32) :
    EncapsulateCue → Bytes × Bytes
  | pair ciphertext secret => (ciphertext, secret)
  | tagged tag => (tag ++ encapsulationKey ++ seed.val, seed.val)

/-- The answer that a cue gives for a ciphertext. -/
def DecapsulateCue.answer (ciphertext : Bytes) : DecapsulateCue → Bytes
  | secret bytes => bytes
  | tagged tag => tag ++ ciphertext

/-- What a scripted policy does in each operation. -/
structure PolicyScript where
  encapsulate : Option (Reply KemError EncapsulateCue) := none
  decapsulate : Option (Reply KemError DecapsulateCue) := none
  derivePublic : Option (Reply KemError Bytes) := none
deriving DecidableEq, Repr

namespace PolicyScript

/-- What a scripted panic says. -/
def panicMessage : String := "policy bug"

/-- The policy of a script. -/
def policy (s : PolicyScript) : Policy where
  encapsulate := fun encapsulationKey seed =>
    match s.encapsulate with
    | some cue => cue.map (·.answer encapsulationKey seed)
    | none => Policy.unsupported.encapsulate encapsulationKey seed
  decapsulate := fun object ciphertext =>
    match s.decapsulate with
    | some cue => cue.map (·.answer ciphertext)
    | none => Policy.unsupported.decapsulate object ciphertext
  derivePublic := fun object =>
    match s.derivePublic with
    | some cue => cue
    | none => Policy.unsupported.derivePublic object

end PolicyScript

end NativeBoundary

import NativeBoundary.Crypto.Hkdf
import NativeBoundary.Kem.Policy

/-!
# Key encapsulation by key agreement

The policy over X25519.  Encapsulating draws an ephemeral scalar from the seed, bound to the
recipient, and sends its public key as the ciphertext; both sides then derive the shared secret
from the agreed point, bound to ciphertext and recipient.  An agreed point of zero means that the
other side sent a point of low order, and is refused.

* `Agreement.encapsulate`, `Agreement.decapsulate`, `Agreement.derivePublic` — the three operations.
* `Agreement.generate` — a key pair from a source of random bytes.
-/

namespace NativeBoundary.Agreement

/-- What the ephemeral scalar is derived for. -/
def ephemeralInfo : Bytes := "mpc-bridge/x25519-kem/ephemeral".toUTF8.toList

/-- What the shared secret is derived for. -/
def sharedInfo : Bytes := "mpc-bridge/x25519-kem/shared-secret".toUTF8.toList

/-- The x-coordinate in some bytes, which have to be 32. -/
def point (bytes : Bytes) (what : String) : Except KemError Bytes32 :=
  match bytes.to32? with
  | some p => .ok p
  | none => .error (.invalidInput s!"{what} must be 32 bytes, got {bytes.length}")

/-- Whether an agreed point is zero in every byte. -/
def isZero (p : Bytes32) : Bool := p.val.all (· = 0)

/-- The shared secret of an agreed point, bound to ciphertext and encapsulation key. -/
def sharedSecret (agreed ciphertext encapsulationKey : Bytes32) : Bytes32 :=
  Hkdf.derive (ciphertext.val ++ encapsulationKey.val) agreed.val sharedInfo

/-- The ephemeral scalar for an encapsulation key and a seed. -/
def ephemeral (encapsulationKey seed : Bytes32) : Bytes32 :=
  Hkdf.derive (Sha256.digest encapsulationKey.val).val seed.val ephemeralInfo

/-- Ciphertext and shared secret for a recipient. -/
def encapsulate (encapsulationKey : Bytes) (seed : Bytes32) : Except KemError (Bytes × Bytes) := do
  let recipient ← point encapsulationKey "encapsulation key"
  let scalar := ephemeral recipient seed
  let ciphertext := Curve25519.publicKey scalar
  let agreed := Curve25519.x25519 scalar recipient
  if isZero agreed then .error (.crypto "encapsulation key is a low-order point")
  else .ok (ciphertext.val, (sharedSecret agreed ciphertext recipient).val)

/-- The X25519 key that an object is. -/
def keyOf : HostValue → Except KemError X25519Key
  | .key k => .ok k
  | _ => .error (.invalidInput "private key is not an X25519 key")

/-- The shared secret for a ciphertext. -/
def decapsulate (object : HostValue) (ciphertext : Bytes) : Except KemError Bytes := do
  let key ← keyOf object
  let ciphertext ← point ciphertext "ciphertext"
  let agreed := Curve25519.x25519 key.secret ciphertext
  if isZero agreed then .error (.crypto "ciphertext is a low-order point")
  else .ok (sharedSecret agreed ciphertext key.encapsulationKey).val

/-- The encapsulation key of a private key object. -/
def derivePublic (object : HostValue) : Except KemError Bytes := do
  return (← keyOf object).encapsulationKey.val

/-- A key pair whose secret is the next 32 bytes of a random source. -/
def generate (source : Nat → UInt8) : X25519Key × Bytes :=
  let key : X25519Key := ⟨⟨(List.range 32).map source, by simp⟩⟩
  (key, key.encapsulationKey.val)

/-- The outcome of host code that does not panic. -/
def reply {α : Type} : Except KemError α → Reply KemError α
  | .ok a => .value a
  | .error e => .refusal e

/-- Key encapsulation by key agreement, as a policy. -/
def policy : Policy where
  encapsulate := fun encapsulationKey seed => reply (encapsulate encapsulationKey seed)
  decapsulate := fun object ciphertext => reply (decapsulate object ciphertext)
  derivePublic := fun object => reply (derivePublic object)

end NativeBoundary.Agreement

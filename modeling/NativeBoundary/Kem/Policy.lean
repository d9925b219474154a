import NativeBoundary.Crypto.Curve25519
import NativeBoundary.Fault

/-!
# Key encapsulation policies

A policy is host code that native operations call back into: it encapsulates to a public key,
decapsulates with a private key object, and derives the public key of such an object.  Whatever
a policy does is one of three things: it answers, it refuses with a reason, or it panics.

* `Reply` — the three outcomes of calling host code.
* `HostValue` — what a registered object is to a policy that is handed one as a private key.
* `KemError.toFault` — a refusal as the fault that native code is told about.
-/

namespace NativeBoundary

/-- The outcome of calling host code. -/
inductive Reply (ε α : Type)
  | value (a : α)
  | refusal (e : ε)
  | panic (message : String)
deriving DecidableEq, Repr

/-- The outcome with its answer changed. -/
def Reply.map {ε α β : Type} (f : α → β) : Reply ε α → Reply ε β
  | .value a => .value (f a)
  | .refusal e => .refusal e
  | .panic message => .panic message

/-- Why a policy refuses. -/
inductive KemError
  | invalidInput (reason : String)
  | notSupported (operation : String)
  | crypto (reason : String)
deriving DecidableEq, Repr

namespace KemError

/-- The refusal in words. -/
def message : KemError → String
  | invalidInput reason => s!"invalid KEM input: {reason}"
  | notSupported operation => s!"KEM operation not supported: {operation}"
  | crypto reason => s!"KEM failure: {reason}"

/-- The refusal as a fault of the boundary. -/
def toFault : KemError → Fault
  | invalidInput reason => .badArgument reason
  | notSupported operation => .notSupported operation
  | crypto reason => .cryptoFailure reason

end KemError

/-- The outcome of a call of a policy, with a refusal as a fault of the boundary. -/
def Reply.asFault {α : Type} : Reply KemError α → Reply Fault α
  | .value a => .value a
  | .refusal e => .refusal e.toFault
  | .panic message => .panic message

/-- A private key for X25519. -/
structure X25519Key where
  secret : Bytes32
deriving DecidableEq, Repr

namespace X25519Key

/-- The encapsulation key of a private key. -/
def encapsulationKey (k : X25519Key) : Bytes32 := Curve25519.publicKey k.secret

/-- The key as a value of its type; the secret is not shown. -/
def describe (k : X25519Key) : String :=
  "X25519PrivateKey \x7b public: \"" ++ Bytes.hex k.encapsulationKey.val ++ "\", .. \x7d"

end X25519Key

/-- What a registered object is to whoever looks at it. -/
inductive HostValue
  | text (s : String)
  | word64 (n : UInt64)
  | word32 (n : UInt32)
  | bytes (b : Bytes)
  | unit
  | key (k : X25519Key)
  /-- An object that only the boundary itself can use. -/
  | other
deriving DecidableEq, Repr

/-- Host code that native operations call back into.  A seed has 32 bytes. -/
structure Policy where
  /-- The ciphertext and the shared secret for an encapsulation key and a seed. -/
  encapsulate : Bytes → Bytes32 → Reply KemError (Bytes × Bytes)
  /-- The shared secret for a private key object and a ciphertext. -/
  decapsulate : HostValue → Bytes → Reply KemError Bytes
  /-- The encapsulation key of a private key object. -/
  derivePublic : HostValue → Reply KemError Bytes

namespace Policy

/-- The policy that offers nothing. -/
def unsupported : Policy where
  encapsulate := fun _ _ => .refusal (.notSupported "encapsulate")
  decapsulate := fun _ _ => .refusal (.notSupported "decapsulate")
  derivePublic := fun _ => .refusal (.notSupported "derive_public")

end Policy

instance : Inhabited Policy := ⟨.unsupported⟩

end NativeBoundary

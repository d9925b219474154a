import NativeBoundary.Crypto.Sha256

/-!
# Keyed digests and key derivation

`hmac` is the keyed digest over SHA-256 and `Hkdf.derive` is extract-then-expand on top
of it.  Every key derived here is 32 bytes long, the length of one digest, so the
expansion is its first block and can never run out of counter values.
-/

namespace NativeBoundary

/-- The keyed digest of `message` under `key`: a key longer than a block is digested first. -/
def hmac (key message : Bytes) : Bytes32 :=
  let short : Bytes := if key.length > 64 then (Sha256.digest key).val else key
  let block := short ++ Bytes.zeros (64 - short.length)
  let inner := Sha256.digest (block.map (· ^^^ 0x36) ++ message)
  Sha256.digest (block.map (· ^^^ 0x5c) ++ inner.val)

namespace Hkdf

/-- Concentrates the entropy of `material` into one digest. -/
def extract (salt material : Bytes) : Bytes32 := hmac salt material

/-- The first 32 bytes of output for the purpose `info`. -/
def expand (extracted : Bytes32) (info : Bytes) : Bytes32 := hmac extracted.val (info ++ [1])

/-- A 32-byte key from `material`, bound to `salt` and to the purpose `info`. -/
def derive (salt material info : Bytes) : Bytes32 := expand (extract salt material) info

end Hkdf

end NativeBoundary

/-!
# Byte strings

What crosses the boundary is bytes.  A byte string is a list of bytes, so that
concatenation, taking and dropping are those of lists.  This file adds the few
views the rest of the library needs: lower case hexadecimal text, the little-endian
form of a 32-bit integer (a size table is an array of these), and byte strings of
exactly 32 bytes (keys and seeds).

* `hex` — two digits for every byte, most significant first.
* `ofInt32`, `toInt32` — four bytes, least significant first.
* `Bytes32` — a byte string together with the fact that it holds 32 bytes.
-/

namespace NativeBoundary

/-- A string of bytes. -/
abbrev Bytes := List UInt8

/-- A byte string of exactly 32 bytes: a scalar, a point or a seed. -/
abbrev Bytes32 := { bytes : Bytes // bytes.length = 32 }

namespace Bytes

/-- The digit of a value below sixteen, in lower case. -/
def hexDigit (n : Nat) : Char :=
  if n < 10 then Char.ofNat ('0'.toNat + n) else Char.ofNat ('a'.toNat + (n - 10))

/-- Two lower case digits for every byte. -/
def hex (bytes : Bytes) : String :=
  String.ofList (bytes.flatMap fun b => [hexDigit (b.toNat / 16), hexDigit (b.toNat % 16)])

/-- Number of bytes that are not zero. -/
def nonzero (bytes : Bytes) : Nat := bytes.countP (· != 0)

/-- A byte string of zeros. -/
def zeros (n : Nat) : Bytes := List.replicate n 0

/-- The byte string as 32 bytes, when it has that length. -/
def to32? (bytes : Bytes) : Option Bytes32 :=
  if h : bytes.length = 32 then some ⟨bytes, h⟩ else none

/-- The natural number whose base-256 digits are `bytes`, least significant first. -/
def toNatLE : Bytes → Nat
  | [] => 0
  | b :: rest => b.toNat + 256 * toNatLE rest

/-- The `count` lowest base-256 digits of `n`, least significant first. -/
def ofNatLE : Nat → Nat → Bytes
  | 0, _ => []
  | count + 1, n => UInt8.ofNat (n % 256) :: ofNatLE count (n / 256)

/-- The four bytes of a 32-bit integer, least significant first. -/
def ofInt32 (n : Int32) : Bytes := ofNatLE 4 n.toUInt32.toNat

/-- The 32-bit integer held by the first four bytes, least significant first. -/
def toInt32 (bytes : Bytes) : Int32 := (UInt32.ofNat (toNatLE (bytes.take 4))).toInt32

/-- The 32-bit integers that an array of them holds; a rest of fewer than four bytes is none. -/
def toInt32s : Bytes → List Int32
  | b0 :: b1 :: b2 :: b3 :: rest => toInt32 [b0, b1, b2, b3] :: toInt32s rest
  | _ => []

@[simp] theorem length_ofNatLE (count n : Nat) : (ofNatLE count n).length = count := by
  induction count generalizing n with
  | zero => rfl
  | succ k ih => simp [ofNatLE, ih]

@[simp] theorem length_zeros (n : Nat) : (zeros n).length = n := by simp [zeros]

end Bytes

end NativeBoundary

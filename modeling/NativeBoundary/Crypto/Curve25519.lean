import NativeBoundary.Data.Bytes

/-!
# X25519

Scalar multiplication on the Montgomery curve `y² = x³ + 486662 x² + x` over the integers
modulo `2²⁵⁵ - 19`, on x-coordinates alone.  A ladder walks the bits of the scalar from the
top and keeps two points whose difference is the input point; each bit doubles one of them
and adds the two.

* `x25519` — the function on 32-byte strings: the scalar is clamped, the top bit of the
  point is ignored, and the answer is the canonical form of the x-coordinate.
* `publicKey` — the scalar times the base point, whose x-coordinate is 9.
-/

namespace NativeBoundary.Curve25519

/-- The field has `2²⁵⁵ - 19` elements. -/
def modulus : Nat := Nat.pow 2 255 - 19

/-- Field addition. -/
def add (x y : Nat) : Nat := (x + y) % modulus

/-- Field subtraction, for reduced arguments. -/
def sub (x y : Nat) : Nat := (x + (modulus - y)) % modulus

/-- Field multiplication. -/
def mul (x y : Nat) : Nat := (x * y) % modulus

/-- The power `x ^ n` for the low `bits` bits of `n`, continued from `acc`. -/
def powBits (x n : Nat) : Nat → Nat → Nat
  | 0, acc => acc
  | bits + 1, acc =>
      let square := mul acc acc
      powBits x n bits (if n.testBit bits then mul square x else square)

/-- The inverse of `x`, and zero for zero: `x ^ (p - 2)`. -/
def inverse (x : Nat) : Nat := powBits x (modulus - 2) 255 1

/-- An x-coordinate as a fraction. -/
structure Ratio where
  x : Nat
  z : Nat
deriving DecidableEq, Repr

/-- Twice a point. -/
def Ratio.double (p : Ratio) : Ratio :=
  let aa := mul (add p.x p.z) (add p.x p.z)
  let bb := mul (sub p.x p.z) (sub p.x p.z)
  let e := sub aa bb
  ⟨mul aa bb, mul e (add aa (mul 121665 e))⟩

/-- The sum of two points whose difference has x-coordinate `u`. -/
def Ratio.sum (u : Nat) (p q : Ratio) : Ratio :=
  let da := mul (sub q.x q.z) (add p.x p.z)
  let cb := mul (add q.x q.z) (sub p.x p.z)
  ⟨mul (add da cb) (add da cb), mul u (mul (sub da cb) (sub da cb))⟩

/-- The ladder over the low `bits` bits of the scalar `k`, from the pair `(p, q)`. -/
def ladder (u k : Nat) : Nat → Ratio → Ratio → Ratio
  | 0, p, _ => p
  | bits + 1, p, q =>
      if k.testBit bits then ladder u k bits (Ratio.sum u p q) q.double
      else ladder u k bits p.double (Ratio.sum u p q)

/-- The scalar that 32 bytes stand for: a multiple of eight between `2²⁵⁴` and `2²⁵⁵`. -/
def scalar (k : Bytes32) : Nat :=
  let n := Bytes.toNatLE k.val
  Nat.pow 2 254 + n % Nat.pow 2 254 / 8 * 8

/-- The x-coordinate that 32 bytes stand for; the top bit is ignored. -/
def coordinate (u : Bytes32) : Nat := Bytes.toNatLE u.val % Nat.pow 2 255 % modulus

/-- The x-coordinate of `k` times the point with x-coordinate `u`. -/
def multiply (k u : Nat) : Nat :=
  let r := ladder u k 255 ⟨1, 0⟩ ⟨u, 1⟩
  mul r.x (inverse r.z)

/-- Scalar multiplication on 32-byte strings. -/
def x25519 (k u : Bytes32) : Bytes32 :=
  ⟨Bytes.ofNatLE 32 (multiply (scalar k) (coordinate u)), by simp⟩

/-- The base point. -/
def basePoint : Bytes32 := ⟨Bytes.ofNatLE 32 9, by simp⟩

/-- The public key of a scalar. -/
def publicKey (k : Bytes32) : Bytes32 := x25519 k basePoint

end NativeBoundary.Curve25519

import NativeBoundary.Toml.Quoted

/-!
# Numbers

An integer is written in base ten with an optional sign and no leading zeros, or without a
sign in base sixteen, eight or two; it has to fit 64 bits with a sign.  A number with a
fraction or an exponent is kept as it is written, and refused when it is so large that it
rounds to positive infinity.  In both, one underscore may stand between two digits.
-/

namespace NativeBoundary.Toml

/-- The value of a digit in a base up to sixteen. -/
def digit? (base : Nat) (c : Char) : Option Nat :=
  (hexDigit? c).bind fun n => if n < base then some n else none

/-- A digit in base ten. -/
def isDigit (c : Char) : Bool := (digit? 10 c).isSome

/-- The digits at the front of a text, without the underscores between them, and what follows
the last of them. -/
def digitRun (base : Nat) : List Char → List Char × List Char
  | '_' :: c :: rest =>
      if (digit? base c).isSome then
        let (digits, after) := digitRun base rest
        (c :: digits, after)
      else ([], '_' :: c :: rest)
  | c :: rest =>
      if (digit? base c).isSome then
        let (digits, after) := digitRun base rest
        (c :: digits, after)
      else ([], c :: rest)
  | [] => ([], [])

/-- At least one digit, the first of them not behind an underscore. -/
def digits? (base : Nat) : List Char → Option (List Char × List Char)
  | c :: rest => if (digit? base c).isSome then some (digitRun base (c :: rest)) else none
  | [] => none

/-- The number that digits stand for. -/
def numberOf (base : Nat) (digits : List Char) : Nat :=
  digits.foldl (fun n c => base * n + (digit? base c).getD 0) 0

/-- A sign, if there is one. -/
def sign : List Char → Option Char × List Char
  | '+' :: rest => (some '+', rest)
  | '-' :: rest => (some '-', rest)
  | cs => (none, cs)

/-- An integer in base ten: its sign, its digits, and what follows. -/
def decimal? (cs : List Char) : Option (Option Char × List Char × List Char) :=
  match sign cs with
  | (s, '0' :: rest) => some (s, ['0'], rest)
  | (s, rest) => (digits? 10 rest).map fun (digits, after) => (s, digits, after)

/-- Whether an integer fits 64 bits with a sign: it is from `-2⁶³` to `2⁶³ - 1`. -/
def fits64 (n : Int) : Bool := -0x8000000000000000 ≤ n && n < 0x8000000000000000

/-- The integer in `base` whose digits follow. -/
def based? (base : Nat) (cs : List Char) : Option (Int × List Char) := do
  let (digits, rest) ← digits? base cs
  let n : Int := numberOf base digits
  if fits64 n then some (n, rest) else none

/-- An integer. -/
def integer? : List Char → Option (Int × List Char)
  | '0' :: 'x' :: rest => based? 16 rest
  | '0' :: 'o' :: rest => based? 8 rest
  | '0' :: 'b' :: rest => based? 2 rest
  | cs => do
      let (s, digits, rest) ← decimal? cs
      let n : Int := numberOf 10 digits
      let n := if s = some '-' then -n else n
      if fits64 n then some (n, rest) else none

/-- The exponent of a number, if there is a well-formed one. -/
def exponent? : List Char → Option (Int × List Char)
  | c :: rest =>
      if c = 'e' || c = 'E' then do
        let (s, rest) := sign rest
        let (digits, rest) ← digits? 10 rest
        let n : Int := numberOf 10 digits
        some (if s = some '-' then -n else n, rest)
      else none
  | [] => none

/-- Whether `n` times ten to the power `e` rounds to infinity in 64 bits: it is at least
halfway from the largest finite number to the next power of two. -/
def overflows (n : Nat) (e : Int) : Bool :=
  let bound := Nat.pow 2 1024 - Nat.pow 2 970
  if n = 0 then false
  else if e ≥ 400 then true
  else if e ≥ 0 then n * Nat.pow 10 e.toNat ≥ bound
  else if (Nat.toDigits 10 n).length ≤ e.natAbs then false
  else n ≥ bound * Nat.pow 10 e.natAbs

/-- What was read of a number: the part of `cs` before `rest`. -/
def literalText (cs rest : List Char) : String := String.ofList (cs.take (cs.length - rest.length))

/-- Infinity or not-a-number, with an optional sign. -/
def namedFloat? (cs : List Char) : Option (String × List Char) :=
  match (sign cs).2 with
  | 'i' :: 'n' :: 'f' :: rest => some (literalText cs rest, rest)
  | 'n' :: 'a' :: 'n' :: rest => some (literalText cs rest, rest)
  | _ => none

/-- A number in base ten with a fraction, an exponent, or both. -/
def writtenFloat? (cs : List Char) : Option (String × List Char) := do
  let (s, whole, rest) ← decimal? cs
  let (n, e, rest) ←
    match exponent? rest, rest with
    | some (e, after), _ => some (numberOf 10 whole, e, after)
    | none, '.' :: after => do
        let (fraction, after) ← digits? 10 after
        let n := numberOf 10 (whole ++ fraction)
        match exponent? after with
        | some (e, after) => some (n, e - fraction.length, after)
        | none => some (n, -(fraction.length : Int), after)
    | none, _ => none
  if s ≠ some '-' && overflows n e then none else some (literalText cs rest, rest)

/-- A number that is no integer. -/
def float? (cs : List Char) : Option (String × List Char) :=
  (writtenFloat? cs).or (namedFloat? cs)

end NativeBoundary.Toml

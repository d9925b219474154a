/-!
# Numbers in base sixteen

Handles and return codes are shown in base sixteen: `0x` and the digits in lower case,
without leading zeros.
-/

namespace NativeBoundary

/-- The number in base sixteen, marked as such. -/
def hexNumber (n : Nat) : String := "0x" ++ String.ofList (Nat.toDigits 16 n)

end NativeBoundary

import NativeBoundary.Toml.Number

/-!
# Moments

A date, a time of day, or both with an optional offset from universal time.  The parts have
fixed widths; a date has to be one of the Gregorian calendar, an hour is below 24, a minute
below 60 and a second at most 60, so that a leap second can be written.
-/

namespace NativeBoundary.Toml

/-- Two digits that stand for a number from `lo` to `hi`. -/
def twoDigits? (lo hi : Nat) : List Char → Option (Nat × List Char)
  | a :: b :: rest =>
      if isDigit a && isDigit b then
        let n := numberOf 10 [a, b]
        if lo ≤ n && n ≤ hi then some (n, rest) else none
      else none
  | _ => none

/-- What follows the character `c`. -/
def after? (c : Char) : List Char → Option (List Char)
  | d :: rest => if d = c then some rest else none
  | [] => none

/-- Whether a year has a leap day. -/
def isLeapYear (year : Nat) : Bool := year % 4 = 0 && (year % 100 ≠ 0 || year % 400 = 0)

/-- The number of days of a month. -/
def daysIn (year month : Nat) : Nat :=
  if month = 2 then (if isLeapYear year then 29 else 28)
  else if month = 4 || month = 6 || month = 9 || month = 11 then 30
  else 31

/-- What follows a date: year, month and day with hyphens between them. -/
def date? : List Char → Option (List Char)
  | a :: b :: c :: d :: rest =>
      if [a, b, c, d].all isDigit then do
        let year := numberOf 10 [a, b, c, d]
        let (month, rest) ← twoDigits? 1 12 (← after? '-' rest)
        let (day, rest) ← twoDigits? 1 31 (← after? '-' rest)
        if day ≤ daysIn year month then some rest else none
      else none
  | _ => none

/-- What follows a fraction of a second, which may be missing. -/
def skipFraction : List Char → List Char
  | '.' :: c :: rest => if isDigit c then rest.dropWhile isDigit else '.' :: c :: rest
  | cs => cs

/-- What follows a time of day: hour, minute and second with colons between them. -/
def time? (cs : List Char) : Option (List Char) := do
  let (_, rest) ← twoDigits? 0 23 cs
  let (_, rest) ← twoDigits? 0 59 (← after? ':' rest)
  let (_, rest) ← twoDigits? 0 60 (← after? ':' rest)
  some (skipFraction rest)

/-- What follows an offset from universal time: a letter, or a sign with hour and minute. -/
def offset? : List Char → Option (List Char)
  | c :: rest =>
      if c = 'Z' || c = 'z' then some rest
      else if c = '+' || c = '-' then do
        let (_, rest) ← twoDigits? 0 23 rest
        let (_, rest) ← twoDigits? 0 59 (← after? ':' rest)
        some rest
      else none
  | [] => none

/-- What follows the time of day behind a date, which may be missing. -/
def skipTimeOfDay : List Char → List Char
  | c :: rest =>
      if c = 'T' || c = 't' || c = ' ' then
        match time? rest with
        | some rest => (offset? rest).getD rest
        | none => c :: rest
      else c :: rest
  | [] => []

/-- A moment. -/
def moment? (cs : List Char) : Option (String × List Char) :=
  match date? cs with
  | some rest =>
      let rest := skipTimeOfDay rest
      some (literalText cs rest, rest)
  | none => (time? cs).map fun rest => (literalText cs rest, rest)

end NativeBoundary.Toml

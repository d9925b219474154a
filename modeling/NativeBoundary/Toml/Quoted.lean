import NativeBoundary.Toml.Blank

/-!
# Quoted text

Text stands between double quotes, where a backslash introduces an escape, or between
single quotes, where nothing is an escape.  Three quotes in a row open text that may run
over several lines: a line end right after the opening is dropped, one or two quotes inside
are text, and up to two quotes more may stand right before the closing three.
-/

namespace NativeBoundary.Toml

/-- A character that stands for itself between double quotes. -/
def isPlainChar (c : Char) : Bool := isCommentChar c && c ≠ '"' && c ≠ '\\'

/-- A character that stands for itself between single quotes. -/
def isLiteralChar (c : Char) : Bool := isCommentChar c && c ≠ '\''

/-- The value of a digit in base sixteen. -/
def hexDigit? (c : Char) : Option Nat :=
  if '0' ≤ c && c ≤ '9' then some (c.toNat - '0'.toNat)
  else if 'a' ≤ c && c ≤ 'f' then some (c.toNat - 'a'.toNat + 10)
  else if 'A' ≤ c && c ≤ 'F' then some (c.toNat - 'A'.toNat + 10)
  else none

/-- The character whose code point is written in base sixteen. -/
def codePoint? (digits : List Char) : Option Char := do
  let n ← digits.foldlM (fun n c => (hexDigit? c).map (16 * n + ·)) 0
  if n.isValidChar then some (Char.ofNat n) else none

/-- The character that a backslash and `c` stand for. -/
def shortEscape? (c : Char) : Option Char :=
  match c with
  | 'b' => some '\x08'
  | 'f' => some '\x0c'
  | 'n' => some '\n'
  | 'r' => some '\r'
  | 't' => some '\t'
  | '"' => some '"'
  | '\\' => some '\\'
  | _ => none

/-- Text that was read, with one more character in front. -/
def withChar (c? : Option Char) (read : Option (List Char × List Char)) :
    Option (List Char × List Char) :=
  match c?, read with
  | some c, some (content, rest) => some (c :: content, rest)
  | _, _ => none

/-- The text up to the closing double quote, on one line. -/
def basicBody? : List Char → Option (List Char × List Char)
  | '"' :: rest => some ([], rest)
  | '\\' :: 'u' :: a :: b :: c :: d :: rest => withChar (codePoint? [a, b, c, d]) (basicBody? rest)
  | '\\' :: 'U' :: a :: b :: c :: d :: e :: f :: g :: h :: rest =>
      withChar (codePoint? [a, b, c, d, e, f, g, h]) (basicBody? rest)
  | '\\' :: c :: rest => withChar (shortEscape? c) (basicBody? rest)
  | c :: rest => if isPlainChar c then withChar (some c) (basicBody? rest) else none
  | [] => none

/-- The text up to the closing single quote, on one line. -/
def literalBody? : List Char → Option (List Char × List Char)
  | '\'' :: rest => some ([], rest)
  | c :: rest => if isLiteralChar c then withChar (some c) (literalBody? rest) else none
  | [] => none

/-- Where a reader of several lines stands relative to a backslash at the end of a line. -/
inductive Fold
  /-- Nowhere near one. -/
  | none
  /-- Behind the backslash, before the end of its line. -/
  | open
  /-- Behind that line end: blanks and line ends are dropped. -/
  | closing
deriving DecidableEq

/-- The text up to the closing three double quotes. -/
def basicLines? : Fold → List Char → Option (List Char × List Char)
  | _, [] => none
  | .open, '\n' :: rest => basicLines? .closing rest
  | .open, '\r' :: '\n' :: rest => basicLines? .closing rest
  | .open, c :: rest => if isBlank c then basicLines? .open rest else none
  | .closing, ' ' :: rest => basicLines? .closing rest
  | .closing, '\t' :: rest => basicLines? .closing rest
  | .closing, '\n' :: rest => basicLines? .closing rest
  | .closing, '\r' :: '\n' :: rest => basicLines? .closing rest
  | _, '"' :: '"' :: '"' :: '"' :: '"' :: rest => some (['"', '"'], rest)
  | _, '"' :: '"' :: '"' :: '"' :: rest => some (['"'], rest)
  | _, '"' :: '"' :: '"' :: rest => some ([], rest)
  | _, '"' :: rest => withChar (some '"') (basicLines? .none rest)
  | _, '\\' :: 'u' :: a :: b :: c :: d :: rest =>
      withChar (codePoint? [a, b, c, d]) (basicLines? .none rest)
  | _, '\\' :: 'U' :: a :: b :: c :: d :: e :: f :: g :: h :: rest =>
      withChar (codePoint? [a, b, c, d, e, f, g, h]) (basicLines? .none rest)
  | _, '\\' :: '\n' :: rest => basicLines? .closing rest
  | _, '\\' :: '\r' :: '\n' :: rest => basicLines? .closing rest
  | _, '\\' :: c :: rest =>
      if isBlank c then basicLines? .open rest
      else withChar (shortEscape? c) (basicLines? .none rest)
  | _, '\n' :: rest => withChar (some '\n') (basicLines? .none rest)
  | _, '\r' :: '\n' :: rest => withChar (some '\n') (basicLines? .none rest)
  | _, c :: rest => if isPlainChar c then withChar (some c) (basicLines? .none rest) else none

/-- The text up to the closing three single quotes. -/
def literalLines? : List Char → Option (List Char × List Char)
  | [] => none
  | '\'' :: '\'' :: '\'' :: '\'' :: '\'' :: rest => some (['\'', '\''], rest)
  | '\'' :: '\'' :: '\'' :: '\'' :: rest => some (['\''], rest)
  | '\'' :: '\'' :: '\'' :: rest => some ([], rest)
  | '\'' :: rest => withChar (some '\'') (literalLines? rest)
  | '\n' :: rest => withChar (some '\n') (literalLines? rest)
  | '\r' :: '\n' :: rest => withChar (some '\n') (literalLines? rest)
  | c :: rest => if isLiteralChar c then withChar (some c) (literalLines? rest) else none

/-- The text without the line end right behind opening quotes. -/
def dropFirstLineEnd : List Char → List Char
  | '\n' :: rest => rest
  | '\r' :: '\n' :: rest => rest
  | cs => cs

/-- Quoted text on one line: the form that a key may have. -/
def quotedLine? : List Char → Option (List Char × List Char)
  | '"' :: rest => basicBody? rest
  | '\'' :: rest => literalBody? rest
  | _ => none

/-- Quoted text of any form. -/
def quoted? : List Char → Option (List Char × List Char)
  | '"' :: '"' :: '"' :: rest => basicLines? .none (dropFirstLineEnd rest)
  | '\'' :: '\'' :: '\'' :: rest => literalLines? (dropFirstLineEnd rest)
  | cs => quotedLine? cs

end NativeBoundary.Toml

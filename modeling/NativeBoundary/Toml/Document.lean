import NativeBoundary.Toml.Value
import NativeBoundary.Toml.Moment

/-!
# Reading a document

A document is read line by line.  A header moves to a table, which the lines below it fill;
a line with a key and a value puts the value where the key says.  Everything that would define
something twice is refused: the rules are those of `Origin`.

Arrays and tables in braces nest to a depth of less than `nestingLimit`, and a dotted key has
fewer than `nestingLimit` parts.  The depth that is still allowed is the argument on which the
reader of values recurs.

* `Entries.within?` — following a path of keys and changing the table at its end.
* `value?` — one value and what follows it.
* `parse?` — the entries of a whole document.
-/

namespace NativeBoundary.Toml

/-- Nesting from this depth on is refused. -/
def nestingLimit : Nat := 80

namespace Entries

/-- Follows a path of keys from a table and changes the table at its end.  A table that is not
there yet is made, by a dotted key or by a header; the last table of repeated headers stands
for all of them.  Nothing extends a table in braces, and no dotted key extends a table with a
header of its own. -/
def within? (byDots : Bool) (change : Origin → Entries → Option Entries) :
    List String → Origin → Entries → Option Entries
  | [], origin, here => change origin here
  | key :: path, _, here => do
      let made := if byDots then Origin.dotted else Origin.implied
      match here.get? key with
      | none =>
          let below ← within? byDots change path made []
          some (here.set key (.table made below))
      | some (.table origin below) =>
          if origin = .inline || (byDots && origin = .header) then none
          else
            let below ← within? byDots change path origin below
            some (here.set key (.table origin below))
      | some (.rows tables) =>
          let below ← within? byDots change path .header (← tables.getLast?)
          some (here.set key (.rows (tables.dropLast ++ [below])))
      | some _ => none

/-- A new key with its value.  The parts of a dotted key lead to a table made by dotted keys,
a plain key stays in a table that is not. -/
def put? (path : List String) (key : String) (value : Value) (origin : Origin) (here : Entries) :
    Option Entries :=
  here |> within? true (fun origin there =>
    if origin = .dotted ↔ path = [] then none
    else
      match there.get? key with
      | some _ => none
      | none => some (there ++ [(key, value)])) path origin

/-- The header of the table `key`: new, or so far only implied by other headers. -/
def openTable? (key : String) (_ : Origin) (here : Entries) : Option Entries :=
  match here.get? key with
  | none => some (here ++ [(key, .table .header [])])
  | some (.table .implied below) => some (here.set key (.table .header below))
  | some _ => none

/-- The repeated header of `key`: one more table in its row. -/
def openRow? (key : String) (_ : Origin) (here : Entries) : Option Entries :=
  match here.get? key with
  | none => some (here ++ [(key, .rows [[]])])
  | some (.rows tables) => some (here.set key (.rows (tables ++ [[]])))
  | some _ => none

end Entries

/-- A character of a key without quotes. -/
def isBareKeyChar (c : Char) : Bool := c.isAlphanum || c = '_' || c = '-'

/-- One part of a key. -/
def keyPart? (cs : List Char) : Option (String × List Char) :=
  match cs with
  | [] => none
  | c :: _ =>
      if c = '"' || c = '\'' then
        (quotedLine? cs).map fun (content, rest) => (String.ofList content, rest)
      else if isBareKeyChar c then
        some (String.ofList (cs.takeWhile isBareKeyChar), cs.dropWhile isBareKeyChar)
      else none

/-- The parts of a key with dots between them; blanks may stand around each part.  The first
argument bounds the number of parts. -/
def keyParts? : Nat → List Char → Option (List String × String × List Char)
  | 0, _ => none
  | fuel + 1, cs => do
      let (part, rest) ← keyPart? (skipBlanks cs)
      match skipBlanks rest with
      | '.' :: rest =>
          let (path, key, rest) ← keyParts? fuel rest
          some (part :: path, key, rest)
      | rest => some ([], part, rest)

/-- A key: the parts that lead to its table, and its last part. -/
def key? (cs : List Char) : Option (List String × String × List Char) :=
  keyParts? (nestingLimit - 1) cs

/-- The items of an array up to its closing bracket.  The first argument bounds their number. -/
def arrayItems? (item? : List Char → Option (Value × List Char)) :
    Nat → List Char → Option (List Value × List Char)
  | 0, _ => none
  | fuel + 1, cs => do
      match ← skipGap? false cs with
      | ']' :: rest => some ([], rest)
      | cs =>
          let (item, rest) ← item? cs
          match ← skipGap? false rest with
          | ',' :: rest =>
              let (items, rest) ← arrayItems? item? fuel rest
              some (item :: items, rest)
          | ']' :: rest => some ([item], rest)
          | _ => none

/-- The entries of a table in braces, from its first key up to the closing brace.  The first
argument bounds their number. -/
def inlineEntries? (item? : List Char → Option (Value × List Char)) :
    Nat → Entries → List Char → Option (Entries × List Char)
  | 0, _, _ => none
  | fuel + 1, here, cs => do
      let (path, key, rest) ← key? cs
      let (item, rest) ← item? (skipBlanks (← after? '=' rest))
      let here ← here.put? path key item .inline
      match skipBlanks rest with
      | ',' :: rest => inlineEntries? item? fuel here rest
      | '\x7d' :: rest => some (here, rest)
      | _ => none

/-- One value; arrays and tables in braces may nest `depth` times. -/
def value? (depth : Nat) (cs : List Char) : Option (Value × List Char) :=
  match cs with
  | [] => none
  | c :: rest =>
      if c = '"' || c = '\'' then
        (quoted? cs).map fun (content, rest) => (.text (String.ofList content), rest)
      else if c = '[' then
        match depth with
        | 0 => none
        | depth + 1 =>
            (arrayItems? (value? depth) cs.length rest).map fun (items, rest) =>
              (.array items, rest)
      else if c = '\x7b' then
        match depth, skipBlanks rest with
        | 0, _ => none
        | _ + 1, '\x7d' :: rest => some (.table .inline [], rest)
        | depth + 1, rest =>
            (inlineEntries? (value? depth) cs.length [] rest).map fun (entries, rest) =>
              (.table .inline entries, rest)
      else
        match moment? cs, float? cs, integer? cs, cs with
        | some (literal, rest), _, _, _ => some (.moment literal, rest)
        | none, some (literal, rest), _, _ => some (.float literal, rest)
        | none, none, some (n, rest), _ => some (.integer n, rest)
        | none, none, none, 't' :: 'r' :: 'u' :: 'e' :: rest => some (.boolean true, rest)
        | none, none, none, 'f' :: 'a' :: 'l' :: 's' :: 'e' :: rest => some (.boolean false, rest)
        | none, none, none, _ => none

/-- The lines of a document, below the header `path` and after the entries `here`.  The first
argument bounds their number. -/
def lines? : Nat → List String → Entries → List Char → Option Entries
  | 0, _, _, _ => none
  | fuel + 1, path, here, cs => do
      match skipBlanks cs with
      | [] => some here
      | '#' :: rest => lines? fuel path here (← lineEnd? (skipComment rest))
      | '\n' :: rest => lines? fuel path here rest
      | '\r' :: '\n' :: rest => lines? fuel path here rest
      | '[' :: '[' :: rest =>
          let (parents, key, rest) ← key? rest
          let rest ← restOfLine? (← after? ']' (← after? ']' rest))
          let here ← here.within? false (Entries.openRow? key) parents .header
          lines? fuel (parents ++ [key]) here rest
      | '[' :: rest =>
          let (parents, key, rest) ← key? rest
          let rest ← restOfLine? (← after? ']' rest)
          let here ← here.within? false (Entries.openTable? key) parents .header
          lines? fuel (parents ++ [key]) here rest
      | cs =>
          let (parents, key, rest) ← key? cs
          let (item, rest) ← value? (nestingLimit - 1) (skipBlanks (← after? '=' rest))
          let rest ← restOfLine? rest
          let here ← here.within? false (Entries.put? parents key item) path .header
          lines? fuel path here rest

/-- The entries of a document.  A byte order mark at its start is not part of it. -/
def parse? (text : String) : Option Entries :=
  let cs := text.toList
  let cs := if cs.head? = some '\ufeff' then cs.tail else cs
  lines? (cs.length + 1) [] [] cs

end NativeBoundary.Toml

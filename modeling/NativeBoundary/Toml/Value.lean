/-!
# What a document says

A TOML document is a table of values.  Tables remember how they came about, because the
format lets some of them be extended later and others not:

* a table with a header of its own may not have that header twice;
* a table that only occurs inside a longer header may still get its own header once;
* a table made by a dotted key grows by further dotted keys only;
* a table in braces is complete where it stands.

Numbers with a fraction and moments in time are kept as they are written: nothing here
computes with them.
-/

namespace NativeBoundary.Toml

/-- How a table came about. -/
inductive Origin
  /-- It has a header of its own, or it is the document itself. -/
  | header
  /-- It occurs inside the header of a table further down. -/
  | implied
  /-- It occurs inside a dotted key. -/
  | dotted
  /-- It is written in braces. -/
  | inline
deriving DecidableEq, Repr

/-- A value of a document. -/
inductive Value
  | text (content : String)
  | integer (n : Int)
  | float (literal : String)
  | boolean (b : Bool)
  | moment (literal : String)
  | array (items : List Value)
  | table (origin : Origin) (entries : List (String × Value))
  /-- The tables of one repeated header, in order. -/
  | rows (tables : List (List (String × Value)))
deriving Repr

/-- The entries of a table, in the order in which their keys first occur. -/
abbrev Entries := List (String × Value)

namespace Entries

/-- The value under a key. -/
def get? (entries : Entries) (key : String) : Option Value := List.lookup key entries

/-- The entries with `value` under `key`, in its place if the key is there and at the end
otherwise. -/
def set : Entries → String → Value → Entries
  | [], key, value => [(key, value)]
  | (k, v) :: rest, key, value =>
      if k = key then (k, value) :: rest else (k, v) :: set rest key value

end Entries

end NativeBoundary.Toml

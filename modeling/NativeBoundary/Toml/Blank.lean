/-!
# Blanks, line ends and comments

What stands between the parts of a document.  Blanks are spaces and tabs; a line ends with
a line feed, with or without a carriage return before it; a comment runs from a number sign
to the end of its line and may hold no control character except the tab.

Every reader in this folder takes the rest of the document as a list of characters and gives
what it read together with what follows, or nothing if the text is malformed.
-/

namespace NativeBoundary.Toml

/-- A space or a tab. -/
def isBlank (c : Char) : Bool := c = ' ' || c = '\t'

/-- A character that a comment may hold: no control character except the tab. -/
def isCommentChar (c : Char) : Bool := c = '\t' || (' ' ≤ c && c ≤ '~') || '\x80' ≤ c

/-- The text without the blanks at its front. -/
def skipBlanks (cs : List Char) : List Char := cs.dropWhile isBlank

/-- What follows a line end or the end of the document. -/
def lineEnd? : List Char → Option (List Char)
  | [] => some []
  | '\n' :: rest => some rest
  | '\r' :: '\n' :: rest => some rest
  | _ => none

/-- What follows the text of a comment. -/
def skipComment (cs : List Char) : List Char := cs.dropWhile isCommentChar

/-- What follows the end of a line that has nothing but blanks and a comment left. -/
def restOfLine? (cs : List Char) : Option (List Char) :=
  match skipBlanks cs with
  | '#' :: rest => lineEnd? (skipComment rest)
  | rest => lineEnd? rest

/-- What follows the blanks, line ends and whole comments at the front of a text.  Inside a
comment, when the flag is set, the line must end before the text does. -/
def skipGap? : Bool → List Char → Option (List Char)
  | true, [] => none
  | true, '\n' :: rest => skipGap? false rest
  | true, '\r' :: '\n' :: rest => skipGap? false rest
  | true, c :: rest => if isCommentChar c then skipGap? true rest else none
  | false, [] => some []
  | false, '#' :: rest => skipGap? true rest
  | false, '\r' :: '\n' :: rest => skipGap? false rest
  | false, c :: rest =>
      if isBlank c || c = '\n' then skipGap? false rest
      else if c = '\r' then none
      else some (c :: rest)

end NativeBoundary.Toml

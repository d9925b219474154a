import NativeBoundary.Config.Settings

/-!
# Places and locations

A place is where something can stand in the file system: the names that lead to it, from the root
or from the working directory.  The working directory is an entry of the root whose name no path
can tell, so nothing below it is reached from the root.

A location is a path as it is written: the pieces of text between its slashes.  Pieces may be
empty, single dots or double dots; what they lead to is not decided here, except that the directory
above a location is found in its text alone.

* `Place.entry`, `Place.parent` — one name further, one directory back.
* `Location.ofText`, `Location.text` — reading and writing paths.
* `Location.above?` — the directory above a location, if there is one.
* `Location.check` — the paths that no file system takes.
-/

namespace NativeBoundary

/-- The name that a path below the working directory is shown with. -/
def topName : String := "<root>"

/-- The name of a configuration file. -/
def configFileName : String := "mpc-bridge.toml"

/-- Where a path starts. -/
inductive Origin
  | root
  | workingDirectory
deriving DecidableEq, Repr

/-- Where something can stand: the names that lead to it. -/
structure Place where
  origin : Origin
  names : List String
deriving DecidableEq, Repr

namespace Place

/-- The place under a name in a directory. -/
def entry (p : Place) (name : String) : Place := { p with names := p.names ++ [name] }

/-- The directory that a place is in.  The root is its own parent. -/
def parent (p : Place) : Place :=
  if p.names = [] then ⟨.root, []⟩ else { p with names := p.names.dropLast }

end Place

/-- A path as it is written. -/
structure Location where
  origin : Origin
  /-- The text between the slashes. -/
  pieces : List String
deriving DecidableEq, Repr

namespace Location

/-- The location that a path names: one that starts with a slash starts at the root, and any other
in the working directory. -/
def ofText (path : String) : Location :=
  if path.startsWith "/" then ⟨.root, (path.splitOn "/").drop 1⟩
  else ⟨.workingDirectory, path.splitOn "/"⟩

/-- The location of a place. -/
def ofPlace (p : Place) : Location := ⟨p.origin, p.names⟩

/-- The path as it is written. -/
def text (l : Location) : String :=
  match l.origin with
  | .root => "/" ++ "/".intercalate l.pieces
  | .workingDirectory => "/".intercalate (topName :: l.pieces)

/-- Whether a piece leads nowhere else: it is empty or a single dot. -/
def stays (piece : String) : Bool := piece = "" || piece = "."

/-- The piece that leads to the parent. -/
def up : String := ".."

/-- Whether a slash stands at the end. -/
def endsInSlash (l : Location) : Bool := l.pieces.getLast? = some ""

/-- The entry `name` of the directory at a location; a slash at the end is not written twice. -/
def entry (l : Location) (name : String) : Location :=
  { l with pieces := (if l.endsInSlash then l.pieces.dropLast else l.pieces) ++ [name] }

/-- The directory above: what stands before the last piece that leads somewhere, without the pieces
at its end that do not.  Nothing is above the root, and the root is above the working directory. -/
def above? (l : Location) : Option Location :=
  match l.pieces.reverse.dropWhile stays with
  | _ :: rest => some { l with pieces := (rest.dropWhile stays).reverse }
  | [] =>
      match l.origin with
      | .root => none
      | .workingDirectory => some ⟨.root, []⟩

/-- A bound on the number of directories above a location. -/
def height (l : Location) : Nat :=
  match l.origin with
  | .root => l.pieces.length
  | .workingDirectory => l.pieces.length + 1

/-- The number of bytes that a path may have. -/
def longestPath : Nat := 4095

/-- The number of bytes that a name may have. -/
def longestName : Nat := 255

/-- Refuses a path that has a zero byte in it or is too long, whatever is there. -/
def check (l : Location) : Except FileFault Unit :=
  if l.pieces.any fun piece => piece.toList.contains '\x00' then .error .zeroByte
  else if l.text.utf8ByteSize > longestPath then .error .nameTooLong
  else .ok ()

/-- The way up ends. -/
theorem height_above? {l up : Location} (h : l.above? = some up) : up.height < l.height := by
  unfold above? at h
  split at h
  · rename_i piece rest hrest
    cases h
    have hpieces : (l.pieces.reverse.dropWhile stays).length ≤ l.pieces.reverse.length :=
      (List.dropWhile_sublist stays).length_le
    have hshorter : (rest.dropWhile stays).length ≤ rest.length :=
      (List.dropWhile_sublist stays).length_le
    rw [hrest, List.length_cons, List.length_reverse] at hpieces
    unfold height
    cases l.origin <;> simp only [List.length_reverse] <;> omega
  · split at h
    · cases h
    · rename_i horigin
      cases h
      unfold height
      simp [horigin]

end Location

end NativeBoundary

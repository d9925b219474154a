import NativeBoundary.Config.Document
import NativeBoundary.Config.Location
import NativeBoundary.Data.Bytes
import NativeBoundary.Data.Table

/-!
# Configurations in files

A file tree maps places to directories and files.  A configuration is loaded from a file and saved
to one, and it is searched for from a directory upwards: the nearest directory that has a file of
the right name decides, whatever loading that file gives.

* `FileTree.walk` — what the pieces of a path lead to, one after the other.
* `FileTree.readText`, `FileTree.writeText` — the text of a file.
* `FileTree.load`, `FileTree.save` — one configuration and one file.
* `FileTree.configFile?` — the directory itself, then the one above it, and so on up to the root.
* `FileTree.search` — the configuration in the file that was found, or the default.
-/

namespace NativeBoundary

/-- What a file holds: text, or bytes that are no text. -/
inductive Content
  | text (s : String)
  | raw (bytes : Bytes)
deriving DecidableEq, Repr

/-- The content that some bytes make up. -/
def Content.ofBytes (bytes : Bytes) : Content :=
  match String.fromUTF8? ⟨bytes.toArray⟩ with
  | some s => .text s
  | none => .raw bytes

/-- What a path leads to. -/
inductive Node
  | directory
  | file (content : Content)
deriving DecidableEq, Repr

/-- Directories and files by their place. -/
structure FileTree where
  nodes : Table Place Node

namespace FileTree

/-- The tree that has nothing but its root and the working directory. -/
def empty : FileTree := ⟨.empty⟩

/-- What stands at a place. -/
def node? (t : FileTree) (p : Place) : Option Node :=
  if p.names = [] then some .directory else t.nodes.get? p

/-- The tree with `node` at a place. -/
def put (t : FileTree) (p : Place) (node : Node) : FileTree := ⟨t.nodes.insert p node⟩

/-- What one piece of a path leads to from the directory `here`. -/
def step (t : FileTree) (here : Place) (piece : String) : Except FileFault (Place × Node) :=
  if Location.stays piece then .ok (here, .directory)
  else if piece = Location.up then .ok (here.parent, .directory)
  else if piece.utf8ByteSize > Location.longestName then .error .nameTooLong
  else
    match t.node? (here.entry piece) with
    | none => .error .noSuchEntry
    | some node => .ok (here.entry piece, node)

/-- Walks the pieces of a path from the directory `here` and gives the place arrived at, with what
stands there.  Nothing leads on from a file. -/
def walk (t : FileTree) : Place → List String → Except FileFault (Place × Node)
  | here, [] => .ok (here, .directory)
  | here, piece :: rest =>
      match t.step here piece with
      | .error fault => .error fault
      | .ok (there, .directory) => t.walk there rest
      | .ok (there, .file content) =>
          if rest = [] then .ok (there, .file content) else .error .notDirectory

/-- What a location leads to. -/
def resolve (t : FileTree) (l : Location) : Except FileFault (Place × Node) := do
  l.check
  t.walk ⟨l.origin, []⟩ l.pieces

/-- Whether a location leads anywhere. -/
def hasLocation (t : FileTree) (l : Location) : Bool := (t.resolve l).isOk

/-- The text of the file at a location. -/
def readText (t : FileTree) (l : Location) : Except FileFault String := do
  match (← t.resolve l).2 with
  | .directory => .error .isDirectory
  | .file (.raw _) => .error .notText
  | .file (.text s) => .ok s

/-- The tree with `text` as the file `name` of the directory `here`, whether there is such a file
or not yet. -/
def writeEntry (t : FileTree) (here : Place) (name : String) (text : String) :
    Except FileFault FileTree :=
  match t.step here name with
  | .ok (_, .directory) => .error .isDirectory
  | .ok (_, .file _) | .error .noSuchEntry => .ok (t.put (here.entry name) (.file (.text text)))
  | .error fault => .error fault

/-- The tree with `text` as the file at a location.  Everything before its last piece has to be
there, and a slash at its end asks for a directory. -/
def writeText (t : FileTree) (l : Location) (text : String) : Except FileFault FileTree := do
  l.check
  match l.pieces.reverse.dropWhile (· = "") with
  | [] => .error .isDirectory
  | last :: before =>
      match ← t.walk ⟨l.origin, []⟩ before.reverse with
      | (_, .file _) => .error .notDirectory
      | (here, .directory) =>
          if l.endsInSlash then .error .isDirectory
          else t.writeEntry here last text

/-- The configuration in the file that a location leads to. -/
def readConfig (t : FileTree) (l : Location) : Except ConfigFault Config :=
  match t.readText l with
  | .error fault => .error (.file fault)
  | .ok text => Config.ofDocument text

/-- The configuration in the file at a location, if there is one. -/
def load (t : FileTree) (l : Location) : Except ConfigFault Config :=
  if t.hasLocation l then t.readConfig l else .error (.notFound l.text)

/-- The tree with a configuration saved in the file at a location. -/
def save (t : FileTree) (l : Location) (c : Config) : Except ConfigFault FileTree :=
  match c.document? with
  | none => .error (.file .numberTooLarge)
  | some text =>
      match t.writeText l text with
      | .error fault => .error (.file fault)
      | .ok t => .ok t

/-- The configuration file of the nearest directory, from `dir` upwards, that has one. -/
def configFile? (t : FileTree) (dir : Location) : Option Location :=
  let file := dir.entry configFileName
  if t.hasLocation file then some file
  else
    match _h : dir.above? with
    | some up => t.configFile? up
    | none => none
termination_by dir.height
decreasing_by exact Location.height_above? _h

/-- The configuration in the nearest configuration file, from `start` upwards; the default if there
is none. -/
def search (t : FileTree) (start : Location) : Except ConfigFault Config :=
  match t.configFile? start with
  | some file => t.load file
  | none => .ok default

end FileTree

end NativeBoundary

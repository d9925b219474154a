import NativeBoundary.Config.Files

/-!
# Steps on configuration files

Loading, saving and searching configurations in a file tree, one step after the other, and what
stands in the tree before the first step.
-/

namespace NativeBoundary.Scenario

/-- A step on configuration files. -/
inductive FileAction
  | load (path : String)
  /-- Searches from a directory upwards. -/
  | find (path : String)
  /-- Enters a directory and searches from there upwards. -/
  | enter (path : String)
  | save (path : String) (config : Config)
  | read (path : String)
deriving DecidableEq, Repr

/-- What a step on configuration files shows. -/
inductive FileAnswer
  | config (config : Config)
  | fault (fault : ConfigFault)
  | saved
  | text (content : Option String)
deriving DecidableEq, Repr

namespace FileAction

/-- The answer for a configuration or the reason why there is none. -/
def answer : Except ConfigFault Config → FileAnswer
  | .ok config => .config config
  | .error fault => .fault fault

/-- Searches from where a location leads. -/
def searchFrom (t : FileTree) (l : Location) : Except ConfigFault Config :=
  match t.resolve l with
  | .error fault => .error (.file fault)
  | .ok (_, .file _) => .error (.file .notDirectory)
  | .ok (here, .directory) => t.search (.ofPlace here)

/-- Runs a step on configuration files. -/
def run (t : FileTree) : FileAction → FileAnswer × FileTree
  | load path => (answer (t.load (.ofText path)), t)
  | find path => (answer (t.search (.ofText path)), t)
  | enter path => (answer (searchFrom t (.ofText path)), t)
  | save path config =>
      match t.save (.ofText path) config with
      | .ok t => (.saved, t)
      | .error fault => (.fault fault, t)
  | read path => (.text (t.readText (.ofText path)).toOption, t)

/-- Runs steps in their order. -/
def runAll (t : FileTree) : List FileAction → List FileAnswer
  | [] => []
  | action :: actions =>
      let (answer, t) := action.run t
      answer :: runAll t actions

end FileAction

/-- The tree with a directory wherever the pieces of a path lead from the directory `here`, and
the place arrived at. -/
def makeDirectories : FileTree → Place → List String → FileTree × Place
  | t, here, [] => (t, here)
  | t, here, piece :: rest =>
      if Location.stays piece then makeDirectories t here rest
      else if piece = Location.up then makeDirectories t here.parent rest
      else
        let there := here.entry piece
        makeDirectories (if (t.node? there).isNone then t.put there .directory else t) there rest

/-- The tree with a directory and those that lead to it. -/
def placeDirectory (t : FileTree) (path : String) : FileTree :=
  let l := Location.ofText path
  (makeDirectories t ⟨l.origin, []⟩ l.pieces).1

/-- The tree with a file and the directories that lead to it. -/
def placeFile (t : FileTree) (path : String) (content : Content) : FileTree :=
  let l := Location.ofText path
  let (t, here) := makeDirectories t ⟨l.origin, []⟩ l.pieces.dropLast
  t.put (here.entry (l.pieces.getLastD "")) (.file content)

/-- Saves a configuration in an empty directory and loads it again. -/
def reload (config : Config) : Except ConfigFault Config := do
  let file := Location.ofText configFileName
  let t ← FileTree.empty.save file config
  t.load file

end NativeBoundary.Scenario

import Mathlib.Data.List.Infix
import NativeBoundary.Config.Files

/-!
# Paths in a file tree

A path is followed piece by piece, and each piece looks at no more than the entry under it.  So
following a path depends only on what stands along it (`FileTree.walk_congr`), and a new entry is
noticed by no path that went through directories before, unless it replaces one of them
(`FileTree.walk_put`).

A path without double dots never leads back, so it leads to the place that its names tell
(`FileTree.walk_onward`).  What stands there is what loading gives (`FileTree.load_of_resolve`).
-/

namespace NativeBoundary

namespace Location

/-- A piece that is the name of an entry: it is not empty, and no single or double dot. -/
def isName (piece : String) : Bool := !stays piece && piece ≠ up

/-- The pieces that lead somewhere. -/
def named (pieces : List String) : List String := pieces.filter fun piece => !stays piece

/-- A path that never leads back. -/
def Onward (l : Location) : Prop := up ∉ l.pieces

instance (l : Location) : Decidable l.Onward := inferInstanceAs (Decidable (_ ∉ _))

/-- The place that a path without double dots is about. -/
def place (l : Location) : Place := ⟨l.origin, named l.pieces⟩

@[simp] theorem named_append (first second : List String) :
    named (first ++ second) = named first ++ named second := List.filter_append _ _

theorem named_cons_of_stays {piece : String} (h : stays piece = true) (rest : List String) :
    named (piece :: rest) = named rest := by
  simp [named, h]

theorem named_cons {piece : String} (h : stays piece = false) (rest : List String) :
    named (piece :: rest) = piece :: named rest := by
  simp [named, h]

/-- Pieces that lead nowhere have no names among them. -/
theorem named_eq_nil {pieces : List String} (h : ∀ piece ∈ pieces, stays piece = true) :
    named pieces = [] := by
  simpa [named] using h

end Location

/-- The configuration in what stands at a place. -/
def Node.config : Node → Except ConfigFault Config
  | .directory => .error (.file .isDirectory)
  | .file (.raw _) => .error (.file .notText)
  | .file (.text s) => Config.ofDocument s

namespace FileTree

variable {t t' : FileTree} {here there p : Place} {piece : String} {node : Node} {l : Location}

theorem node?_entry_put (t : FileTree) (p here : Place) (piece : String) (node : Node) :
    (t.put p node).node? (here.entry piece) =
      if here.entry piece = p then some node else t.node? (here.entry piece) := by
  have hnames : (here.entry piece).names ≠ [] := by simp [Place.entry]
  unfold node?
  rw [if_neg hnames, if_neg hnames]
  exact Table.get?_insert t.nodes p (here.entry piece) node

/-- A name leads to the entry under it. -/
theorem step_name (hstays : Location.stays piece = false) (hup : piece ≠ Location.up)
    (hs : t.step here piece = .ok (there, node)) :
    there = here.entry piece ∧ t.node? there = some node := by
  unfold step at hs
  rw [if_neg (by simp [hstays]), if_neg hup] at hs
  split at hs
  · cases hs
  · split at hs
    · cases hs
    · rename_i found hfound
      cases hs
      exact ⟨rfl, hfound⟩

theorem step_of_stays (hstays : Location.stays piece = true) :
    t.step here piece = .ok (here, .directory) := by
  unfold step
  rw [if_pos hstays]

/-- Where a piece leads depends on the entry under it. -/
theorem step_congr (hentry : t'.node? (here.entry piece) = t.node? (here.entry piece)) :
    t'.step here piece = t.step here piece := by
  unfold step
  rw [hentry]

/-- A new entry that replaces no directory is not on the way to one. -/
theorem step_put (hp : t.node? p ≠ some .directory)
    (hs : t.step here piece = .ok (there, .directory)) (node : Node) :
    (t.put p node).step here piece = .ok (there, .directory) := by
  by_cases hentry : here.entry piece = p
  · -- only a piece that leads to a directory without a look at the entries gets here
    unfold step at hs ⊢
    by_cases hstays : Location.stays piece = true
    · rw [if_pos hstays] at hs ⊢
      exact hs
    · by_cases hup : piece = Location.up
      · rw [if_neg hstays, if_pos hup] at hs ⊢
        exact hs
      · rw [if_neg hstays, if_neg hup] at hs
        split at hs
        · cases hs
        · split at hs
          · cases hs
          · rename_i found hfound
            cases hs
            rw [hentry] at hfound
            exact absurd hfound hp
  · rw [← hs]
    apply step_congr
    rw [node?_entry_put, if_neg hentry]

theorem walk_append {first : List String} (rest : List String)
    (hw : t.walk here first = .ok (there, .directory)) :
    t.walk here (first ++ rest) = t.walk there rest := by
  induction first generalizing here with
  | nil =>
      cases hw
      rfl
  | cons piece first ih =>
      rw [List.cons_append, walk]
      rw [walk] at hw
      split at hw
      · cases hw
      · exact ih hw
      · split at hw <;> cases hw

/-- Directories are still found when a new entry replaces none of them. -/
theorem walk_put {pieces : List String} (hp : t.node? p ≠ some .directory)
    (hw : t.walk here pieces = .ok (there, .directory)) (node : Node) :
    (t.put p node).walk here pieces = .ok (there, .directory) := by
  induction pieces generalizing here with
  | nil => exact hw
  | cons piece pieces ih =>
      rw [walk] at hw ⊢
      split at hw
      · cases hw
      · rename_i next hstep
        rw [step_put hp hstep node]
        exact ih hw
      · split at hw <;> cases hw

variable {pieces : List String}

/-- One piece of a path without double dots: the place has one name more, or is the same. -/
theorem step_onward (hup : piece ≠ Location.up) (hhere : t.node? here = some .directory)
    (hs : t.step here piece = .ok (there, node)) :
    there = ⟨here.origin, here.names ++ Location.named [piece]⟩ ∧ t.node? there = some node := by
  cases hstays : Location.stays piece with
  | true =>
      rw [step_of_stays hstays] at hs
      cases hs
      rw [Location.named_cons_of_stays hstays]
      exact ⟨by simp [Location.named], hhere⟩
  | false =>
      rw [Location.named_cons hstays]
      exact step_name hstays hup hs

/-- A path without double dots leads to the place that its names tell. -/
theorem walk_onward (hups : Location.up ∉ pieces) (hhere : t.node? here = some .directory)
    (hw : t.walk here pieces = .ok (there, node)) :
    there = ⟨here.origin, here.names ++ Location.named pieces⟩ ∧ t.node? there = some node := by
  induction pieces generalizing here with
  | nil =>
      cases hw
      exact ⟨by simp [Location.named], hhere⟩
  | cons piece pieces ih =>
      obtain ⟨hup, hrest⟩ : piece ≠ Location.up ∧ Location.up ∉ pieces := by
        simpa [eq_comm] using hups
      rw [walk] at hw
      split at hw
      · cases hw
      · rename_i next hstep
        obtain ⟨rfl, hnext⟩ := step_onward hup hhere hstep
        have hthere := ih hrest hnext hw
        rw [← List.singleton_append, Location.named_append, ← List.append_assoc]
        exact hthere
      · rename_i next content hstep
        split at hw
        · rename_i hnil
          cases hw
          rw [hnil]
          exact step_onward hup hhere hstep
        · cases hw

/-- Two trees with the same entries along a path without double dots lead to the same. -/
theorem walk_congr (hups : Location.up ∉ pieces) (hhere : t.node? here = some .directory)
    (hsame : ∀ front, front <+: Location.named pieces → front ≠ [] →
      t'.node? ⟨here.origin, here.names ++ front⟩ = t.node? ⟨here.origin, here.names ++ front⟩) :
    t'.walk here pieces = t.walk here pieces := by
  induction pieces generalizing here with
  | nil => rfl
  | cons piece pieces ih =>
      obtain ⟨hup, hrest⟩ : piece ≠ Location.up ∧ Location.up ∉ pieces := by
        simpa [eq_comm] using hups
      rw [← List.singleton_append, Location.named_append] at hsame
      have hstep : t'.step here piece = t.step here piece := by
        cases hstays : Location.stays piece with
        | true => rw [step_of_stays hstays, step_of_stays hstays]
        | false =>
            apply step_congr
            rw [Location.named_cons hstays] at hsame
            exact hsame [piece] (List.prefix_append _ _) (List.cons_ne_nil _ _)
      rw [walk, walk, hstep]
      cases hfirst : t.step here piece with
      | error fault => rfl
      | ok found =>
          obtain ⟨next, node⟩ := found
          obtain ⟨rfl, hnext⟩ := step_onward hup hhere hfirst
          cases node with
          | file content => rfl
          | directory =>
              apply ih hrest hnext
              intro front hfront hne
              have hlonger := hsame (Location.named [piece] ++ front)
                (List.prefix_append_right_inj _ |>.mpr hfront) (by simp [hne])
              rw [← List.append_assoc] at hlonger
              exact hlonger

theorem resolve_ok (h : t.resolve l = .ok (p, node)) :
    l.check = .ok () ∧ t.walk ⟨l.origin, []⟩ l.pieces = .ok (p, node) := by
  unfold resolve at h
  cases hcheck : l.check with
  | error fault =>
      rw [hcheck] at h
      cases h
  | ok _ =>
      rw [hcheck] at h
      exact ⟨rfl, h⟩

/-- Loading gives what stands at the location. -/
theorem load_of_resolve (h : t.resolve l = .ok (p, node)) : t.load l = node.config := by
  have hhas : t.hasLocation l = true := by
    unfold hasLocation
    rw [h]
    rfl
  have hread : t.readConfig l = node.config := by
    unfold readConfig readText
    rw [h]
    cases node with
    | directory => rfl
    | file content => cases content <;> rfl
  unfold load
  rw [if_pos hhas, hread]

end FileTree

end NativeBoundary

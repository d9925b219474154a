import Mathlib.Data.List.TakeWhile
import NativeBoundary.Proofs.Config.Paths

/-!
# The nearest configuration file

A search goes up from its start, one directory at a time, and stops at the first configuration
file.  `Location.Encloses` says which directories these are without a loop: the start itself, what
is left of its path before one of its names, and the root.  The way up meets each of them
(`Location.encloses_above_iff`), so the search stops at the nearest directory that has the file, if
there is one (`FileTree.search_nearest`).

A directory counts as having the file when anything stands under its name, be it another directory
or bytes that are no text.  Then the search ends with the fault that loading it gives.
-/

namespace NativeBoundary

namespace Location

variable {d e l above : Location} {piece : String} {pieces first last : List String}

/-- Pieces whose last one leads somewhere, if there is a last one. -/
def Trimmed (pieces : List String) : Prop := ∀ last ∈ pieces.getLast?, stays last = false

/-- `d` is `l` or a directory above it. -/
inductive Encloses : Location → Location → Prop
  | self (l : Location) : Encloses l l
  /-- The path up to one of its names, without pieces at its end that lead nowhere. -/
  | cut {d l : Location} (origin : d.origin = l.origin) (front : d.pieces <+: l.pieces)
      (trimmed : Trimmed d.pieces)
      (fewer : (named d.pieces).length < (named l.pieces).length) : Encloses d l
  | root {l : Location} (inside : l.origin = .workingDirectory) : Encloses ⟨.root, []⟩ l

theorem Encloses.trans (hde : Encloses d e) (hel : Encloses e l) : Encloses d l := by
  cases hel with
  | self => exact hde
  | cut origin front trimmed fewer =>
      cases hde with
      | self => exact .cut origin front trimmed fewer
      | cut origin' front' trimmed' fewer' =>
          exact .cut (origin'.trans origin) (front'.trans front) trimmed' (fewer'.trans fewer)
      | root inside => exact .root (origin ▸ inside)
  | root inside =>
      cases hde with
      | self => exact .root inside
      | cut origin' front' trimmed' fewer' => exact absurd fewer' (Nat.not_lt_zero _)
      | root inside' => cases inside'

theorem Encloses.antisymm (hde : Encloses d e) (hed : Encloses e d) : d = e := by
  cases hde with
  | self => rfl
  | cut origin front trimmed fewer =>
      cases hed with
      | self => rfl
      | cut origin' front' trimmed' fewer' => exact absurd fewer (Nat.lt_asymm fewer')
      | root inside =>
          rw [inside] at origin
          cases origin
  | root inside =>
      cases hed with
      | self => rfl
      | cut origin' front' trimmed' fewer' => exact absurd fewer' (Nat.not_lt_zero _)
      | root inside' => cases inside'

/-- A path without double dots has none in its enclosing directories. -/
theorem Encloses.onward (h : Encloses d l) (hl : l.Onward) : d.Onward := by
  cases h with
  | self => exact hl
  | cut origin front trimmed fewer => exact fun hup => hl (front.subset hup)
  | root inside => exact List.not_mem_nil

/-- Pieces at an end that lead nowhere are cut off. -/
theorem exists_trimmed (pieces : List String) :
    ∃ tail, pieces = (pieces.reverse.dropWhile stays).reverse ++ tail ∧
      (∀ piece ∈ tail, stays piece = true) ∧
      Trimmed (pieces.reverse.dropWhile stays).reverse := by
  refine ⟨(pieces.reverse.takeWhile stays).reverse, ?_, ?_, ?_⟩
  · rw [← List.reverse_append, List.takeWhile_append_dropWhile, List.reverse_reverse]
  · intro piece hpiece
    exact List.mem_takeWhile_imp (List.mem_reverse.mp hpiece)
  · intro last hlast
    rw [List.getLast?_reverse] at hlast
    have hhead := List.head?_dropWhile_not stays pieces.reverse
    rw [Option.mem_def.mp hlast] at hhead
    exact hhead

/-- What is trimmed ends before pieces that lead nowhere. -/
theorem prefix_of_trimmed (hfirst : Trimmed first) (hlast : ∀ piece ∈ last, stays piece = true)
    (h : first <+: pieces ++ last) : first <+: pieces := by
  induction last using List.reverseRecOn with
  | nil => simpa using h
  | append_singleton last piece ih =>
      rw [← List.append_assoc, List.prefix_concat_iff] at h
      rcases h with rfl | h
      · have hpiece := hfirst piece (by simp)
        rw [hlast piece (by simp)] at hpiece
        cases hpiece
      · exact ih (fun p hp => hlast p (List.mem_append_left _ hp)) h

/-- Of two trimmed paths, the shorter one has fewer names. -/
theorem eq_or_fewer_of_prefix (hpieces : Trimmed pieces) (h : first <+: pieces) :
    first = pieces ∨ (named first).length < (named pieces).length := by
  obtain ⟨rest, rfl⟩ := h
  induction rest using List.reverseRecOn with
  | nil => exact .inl (List.append_nil _).symm
  | append_singleton rest piece _ =>
      have hpiece : stays piece = false := hpieces piece (by simp)
      right
      rw [named_append, named_append, named_cons hpiece, List.length_append, List.length_append]
      simp [named]

/-- The directory above: the path before its last name, or the root when no name is left. -/
theorem above?_cases (h : l.above? = some above) :
    (above.origin = l.origin ∧ Trimmed above.pieces ∧
      ∃ between name tail, l.pieces = above.pieces ++ between ++ [name] ++ tail ∧
        (∀ piece ∈ between, stays piece = true) ∧ stays name = false ∧
        ∀ piece ∈ tail, stays piece = true) ∨
      (named l.pieces = [] ∧ l.origin = .workingDirectory ∧ above = ⟨.root, []⟩) := by
  obtain ⟨tail, hpieces, htail, htrimmed⟩ := exists_trimmed l.pieces
  unfold above? at h
  split at h
  · rename_i name rest hrest
    cases h
    rw [hrest, List.reverse_cons] at hpieces htrimmed
    obtain ⟨between, hbefore, hbetween, habove⟩ := exists_trimmed rest.reverse
    rw [List.reverse_reverse] at hbefore habove
    rw [hbefore] at hpieces
    exact .inl ⟨rfl, habove, between, name, tail, hpieces, hbetween, htrimmed name (by simp), htail⟩
  · rename_i hnone
    rw [hnone] at hpieces
    split at h
    · cases h
    · rename_i horigin
      cases h
      refine .inr ⟨?_, horigin, rfl⟩
      rw [hpieces, List.reverse_nil, List.nil_append]
      exact named_eq_nil htail

/-- Nothing is above the root. -/
theorem above?_eq_none (h : l.above? = none) : named l.pieces = [] ∧ l.origin = .root := by
  obtain ⟨tail, hpieces, htail, -⟩ := exists_trimmed l.pieces
  unfold above? at h
  split at h
  · cases h
  · rename_i hnone
    rw [hnone, List.reverse_nil, List.nil_append] at hpieces
    split at h
    · rename_i horigin
      refine ⟨?_, horigin⟩
      rw [hpieces]
      exact named_eq_nil htail
    · cases h

/-- One step up leaves out the last name. -/
theorem named_above (horigin : above.origin = l.origin) (h : l.above? = some above) :
    ∃ name, named l.pieces = named above.pieces ++ [name] := by
  rcases above?_cases h with ⟨-, -, between, name, tail, hpieces, hbetween, hname, htail⟩ | hroot
  · refine ⟨name, ?_⟩
    rw [hpieces]
    simp [named_eq_nil hbetween, named_eq_nil htail, named_cons hname]
  · obtain ⟨-, hinside, rfl⟩ := hroot
    rw [hinside] at horigin
    cases horigin

theorem encloses_above (h : l.above? = some above) : Encloses above l := by
  rcases above?_cases h with ⟨horigin, htrimmed, between, name, tail, hpieces, -, -, -⟩ | hroot
  · obtain ⟨_, hnames⟩ := named_above horigin h
    refine .cut horigin ?_ htrimmed ?_
    · rw [hpieces, List.append_assoc, List.append_assoc]
      exact List.prefix_append _ _
    · rw [hnames, List.length_append]
      exact Nat.lt_add_one _
  · obtain ⟨-, hinside, rfl⟩ := hroot
    exact .root hinside

/-- The way up meets every directory that encloses the start. -/
theorem encloses_above_iff (h : l.above? = some above) :
    Encloses d l ↔ d = l ∨ Encloses d above := by
  constructor
  · intro hd
    cases hd with
    | self => exact .inl rfl
    | cut origin front trimmed fewer =>
        right
        rcases above?_cases h with
          ⟨horigin, htrimmed, between, name, tail, hpieces, hbetween, hname, htail⟩ | hroot
        · obtain ⟨last, hnames⟩ := named_above horigin h
          rw [hpieces] at front
          have hfront : d.pieces <+: above.pieces ++ between := by
            rcases List.prefix_concat_iff.mp (prefix_of_trimmed trimmed htail front) with hd | hd
            · -- with the last name `d` has as many names as `l`
              rw [hd, hpieces, named_append _ tail, named_eq_nil htail, List.append_nil] at fewer
              exact absurd fewer (Nat.lt_irrefl _)
            · exact hd
          have hprefix := prefix_of_trimmed trimmed hbetween hfront
          have horigins := origin.trans horigin.symm
          rcases eq_or_fewer_of_prefix htrimmed hprefix with hsame | hfewer
          · have hd : d = above := by
              cases d
              cases above
              simp_all
            rw [hd]
            exact .self above
          · exact .cut horigins hprefix trimmed hfewer
        · rw [hroot.1] at fewer
          exact absurd fewer (Nat.not_lt_zero _)
    | root inside =>
        right
        rcases above?_cases h with ⟨horigin, -, -⟩ | hroot
        · exact .root (horigin.trans inside)
        · obtain ⟨-, -, rfl⟩ := hroot
          exact .self _
  · rintro (rfl | hd)
    · exact .self d
    · exact hd.trans (encloses_above h)

/-- The way up ends at the root. -/
theorem encloses_top_iff (h : l.above? = none) : Encloses d l ↔ d = l := by
  obtain ⟨hnames, horigin⟩ := above?_eq_none h
  constructor
  · intro hd
    cases hd with
    | self => rfl
    | cut origin front trimmed fewer =>
        rw [hnames] at fewer
        exact absurd fewer (Nat.not_lt_zero _)
    | root inside =>
        rw [horigin] at inside
        cases inside
  · rintro rfl
    exact .self d

/-- What holds at the root, and at a location when it holds above, holds everywhere. -/
theorem way_up {P : Location → Prop} (top : ∀ l, l.above? = none → P l)
    (step : ∀ l above, l.above? = some above → P above → P l) (l : Location) : P l := by
  cases h : l.above? with
  | none => exact top l h
  | some above => exact step l above h (way_up top step above)
termination_by l.height
decreasing_by exact height_above? h

/-- The places above a place are those of the enclosing directories. -/
theorem exists_encloses_of_prefix (l : Location) :
    ∀ front, front <+: named l.pieces → ∃ d, Encloses d l ∧ d.place = ⟨l.origin, front⟩ := by
  induction l using way_up with
  | top l hl =>
      intro front hfront
      rw [(above?_eq_none hl).1, List.prefix_nil] at hfront
      refine ⟨l, .self l, ?_⟩
      rw [place, (above?_eq_none hl).1, hfront]
  | step l above hl ih =>
      intro front hfront
      by_cases horigin : above.origin = l.origin
      · obtain ⟨name, hnames⟩ := named_above horigin hl
        rw [hnames, List.prefix_concat_iff] at hfront
        rcases hfront with rfl | hfront
        · refine ⟨l, .self l, ?_⟩
          rw [place, hnames]
        · obtain ⟨d, hd, hplace⟩ := ih front hfront
          exact ⟨d, (encloses_above_iff hl).mpr (.inr hd), by rw [hplace, horigin]⟩
      · rcases above?_cases hl with ⟨horigin', -⟩ | ⟨hnames, -, -⟩
        · exact absurd horigin' horigin
        · rw [hnames, List.prefix_nil] at hfront
          refine ⟨l, .self l, ?_⟩
          rw [place, hnames, hfront]

theorem named_entry (d : Location) :
    named (d.entry configFileName).pieces = named d.pieces ++ [configFileName] := by
  have hname : named [configFileName] = [configFileName] := by decide
  unfold entry
  rw [named_append, hname]
  split
  · rename_i hslash
    -- the slash at the end is an empty piece
    obtain ⟨front, hfront⟩ : ∃ front, d.pieces = front ++ [""] := by
      rw [endsInSlash, decide_eq_true_eq] at hslash
      exact ⟨_, (List.dropLast_append_getLast? _ hslash).symm⟩
    rw [hfront, List.dropLast_concat, named_append, named_cons_of_stays (by decide)]
    simp [named]
  · rfl

theorem place_entry (d : Location) :
    (d.entry configFileName).place = d.place.entry configFileName := by
  simp only [place, Place.entry, named_entry]
  rfl

theorem onward_entry (h : d.Onward) : (d.entry configFileName).Onward := by
  have hname : up ≠ configFileName := by decide
  unfold entry Onward
  intro hup
  rcases List.mem_append.mp hup with hfront | hlast
  · split at hfront
    · exact h (List.mem_of_mem_dropLast hfront)
    · exact h hfront
  · exact hname (List.mem_singleton.mp hlast)

end Location

namespace FileTree

variable {t t' : FileTree} {l start d e file : Location} {p : Place} {node : Node}

theorem exists_of_hasLocation (h : t.hasLocation l = true) :
    ∃ p node, t.resolve l = .ok (p, node) := by
  unfold hasLocation at h
  cases hr : t.resolve l with
  | error fault =>
      rw [hr] at h
      cases h
  | ok found => exact ⟨found.1, found.2, rfl⟩

/-- A location without double dots that leads anywhere leads to its place. -/
theorem load_onward (honward : l.Onward) (h : t.hasLocation l = true) :
    ∃ node, t.node? l.place = some node ∧ t.load l = node.config := by
  obtain ⟨p, node, hr⟩ := exists_of_hasLocation h
  have hroot : t.node? ⟨l.origin, []⟩ = some .directory := by
    unfold node?
    rw [if_pos rfl]
  obtain ⟨rfl, hnode⟩ := walk_onward honward hroot (resolve_ok hr).2
  exact ⟨node, hnode, load_of_resolve hr⟩

/-- A location without double dots is resolved alike in trees with the same entries along it. -/
theorem resolve_congr (honward : l.Onward)
    (hsame : ∀ front, front <+: Location.named l.pieces → front ≠ [] →
      t'.node? ⟨l.origin, front⟩ = t.node? ⟨l.origin, front⟩) :
    t'.resolve l = t.resolve l := by
  have hroot : t.node? ⟨l.origin, []⟩ = some .directory := by
    unfold node?
    rw [if_pos rfl]
  unfold resolve
  rw [walk_congr honward hroot hsame]

theorem load_congr (h : t'.resolve l = t.resolve l) : t'.load l = t.load l := by
  unfold load hasLocation readConfig readText
  rw [h]

/-- `d` is the nearest directory, from `start` upwards, that has a configuration file. -/
structure Nearest (t : FileTree) (start d : Location) : Prop where
  encloses : d.Encloses start
  found : t.hasLocation (d.entry configFileName) = true
  /-- Every other one is further up. -/
  nearest : ∀ e : Location, e.Encloses start → t.hasLocation (e.entry configFileName) = true →
    e.Encloses d

/-- The trees have the same directories from `start` upwards, and the same configuration files in
them. -/
def AgreesAlong (t : FileTree) (start : Location) (t' : FileTree) : Prop :=
  ∀ d : Location, d.Encloses start → t'.node? d.place = t.node? d.place ∧
    t'.node? (d.place.entry configFileName) = t.node? (d.place.entry configFileName)

theorem Nearest.unique (hd : t.Nearest start d) (he : t.Nearest start e) : d = e :=
  (he.nearest d hd.encloses hd.found).antisymm (hd.nearest e he.encloses he.found)

/-- The search stops at the nearest directory that has the file. -/
theorem nearest_of_configFile? (t : FileTree) (start : Location) :
    ∀ file, t.configFile? start = some file →
      ∃ d, t.Nearest start d ∧ file = d.entry configFileName := by
  induction start using Location.way_up with
  | top l hl =>
      intro file hfile
      rw [configFile?] at hfile
      split at hfile
      · rename_i hfound
        cases hfile
        refine ⟨l, ⟨.self l, hfound, ?_⟩, rfl⟩
        intro e he _
        exact he
      · split at hfile
        · rename_i above habove
          rw [hl] at habove
          cases habove
        · cases hfile
  | step l above hl ih =>
      intro file hfile
      rw [configFile?] at hfile
      split at hfile
      · rename_i hfound
        cases hfile
        refine ⟨l, ⟨.self l, hfound, ?_⟩, rfl⟩
        intro e he _
        exact he
      · rename_i hmissing
        split at hfile
        · rename_i above' habove
          rw [hl] at habove
          cases habove
          obtain ⟨d, hd, rfl⟩ := ih file hfile
          refine ⟨d, ⟨(Location.encloses_above_iff hl).mpr (.inr hd.encloses), hd.found, ?_⟩, rfl⟩
          intro e he hfound
          rcases (Location.encloses_above_iff hl).mp he with rfl | he
          · exact absurd hfound hmissing
          · exact hd.nearest e he hfound
        · cases hfile

/-- The search goes past directories that do not have the file, and past no other. -/
theorem configFile?_eq_none_iff (t : FileTree) (start : Location) :
    t.configFile? start = none ↔
      ∀ d : Location, d.Encloses start → t.hasLocation (d.entry configFileName) = false := by
  induction start using Location.way_up with
  | top l hl =>
      rw [configFile?]
      simp only [Location.encloses_top_iff hl, forall_eq]
      split
      · rename_i hfound
        simp [hfound]
      · rename_i hmissing
        split
        · rename_i above habove
          rw [hl] at habove
          cases habove
        · simpa using hmissing
  | step l above hl ih =>
      rw [configFile?]
      simp only [Location.encloses_above_iff hl, forall_eq_or_imp]
      split
      · rename_i hfound
        simp [hfound]
      · rename_i hmissing
        split
        · rename_i above' habove
          rw [hl] at habove
          cases habove
          rw [ih]
          simp [hmissing]
        · rename_i habove
          rw [hl] at habove
          cases habove

theorem configFile?_eq_some_iff (t : FileTree) (start file : Location) :
    t.configFile? start = some file ↔
      ∃ d, t.Nearest start d ∧ file = d.entry configFileName := by
  constructor
  · exact nearest_of_configFile? t start file
  · rintro ⟨d, hd, rfl⟩
    cases hc : t.configFile? start with
    | none =>
        have hmissing := (configFile?_eq_none_iff t start).mp hc d hd.encloses
        rw [hd.found] at hmissing
        cases hmissing
    | some file =>
        obtain ⟨e, he, rfl⟩ := nearest_of_configFile? t start file hc
        rw [hd.unique he]

theorem search_of_nearest (h : t.Nearest start d) :
    t.search start = t.load (d.entry configFileName) := by
  unfold search
  rw [(configFile?_eq_some_iff t start _).mpr ⟨d, h, rfl⟩]

theorem search_of_none
    (h : ∀ d : Location, d.Encloses start → t.hasLocation (d.entry configFileName) = false) :
    t.search start = .ok default := by
  unfold search
  rw [(configFile?_eq_none_iff t start).mpr h]

/-- Trees that agree along the way up have the same configuration files on it. -/
theorem resolve_entry_congr (honward : start.Onward) (hsame : t.AgreesAlong start t')
    (hd : d.Encloses start) :
    t'.resolve (d.entry configFileName) = t.resolve (d.entry configFileName) := by
  apply resolve_congr (Location.onward_entry (hd.onward honward))
  intro front hfront _
  rw [Location.named_entry, List.prefix_concat_iff] at hfront
  rcases hfront with rfl | hfront
  · exact (hsame d hd).2
  · obtain ⟨e, he, hplace⟩ := Location.exists_encloses_of_prefix d front hfront
    have hnode := (hsame e (he.trans hd)).1
    rw [hplace] at hnode
    exact hnode

theorem search_congr (honward : start.Onward) (hsame : t.AgreesAlong start t') :
    t'.search start = t.search start := by
  have hhas : ∀ d : Location, d.Encloses start →
      t'.hasLocation (d.entry configFileName) = t.hasLocation (d.entry configFileName) := by
    intro d hd
    unfold hasLocation
    rw [resolve_entry_congr honward hsame hd]
  cases hc : t.configFile? start with
  | none =>
      have hnone := (configFile?_eq_none_iff t start).mp hc
      rw [search_of_none hnone]
      apply search_of_none
      intro d hd
      rw [hhas d hd]
      exact hnone d hd
  | some file =>
      obtain ⟨d, hd, -⟩ := nearest_of_configFile? t start file hc
      have hd' : t'.Nearest start d := by
        refine ⟨hd.encloses, ?_, ?_⟩
        · rw [hhas d hd.encloses]
          exact hd.found
        · intro e he hfound
          rw [hhas e he] at hfound
          exact hd.nearest e he hfound
      rw [search_of_nearest hd', search_of_nearest hd]
      exact load_congr (resolve_entry_congr honward hsame hd.encloses)

/-- A search from a directory whose path has no double dots finds the nearest configuration file
and gives whatever loading it gives; it gives the default when no directory up to the root has one.
Nothing else in the tree makes a difference. -/
theorem search_nearest (t : FileTree) {start : Location} (honward : start.Onward) :
    (∀ file, t.configFile? start = some file ↔
      ∃ d, t.Nearest start d ∧ file = d.entry configFileName) ∧
    (t.configFile? start = none ↔
      ∀ d : Location, d.Encloses start → t.hasLocation (d.entry configFileName) = false) ∧
    (∀ d, t.Nearest start d → t.search start = t.load (d.entry configFileName) ∧
      ∃ node, t.node? (d.place.entry configFileName) = some node ∧ t.search start = node.config) ∧
    ((∀ d : Location, d.Encloses start → t.hasLocation (d.entry configFileName) = false) →
      t.search start = .ok default) ∧
    (∀ t' : FileTree, t.AgreesAlong start t' → t'.search start = t.search start) := by
  refine ⟨configFile?_eq_some_iff t start, configFile?_eq_none_iff t start, ?_, search_of_none,
    fun t' => search_congr honward⟩
  intro d hd
  rw [search_of_nearest hd]
  refine ⟨rfl, ?_⟩
  obtain ⟨node, hnode, hload⟩ := load_onward
    (Location.onward_entry (hd.encloses.onward honward)) hd.found
  rw [Location.place_entry] at hnode
  exact ⟨node, hnode, hload⟩

/-- Bytes that are no text in `/a`, and a configuration file in the root. -/
def shadowing : FileTree :=
  (((empty.put ⟨.root, [configFileName]⟩ (.file (.text ""))).put ⟨.root, ["a"]⟩ .directory).put
    ⟨.root, ["a", "b"]⟩ .directory).put ⟨.root, ["a", configFileName]⟩ (.file (.raw [0xff]))

/-- A file that cannot be read hides the one further up. -/
theorem search_shadowing :
    (⟨.root, ["a", "b", ""]⟩ : Location).Onward ∧
    shadowing.configFile? ⟨.root, ["a", "b", ""]⟩ = some ⟨.root, ["a", configFileName]⟩ ∧
    shadowing.search ⟨.root, ["a", "b", ""]⟩ = .error (.file .notText) := by
  have honward : (⟨.root, ["a", "b", ""]⟩ : Location).Onward := by decide
  have habove : (⟨.root, ["a", "b", ""]⟩ : Location).above? = some ⟨.root, ["a"]⟩ := by decide
  have hnearest : shadowing.Nearest ⟨.root, ["a", "b", ""]⟩ ⟨.root, ["a"]⟩ := by
    refine ⟨Location.encloses_above habove, by decide +kernel, ?_⟩
    intro e he hfound
    rcases (Location.encloses_above_iff habove).mp he with rfl | he
    · exact absurd hfound (by decide +kernel)
    · exact he
  obtain ⟨hfile, -, hload, -⟩ := search_nearest shadowing honward
  refine ⟨honward, (hfile _).mpr ⟨_, hnearest, by decide⟩, ?_⟩
  rw [(hload _ hnearest).1]
  decide +kernel

end FileTree

end NativeBoundary

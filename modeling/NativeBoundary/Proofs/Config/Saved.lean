import NativeBoundary.Proofs.Config.Overlay
import NativeBoundary.Proofs.Config.Paths
import NativeBoundary.Scenario.Files

/-!
# Saving and loading

The document that names all settings of a configuration is read back as that configuration
(`Config.ofDocument_document?`): it is made of plain lines, and each setting is found where it was
put.  A file that can be written holds the document from then on, because writing it changes
nothing on the way to it (`FileTree.resolve_saved`).  So a saved configuration is loaded again
(`Scenario.FileAction.load_after_save`), unless it breaks a rule, which only loading looks at.

A number of `2⁶³` or more is found before the file is touched.
-/

namespace NativeBoundary

open Toml

namespace Config

namespace Overrides

/-- The lines that name these settings and no others. -/
def lines (o : Overrides) : List Line :=
  .header "strategy" :: (o.forceOwned.toList.map fun b => .entry "force_owned" (.boolean b)) ++
  .blank :: .header "pool" :: (o.enabled.toList.map (fun b => .entry "enabled" (.boolean b)) ++
    o.blocks.toList.map (fun n => .entry "blocks" (.number n)) ++
    o.blockSize.toList.map fun n => .entry "block_size" (.number n)) ++
  .blank :: .header "zeroize" ::
    o.publicBuffers.toList.map fun b => .entry "public_buffers" (.boolean b)

/-- The tables that these lines make up. -/
def tables (o : Overrides) : Entries :=
  [("strategy", .table .header (o.forceOwned.toList.map fun b => ("force_owned", .boolean b))),
    ("pool", .table .header (o.enabled.toList.map (fun b => ("enabled", .boolean b)) ++
      o.blocks.toList.map (fun n => ("blocks", counted n)) ++
      o.blockSize.toList.map fun n => ("block_size", counted n))),
    ("zeroize", .table .header (o.publicBuffers.toList.map fun b =>
      ("public_buffers", .boolean b)))]

/-- A document holds numbers below `2⁶³`. -/
structure Fits (o : Overrides) : Prop where
  blocks : ∀ n ∈ o.blocks, n < 0x8000000000000000
  blockSize : ∀ n ∈ o.blockSize, n < 0x8000000000000000

theorem enterAll_lines (o : Overrides) : enterAll o.lines = some o.tables := by
  obtain ⟨force, enabled, blocks, size, wipe⟩ := o
  cases force <;> cases enabled <;> cases blocks <;> cases size <;> cases wipe <;> rfl

theorem givenBy_tables (o : Overrides) : o.GivenBy o.tables := by
  obtain ⟨force, enabled, blocks, size, wipe⟩ := o
  refine ⟨⟨_, rfl, ?_⟩, ⟨_, rfl, ?_, ?_, ?_⟩, ⟨_, rfl, ?_⟩⟩
  · cases force <;> rfl
  · cases enabled <;> cases blocks <;> cases size <;> rfl
  · cases enabled <;> cases blocks <;> cases size <;> rfl
  · cases enabled <;> cases blocks <;> cases size <;> rfl
  · cases wipe <;> rfl

theorem plain_lines {o : Overrides} (h : o.Fits) : ∀ line ∈ o.lines, line.Plain := by
  have hkeys : IsBare "strategy" ∧ IsBare "force_owned" ∧ IsBare "pool" ∧ IsBare "enabled" ∧
      IsBare "blocks" ∧ IsBare "block_size" ∧ IsBare "zeroize" ∧ IsBare "public_buffers" := by
    decide
  obtain ⟨hstrategy, hforce, hpool, henabled, hblocks, hsize, hzeroize, hpublic⟩ := hkeys
  intro line hline
  simp only [lines, List.cons_append, List.mem_cons, List.mem_append, List.mem_map,
    Option.mem_toList] at hline
  rcases hline with rfl | (⟨b, -, rfl⟩ | rfl | rfl | (⟨b, -, rfl⟩ | ⟨n, hn, rfl⟩) | ⟨n, hn, rfl⟩) |
    rfl | rfl | ⟨b, -, rfl⟩
  · exact hstrategy
  · exact ⟨hforce, trivial⟩
  · exact trivial
  · exact hpool
  · exact ⟨henabled, trivial⟩
  · exact ⟨hblocks, h.blocks n hn⟩
  · exact ⟨hsize, h.blockSize n hn⟩
  · exact trivial
  · exact hzeroize
  · exact ⟨hpublic, trivial⟩

/-- Every choice of settings is given by a document. -/
theorem parse?_lines {o : Overrides} (h : o.Fits) : parse? (textOf o.lines) = some o.tables :=
  (parse?_text (plain_lines h)).trans (enterAll_lines o)

end Overrides

/-- All settings of a configuration. -/
def settings (c : Config) : Overrides where
  forceOwned := some c.strategy.forceOwned
  enabled := some c.pool.enabled
  blocks := some c.pool.blocks
  blockSize := some c.pool.blockSize
  publicBuffers := some c.zeroize.publicBuffers

variable {c : Config} {text : String}

theorem fits_settings (hblocks : c.pool.blocks < 0x8000000000000000)
    (hsize : c.pool.blockSize < 0x8000000000000000) : c.settings.Fits := by
  constructor
  · rintro n ⟨rfl⟩
    exact hblocks
  · rintro n ⟨rfl⟩
    exact hsize

/-- The document of a configuration names all of its settings. -/
theorem document?_eq (hblocks : c.pool.blocks < 0x8000000000000000)
    (hsize : c.pool.blockSize < 0x8000000000000000) :
    c.document? = some (textOf c.settings.lines) := by
  have hfits : (fitsDocument c.pool.blocks && fitsDocument c.pool.blockSize) = true := by
    simp [fitsDocument, hblocks, hsize]
  unfold document?
  rw [if_pos hfits]
  apply congrArg some
  apply String.toList_injective
  simp [textOf, settings, Overrides.lines, Line.text, Scalar.text]

theorem document?_eq_none
    (h : 0x8000000000000000 ≤ c.pool.blocks ∨ 0x8000000000000000 ≤ c.pool.blockSize) :
    c.document? = none := by
  have hfits : ¬ (fitsDocument c.pool.blocks && fitsDocument c.pool.blockSize) = true := by
    simp only [fitsDocument, Bool.and_eq_true, decide_eq_true_eq]
    omega
  unfold document?
  rw [if_neg hfits]

/-- A document that was written is read back as the configuration that it was written for. -/
theorem ofDocument_document? (hblocks : c.pool.blocks < 0x8000000000000000)
    (hsize : c.pool.blockSize < 0x8000000000000000) :
    ofDocument (textOf c.settings.lines) = c.validate.map fun _ => c := by
  have hparse := Overrides.parse?_lines (fits_settings hblocks hsize)
  have hread := ofEntries?_of_givenBy (Overrides.givenBy_tables c.settings)
  exact ofDocument_eq hparse hread

end Config

namespace FileTree

variable {t : FileTree} {l : Location} {here : Place} {before : List String} {last : String}

/-- `last` can be written as a file in the directory `here`, and `l` leads there: its pieces before
the last one lead to `here`, and no directory stands under the last one. -/
structure WritableAt (t : FileTree) (l : Location) (here : Place) (before : List String)
    (last : String) : Prop where
  checked : l.check = .ok ()
  pieces : l.pieces = before ++ [last]
  name : Location.isName last = true
  short : last.utf8ByteSize ≤ Location.longestName
  inside : t.walk ⟨l.origin, []⟩ before = .ok (here, .directory)
  free : t.node? (here.entry last) ≠ some .directory

/-- A file at `l` can be written. -/
def Writable (t : FileTree) (l : Location) : Prop :=
  ∃ here before last, t.WritableAt l here before last

/-- A name leads to the entry under it, or to nothing. -/
theorem step_isName (hname : Location.isName last = true)
    (hshort : last.utf8ByteSize ≤ Location.longestName) (t : FileTree) (here : Place) :
    t.step here last =
      match t.node? (here.entry last) with
      | none => .error .noSuchEntry
      | some node => .ok (here.entry last, node) := by
  obtain ⟨hstays, hup⟩ : Location.stays last = false ∧ last ≠ Location.up := by
    simpa [Location.isName] using hname
  have hshort' : ¬ Location.longestName < last.utf8ByteSize := by omega
  have hstays' : ¬ Location.stays last = true := by simp [hstays]
  refine (if_neg hstays').trans ((if_neg hup).trans ((if_neg hshort').trans ?_))
  cases t.node? (here.entry last) <;> rfl

theorem ne_empty_of_isName (h : Location.isName last = true) : last ≠ "" := by
  rintro rfl
  exact absurd h (by decide)

/-- Writing puts the text where the location leads. -/
theorem writeText_of_writableAt (h : t.WritableAt l here before last) (text : String) :
    t.writeText l text = .ok (t.put (here.entry last) (.file (.text text))) := by
  have hempty := ne_empty_of_isName h.name
  have hslash : l.endsInSlash = false := by
    rw [Location.endsInSlash, h.pieces]
    simp [hempty]
  have hpieces : l.pieces.reverse.dropWhile (· = "") = last :: before.reverse := by
    rw [h.pieces]
    simp [hempty]
  have hentry : t.writeEntry here last text =
      .ok (t.put (here.entry last) (.file (.text text))) := by
    unfold writeEntry
    rw [step_isName h.name h.short]
    cases hnode : t.node? (here.entry last) with
    | none => rfl
    | some node =>
        cases node with
        | directory => exact absurd hnode h.free
        | file content => rfl
  unfold writeText
  rw [h.checked, hpieces]
  simp only [List.reverse_reverse, h.inside, hslash]
  exact hentry

/-- What was written is what the location leads to. -/
theorem resolve_saved (h : t.WritableAt l here before last) (text : String) :
    (t.put (here.entry last) (.file (.text text))).resolve l =
      .ok (here.entry last, .file (.text text)) := by
  have hwalk := walk_put h.free h.inside (.file (.text text))
  have hnode : (t.put (here.entry last) (.file (.text text))).node? (here.entry last) =
      some (.file (.text text)) := by
    rw [node?_entry_put, if_pos rfl]
  unfold resolve
  rw [h.checked, h.pieces]
  change walk _ _ _ = _
  rw [walk_append [last] hwalk, walk, step_isName h.name h.short, hnode]
  rfl

/-- What is written is a name that no directory has. -/
theorem writeEntry_ok {text : String} {t' : FileTree} (h : t.writeEntry here last text = .ok t') :
    Location.isName last = true ∧ last.utf8ByteSize ≤ Location.longestName ∧
      t.node? (here.entry last) ≠ some .directory := by
  unfold writeEntry step at h
  by_cases hstays : Location.stays last = true
  · rw [if_pos hstays] at h
    cases h
  · by_cases hup : last = Location.up
    · rw [if_neg hstays, if_pos hup] at h
      cases h
    · by_cases hlong : last.utf8ByteSize > Location.longestName
      · rw [if_neg hstays, if_neg hup, if_pos hlong] at h
        cases h
      · rw [if_neg hstays, if_neg hup, if_neg hlong] at h
        refine ⟨by simp [Location.isName, hstays, hup], by omega, ?_⟩
        intro hnode
        rw [hnode] at h
        cases h

theorem pieces_of_noSlash (hslash : l.endsInSlash = false)
    (h : l.pieces.reverse.dropWhile (· = "") = last :: before) :
    l.pieces = before.reverse ++ [last] := by
  cases hpieces : l.pieces.reverse with
  | nil =>
      rw [hpieces] at h
      cases h
  | cons piece front =>
      have hlast : piece ≠ "" := by
        rintro rfl
        have hend : l.pieces.getLast? = some "" := by
          rw [← List.head?_reverse, hpieces]
          rfl
        simp [Location.endsInSlash, hend] at hslash
      rw [hpieces, List.dropWhile_cons_of_neg (by simpa using hlast)] at h
      cases h
      rw [← List.reverse_reverse l.pieces, hpieces, List.reverse_cons]

/-- Nothing else can be written. -/
theorem writable_iff (t : FileTree) (l : Location) (text : String) :
    t.Writable l ↔ ∃ t', t.writeText l text = .ok t' := by
  constructor
  · rintro ⟨here, before, last, h⟩
    exact ⟨_, writeText_of_writableAt h text⟩
  · rintro ⟨t', h⟩
    unfold writeText at h
    cases hcheck : l.check with
    | error fault =>
        rw [hcheck] at h
        cases h
    | ok _ =>
        rw [hcheck] at h
        split at h
        · cases h
        · rename_i last before hpieces
          cases hwalk : t.walk ⟨l.origin, []⟩ before.reverse with
          | error fault =>
              rw [hwalk] at h
              cases h
          | ok found =>
              obtain ⟨here, node⟩ := found
              rw [hwalk] at h
              cases node with
              | file content => cases h
              | directory =>
                  cases hslash : l.endsInSlash with
                  | true =>
                      rw [hslash] at h
                      cases h
                  | false =>
                      rw [hslash] at h
                      obtain ⟨hname, hshort, hfree⟩ := writeEntry_ok h
                      exact ⟨here, before.reverse, last, hcheck,
                        pieces_of_noSlash hslash hpieces, hname, hshort, hwalk, hfree⟩

end FileTree

namespace Scenario.FileAction

/-- A configuration with a number that no document holds is not saved, and the files stay as they
are.  Any other one is saved wherever a file can be written, and loading that file gives the
configuration again, or the rule that it breaks. -/
theorem load_after_save {t : FileTree} {path : String} (hpath : t.Writable (.ofText path))
    (c : Config) :
    (0x8000000000000000 ≤ c.pool.blocks ∨ 0x8000000000000000 ≤ c.pool.blockSize →
      (save path c).run t = (.fault (.file .numberTooLarge), t)) ∧
    (c.pool.blocks < 0x8000000000000000 → c.pool.blockSize < 0x8000000000000000 →
      ∃ t', (save path c).run t = (.saved, t') ∧
        ((c.validate = .ok () ∧ (load path).run t' = (.config c, t')) ∨
          ∃ rule, c.validate = .error (.invalid rule) ∧
            (load path).run t' = (.fault (.invalid rule), t'))) := by
  constructor
  · intro hlarge
    simp only [run, FileTree.save, Config.document?_eq_none hlarge]
  · intro hblocks hsize
    obtain ⟨here, before, last, hwrite⟩ := hpath
    have hsave := FileTree.writeText_of_writableAt hwrite (textOf c.settings.lines)
    have hload := FileTree.load_of_resolve
      (FileTree.resolve_saved hwrite (textOf c.settings.lines))
    rw [Node.config, Config.ofDocument_document? hblocks hsize] at hload
    refine ⟨t.put (here.entry last) (.file (.text (textOf c.settings.lines))), ?_, ?_⟩
    · simp only [run, FileTree.save, Config.document?_eq hblocks hsize, hsave]
    · simp only [run, hload]
      rcases Config.validate_cases c with hvalid | ⟨rule, hbroken⟩
      · left
        refine ⟨hvalid, ?_⟩
        rw [hvalid]
        rfl
      · right
        refine ⟨rule, hbroken, ?_⟩
        rw [hbroken]
        rfl

/-- A configuration that differs from the default in each group. -/
def copyingConfig : Config where
  strategy := { forceOwned := true }
  pool := { enabled := true, blocks := 3, blockSize := 4096 }
  zeroize := { publicBuffers := true }

theorem load_copyingConfig :
    FileTree.empty.Writable (.ofText "a") ∧
    ∃ t', (save "a" copyingConfig).run .empty = (.saved, t') ∧
      (load "a").run t' = (.config copyingConfig, t') := by
  have hsplit : "a".splitOn "/" = ["a"] := by
    unfold String.splitOn
    rw [if_neg (by decide), String.splitOnAux, if_neg (by decide), if_neg (by decide),
      String.splitOnAux, if_pos (by decide)]
    decide
  have hplace : Location.ofText "a" = ⟨.workingDirectory, ["a"]⟩ := by
    unfold Location.ofText
    rw [if_neg (by decide +kernel), hsplit]
  have hpath : FileTree.empty.Writable (.ofText "a") := by
    rw [hplace]
    refine ⟨⟨.workingDirectory, []⟩, [], "a", ?_, rfl, ?_, ?_, rfl, ?_⟩
    all_goals decide +kernel
  refine ⟨hpath, ?_⟩
  obtain ⟨t', hsave, ⟨-, hload⟩ | ⟨rule, hrule, -⟩⟩ :=
    (load_after_save hpath copyingConfig).2 (by decide) (by decide)
  · exact ⟨t', hsave, hload⟩
  · cases hrule

end Scenario.FileAction

end NativeBoundary

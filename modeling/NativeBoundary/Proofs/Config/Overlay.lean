import NativeBoundary.Proofs.Toml.Lines
import NativeBoundary.Config.Document

/-!
# Documents that give some of the settings

A setting has its default in two places: in the group that stands for an absent table, and in the
reading of a table that does not name it.  They agree, so a document that gives any of the settings
gives the configuration with these settings over the default one
(`Config.ofEntries?_of_givenBy`), and an empty table is as good as an absent one
(`Config.ofEntries?_emptied`).  The configuration is judged as a whole: a setting that the document
gives may break a rule together with a default (`Config.ofDocument_overlay`).
-/

namespace NativeBoundary

open Toml

namespace Config

/-- Some of the settings. -/
structure Overrides where
  forceOwned : Option Bool := none
  enabled : Option Bool := none
  blocks : Option Nat := none
  blockSize : Option Nat := none
  publicBuffers : Option Bool := none
deriving DecidableEq

/-- The entries under a group's key; an absent table is as good as an empty one. -/
def settingsOf? (entries : Entries) (group : String) : Option Entries :=
  match entries.get? group with
  | none => some []
  | some (.table _ settings) => some settings
  | some _ => none

/-- The value that a count is given as. -/
def counted (n : Nat) : Value := .integer n

/-- The groups of settings. -/
def groups : List String := ["strategy", "pool", "zeroize"]

namespace Overrides

/-- A configuration in which these settings replace those of `c`. -/
def onto (o : Overrides) (c : Config) : Config where
  strategy := { forceOwned := o.forceOwned.getD c.strategy.forceOwned }
  pool :=
    { enabled := o.enabled.getD c.pool.enabled
      blocks := o.blocks.getD c.pool.blocks
      blockSize := o.blockSize.getD c.pool.blockSize }
  zeroize := { publicBuffers := o.publicBuffers.getD c.zeroize.publicBuffers }

/-- The entries of a document give these settings and no others.  Each group is a table or absent;
whatever else the document or one of the tables has makes no difference. -/
structure GivenBy (o : Overrides) (entries : Entries) : Prop where
  strategy : ∃ settings, settingsOf? entries "strategy" = some settings ∧
    settings.get? "force_owned" = o.forceOwned.map .boolean
  pool : ∃ settings, settingsOf? entries "pool" = some settings ∧
    settings.get? "enabled" = o.enabled.map .boolean ∧
    settings.get? "blocks" = o.blocks.map counted ∧
    settings.get? "block_size" = o.blockSize.map counted
  zeroize : ∃ settings, settingsOf? entries "zeroize" = some settings ∧
    settings.get? "public_buffers" = o.publicBuffers.map .boolean

end Overrides

variable {entries entries' settings : Entries} {group : String} {o : Overrides} {α : Type}

theorem flag_given (b : Option Bool) (value : Bool) :
    orDefault value flag? (b.map .boolean) = some (b.getD value) := by
  cases b <;> rfl

theorem count_given (n : Option Nat) (value : Nat) :
    orDefault value count? (n.map counted) = some (n.getD value) := by
  cases n with
  | none => rfl
  | some n =>
      have hcount : count? (counted n) = some n := by
        have hnonneg : (0 : Int) ≤ n := Int.natCast_nonneg n
        simp only [counted, count?, if_pos hnonneg, Int.toNat_natCast]
      exact hcount

/-- A group that is absent is read like an empty table, if both give the default. -/
theorem orDefault_settingsOf {value : α} {read? : Value → Option α}
    (hempty : ∀ origin, read? (.table origin []) = some value)
    (h : settingsOf? entries group = some settings) :
    ∃ origin, orDefault value read? (entries.get? group) = read? (.table origin settings) := by
  unfold settingsOf? at h
  cases hg : entries.get? group with
  | none =>
      rw [hg] at h
      cases h
      exact ⟨.header, (hempty .header).symm⟩
  | some v =>
      rw [hg] at h
      cases v with
      | table origin settings =>
          cases h
          exact ⟨origin, rfl⟩
      | text _ | integer _ | float _ | boolean _ | moment _ | array _ | rows _ => cases h

theorem strategy_given (h : o.GivenBy entries) :
    orDefault {} strategy? (entries.get? "strategy") = some (o.onto default).strategy := by
  obtain ⟨settings, hsettings, hforce⟩ := h.strategy
  have hempty : ∀ origin, strategy? (.table origin []) = some {} := fun _ => rfl
  obtain ⟨origin, hread⟩ := orDefault_settingsOf hempty hsettings
  rw [hread]
  simp only [strategy?, settingOf?, hforce, flag_given, Option.bind_eq_bind, Option.bind_some]
  rfl

theorem pool_given (h : o.GivenBy entries) :
    orDefault {} pool? (entries.get? "pool") = some (o.onto default).pool := by
  obtain ⟨settings, hsettings, henabled, hblocks, hsize⟩ := h.pool
  have hempty : ∀ origin, pool? (.table origin []) = some {} := fun _ => rfl
  obtain ⟨origin, hread⟩ := orDefault_settingsOf hempty hsettings
  rw [hread]
  simp only [pool?, settingOf?, henabled, hblocks, hsize, flag_given, count_given,
    Option.bind_eq_bind, Option.bind_some]
  rfl

theorem zeroize_given (h : o.GivenBy entries) :
    orDefault {} zeroize? (entries.get? "zeroize") = some (o.onto default).zeroize := by
  obtain ⟨settings, hsettings, hpublic⟩ := h.zeroize
  have hempty : ∀ origin, zeroize? (.table origin []) = some {} := fun _ => rfl
  obtain ⟨origin, hread⟩ := orDefault_settingsOf hempty hsettings
  rw [hread]
  simp only [zeroize?, settingOf?, hpublic, flag_given, Option.bind_eq_bind, Option.bind_some]
  rfl

/-- What is given replaces the default, setting by setting. -/
theorem ofEntries?_of_givenBy (h : o.GivenBy entries) :
    ofEntries? entries = some (o.onto default) := by
  unfold ofEntries?
  rw [strategy_given h, pool_given h, zeroize_given h]
  rfl

/-- An empty table is read like an absent one. -/
theorem ofEntries?_emptied {origin : Toml.Origin} (hgroup : group ∈ groups)
    (habsent : entries.get? group = none) (hempty : entries'.get? group = some (.table origin []))
    (hothers : ∀ other, other ≠ group → entries'.get? other = entries.get? other) :
    ofEntries? entries' = ofEntries? entries := by
  unfold ofEntries?
  simp only [groups, List.mem_cons, List.not_mem_nil, or_false] at hgroup
  rcases hgroup with rfl | rfl | rfl
  · rw [habsent, hempty, hothers "pool" (by decide), hothers "zeroize" (by decide)]
    rfl
  · rw [habsent, hempty, hothers "strategy" (by decide), hothers "zeroize" (by decide)]
    rfl
  · rw [habsent, hempty, hothers "strategy" (by decide), hothers "pool" (by decide)]
    rfl

theorem ofDocument_eq {text : String} {c : Config} (hparse : parse? text = some entries)
    (hc : ofEntries? entries = some c) :
    ofDocument text = (c.validate).map fun _ => c := by
  unfold ofDocument
  rw [hparse, Option.bind_some, hc]
  cases hv : c.validate <;> simp [hv] <;> rfl

/-- A configuration is refused for breaking one of the rules. -/
theorem validate_cases (c : Config) :
    c.validate = .ok () ∨ ∃ rule, c.validate = .error (.invalid rule) := by
  unfold validate
  split
  · exact .inr ⟨_, rfl⟩
  · split
    · exact .inr ⟨_, rfl⟩
    · exact .inl rfl

/-- A document that gives some of the settings gives the configuration with these settings over the
default one, if that configuration keeps both rules, and is refused as invalid if it does not.  An
empty table makes the same configuration as an absent one. -/
theorem ofDocument_overlay {text : String} (hparse : parse? text = some entries) :
    (∀ o : Overrides, o.GivenBy entries →
      let c := o.onto default
      let sound := ¬ (c.pool.enabled = true ∧ (c.pool.blocks = 0 ∨ c.pool.blockSize = 0)) ∧
        c.pool.blockSize ≤ nativeSizeLimit
      (sound → ofDocument text = .ok c) ∧
      (¬ sound → ∃ rule, ofDocument text = .error (.invalid rule))) ∧
    (∀ group ∈ groups, entries.get? group = none →
      ∀ text' entries' origin, parse? text' = some entries' →
        entries'.get? group = some (.table origin []) →
        (∀ other, other ≠ group → entries'.get? other = entries.get? other) →
        ofDocument text' = ofDocument text) := by
  constructor
  · intro o ho c sound
    have hread := ofDocument_eq hparse (ofEntries?_of_givenBy ho)
    have hrules : c.validate = .ok () ↔ sound := by
      rw [validate_eq_ok_iff]
      constructor
      · rintro ⟨hpool, hsize⟩
        refine ⟨?_, hsize⟩
        rintro ⟨henabled, hzero⟩
        have hboth := hpool henabled
        omega
      · rintro ⟨hpool, hsize⟩
        refine ⟨?_, hsize⟩
        intro henabled
        have hnone : ¬ (c.pool.blocks = 0 ∨ c.pool.blockSize = 0) :=
          fun hzero => hpool ⟨henabled, hzero⟩
        omega
    constructor
    · intro hsound
      rw [hread, hrules.mpr hsound]
      rfl
    · intro hbroken
      rcases validate_cases c with hok | ⟨rule, hrule⟩
      · exact absurd (hrules.mp hok) hbroken
      · refine ⟨rule, ?_⟩
        rw [hread, hrule]
        rfl
  · intro group hgroup habsent text' entries' origin hparse' hempty hothers
    unfold ofDocument
    rw [hparse, hparse', Option.bind_some, Option.bind_some,
      ofEntries?_emptied hgroup habsent hempty hothers]

/-- Two tables out of order, one of them without settings, among keys that name nothing. -/
def mixedLines : List Line :=
  [.entry "version" (.number 3), .header "zeroize", .entry "colour" (.boolean true), .blank,
    .header "pool", .entry "block_size" (.number 0), .entry "spare" (.number 7),
    .entry "enabled" (.boolean false), .header "extra"]

/-- Empty blocks are allowed while the pool is switched off. -/
theorem ofDocument_mixedLines :
    ∃ entries, parse? (textOf mixedLines) = some entries ∧
      ({ enabled := some false, blockSize := some 0 } : Overrides).GivenBy entries ∧
      ofDocument (textOf mixedLines) =
        .ok { pool := { enabled := false, blocks := defaultBlocks, blockSize := 0 } } := by
  have hplain : ∀ line ∈ mixedLines, line.Plain := by
    intro line hline
    simp only [mixedLines, List.mem_cons, List.not_mem_nil, or_false] at hline
    rcases hline with rfl | rfl | rfl | rfl | rfl | rfl | rfl | rfl | rfl
    all_goals simp only [Line.Plain, Scalar.Fits, and_true]
    all_goals decide
  obtain ⟨entries, hentries⟩ : ∃ entries, enterAll mixedLines = some entries := ⟨_, rfl⟩
  have hparse : parse? (textOf mixedLines) = some entries := (parse?_text hplain).trans hentries
  have hgiven : ({ enabled := some false, blockSize := some 0 } : Overrides).GivenBy entries := by
    cases hentries
    exact ⟨⟨_, rfl, rfl⟩, ⟨_, rfl, rfl, rfl, rfl⟩, ⟨_, rfl, rfl⟩⟩
  refine ⟨entries, hparse, hgiven, ?_⟩
  exact ((ofDocument_overlay hparse).1 _ hgiven).1 (by decide)

end Config

end NativeBoundary

import NativeBoundary.Toml.Document

/-!
# Numbers as they are written

A natural number is written in base ten, without a sign and without leading zeros, and stands
before the end of its line.  Read back it is the same number (`value?_numeral`): no date, no time
of day and no number with a fraction begins like it, and its digits stand for it.
-/

namespace NativeBoundary.Toml

variable {c : Char} {digits rest : List Char} {n : Nat}

theorem digit?_of_isDigit (h : c.isDigit = true) : digit? 10 c = some (c.toNat - '0'.toNat) := by
  obtain ⟨hlow, hhigh⟩ : 48 ≤ c.val.toNat ∧ c.val.toNat ≤ 57 := by
    simpa [Char.isDigit, UInt32.le_iff_toNat_le] using h
  have hrange : ('0' ≤ c && c ≤ '9') = true := by
    simpa [Char.le_def, UInt32.le_iff_toNat_le] using And.intro hlow hhigh
  have hsmall : c.toNat - '0'.toNat < 10 := by
    change c.val.toNat - 48 < 10
    omega
  unfold digit? hexDigit?
  rw [if_pos hrange, Option.bind_some, if_pos hsmall]

theorem ne_of_isDigit {d : Char} (h : c.isDigit = true) (hd : d.isDigit = false) : c ≠ d := by
  rintro rfl
  rw [h] at hd
  cases hd

/-- Digits stand for the number that they print. -/
theorem numberOf_eq (h : ∀ c ∈ digits, c.isDigit = true) :
    numberOf 10 digits = Nat.ofDigitChars 10 digits 0 := by
  have hfold : ∀ start : Nat,
      digits.foldl (fun n c => 10 * n + (digit? 10 c).getD 0) start =
        Nat.ofDigitChars 10 digits start := by
    induction digits with
    | nil =>
        intro start
        rfl
    | cons c digits ih =>
        intro start
        rw [List.foldl_cons, ih (fun d hd => h d (List.mem_cons_of_mem _ hd)),
          digit?_of_isDigit (h c List.mem_cons_self), Nat.ofDigitChars_cons]
        rfl
  exact hfold 0

/-- A run of digits ends with its line. -/
theorem digitRun_line (h : ∀ c ∈ digits, c.isDigit = true) (rest : List Char) :
    digitRun 10 (digits ++ '\n' :: rest) = (digits, '\n' :: rest) := by
  induction digits with
  | nil => rfl
  | cons c digits ih =>
      have hc := h c List.mem_cons_self
      have hunderscore : c ≠ '_' := ne_of_isDigit hc (by decide)
      rw [List.cons_append, digitRun, digit?_of_isDigit hc,
        ih fun d hd => h d (List.mem_cons_of_mem _ hd)]
      · rfl
      · intro d front hfront _
        exact absurd hfront hunderscore

theorem sign_of_isDigit (h : c.isDigit = true) (rest : List Char) :
    sign (c :: rest) = (none, c :: rest) := by
  have hplus : c ≠ '+' := ne_of_isDigit h (by decide)
  have hminus : c ≠ '-' := ne_of_isDigit h (by decide)
  unfold sign
  split
  · exact absurd (List.cons.inj ‹_›).1 hplus
  · exact absurd (List.cons.inj ‹_›).1 hminus
  · rfl

/-- After digits there is more of them or the end of the line. -/
theorem after?_digits {mark : Char} (hmark : mark.isDigit = false) (hend : mark ≠ '\n')
    (h : ∀ c ∈ digits, c.isDigit = true) (rest : List Char) :
    after? mark (digits ++ '\n' :: rest) = none := by
  cases digits with
  | nil => exact if_neg (Ne.symm hend)
  | cons c digits => exact if_neg (ne_of_isDigit (h c List.mem_cons_self) hmark)

theorem twoDigits?_line {lo hi : Nat} (h : ∀ c ∈ digits, c.isDigit = true) {k : Nat}
    {after : List Char} (ht : twoDigits? lo hi (digits ++ '\n' :: rest) = some (k, after)) :
    ∃ more, (∀ c ∈ more, c.isDigit = true) ∧ after = more ++ '\n' :: rest := by
  match digits, h with
  | [], _ =>
      cases rest with
      | nil => cases ht
      | cons b rest => cases ht
  | [a], _ =>
      have hend : isDigit '\n' = false := by decide
      simp [twoDigits?, hend] at ht
  | a :: b :: more, h =>
      refine ⟨more, fun c hc => h c (by simp [hc]), ?_⟩
      simp only [List.cons_append, twoDigits?] at ht
      split at ht
      · split at ht
        · cases ht
          rfl
        · cases ht
      · cases ht

theorem time?_line (h : ∀ c ∈ digits, c.isDigit = true) :
    time? (digits ++ '\n' :: rest) = none := by
  unfold time?
  cases htwo : twoDigits? 0 23 (digits ++ '\n' :: rest) with
  | none => rfl
  | some found =>
      obtain ⟨more, hmore, hafter⟩ := twoDigits?_line h htwo
      simp only [Option.bind_eq_bind, Option.bind_some, hafter]
      rw [after?_digits (by decide) (by decide) hmore]
      rfl

theorem date?_line (h : ∀ c ∈ digits, c.isDigit = true) :
    date? (digits ++ '\n' :: rest) = none := by
  have hend : isDigit '\n' = false := by decide
  match digits, h with
  | [], _ => rcases rest with _ | ⟨_, _ | ⟨_, _ | ⟨_, _⟩⟩⟩ <;> simp [date?, hend]
  | [a], _ => rcases rest with _ | ⟨_, _ | ⟨_, _⟩⟩ <;> simp [date?, hend]
  | [a, b], _ => rcases rest with _ | ⟨_, _⟩ <;> simp [date?, hend]
  | [a, b, c], _ => simp [date?, hend]
  | a :: b :: c :: d :: more, h =>
      have hmore : ∀ x ∈ more, x.isDigit = true := fun x hx => h x (by simp [hx])
      simp only [List.cons_append, date?, after?_digits (by decide : '-'.isDigit = false)
        (by decide) hmore]
      split <;> rfl

theorem moment?_line (h : ∀ c ∈ digits, c.isDigit = true) :
    moment? (digits ++ '\n' :: rest) = none := by
  unfold moment?
  rw [date?_line h, time?_line h]
  rfl

/-- Only zero begins with a zero. -/
theorem toDigits_cases (n : Nat) :
    (n = 0 ∧ Nat.toDigits 10 n = ['0']) ∨ ∃ c more, Nat.toDigits 10 n = c :: more ∧ c ≠ '0' := by
  induction n using Nat.strongRecOn with
  | _ n ih =>
      by_cases hsmall : n < 10
      · have hdigit : ∀ k < 10, k ≠ 0 → k.digitChar ≠ '0' := by decide
        by_cases hzero : n = 0
        · left
          rw [hzero]
          exact ⟨rfl, rfl⟩
        · right
          rw [Nat.toDigits_of_lt_base hsmall]
          exact ⟨_, [], rfl, hdigit n hsmall hzero⟩
      · right
        rw [Nat.toDigits_of_base_le (by omega) (by omega)]
        rcases ih (n / 10) (by omega) with ⟨hzero, -⟩ | ⟨c, more, hdigits, hc⟩
        · omega
        · exact ⟨c, more ++ [(n % 10).digitChar], by rw [hdigits]; rfl, hc⟩

/-- The digits of a number are all that is read of it. -/
theorem decimal?_numeral (n : Nat) (rest : List Char) :
    decimal? (Nat.toDigits 10 n ++ '\n' :: rest) =
      some (none, Nat.toDigits 10 n, '\n' :: rest) := by
  have hdigits : ∀ c ∈ Nat.toDigits 10 n, c.isDigit = true :=
    fun c hc => Nat.isDigit_of_mem_toDigits (by omega) (by omega) hc
  rcases toDigits_cases n with ⟨-, hzero⟩ | ⟨c, more, hn, hc⟩
  · rw [hzero]
    rfl
  · rw [hn] at hdigits ⊢
    have hfirst := hdigits c List.mem_cons_self
    have hrun := digitRun_line hdigits rest
    unfold decimal?
    rw [List.cons_append, sign_of_isDigit hfirst]
    split
    · rename_i s after hs
      exact absurd (List.cons.inj (Prod.mk.inj hs).2).1 hc
    · rename_i s after _ hs
      cases hs
      rw [digits?, digit?_of_isDigit hfirst, ← List.cons_append, hrun]
      rfl

theorem float?_numeral (n : Nat) (rest : List Char) :
    float? (Nat.toDigits 10 n ++ '\n' :: rest) = none := by
  have hwritten : writtenFloat? (Nat.toDigits 10 n ++ '\n' :: rest) = none := by
    unfold writtenFloat?
    rw [decimal?_numeral]
    rfl
  have hnamed : namedFloat? (Nat.toDigits 10 n ++ '\n' :: rest) = none := by
    obtain ⟨c, more, hn⟩ := List.exists_cons_of_ne_nil (Nat.toDigits_ne_nil (n := n) (b := 10))
    have hc : c.isDigit = true :=
      Nat.isDigit_of_mem_toDigits (b := 10) (n := n) (by omega) (by omega) (by simp [hn])
    rw [hn, List.cons_append]
    unfold namedFloat?
    rw [sign_of_isDigit hc]
    split
    · exact absurd (List.cons.inj ‹_›).1 (ne_of_isDigit hc (by decide))
    · exact absurd (List.cons.inj ‹_›).1 (ne_of_isDigit hc (by decide))
    · rfl
  unfold float?
  rw [hwritten, hnamed]
  rfl

theorem integer?_numeral (hn : n < 0x8000000000000000) (rest : List Char) :
    integer? (Nat.toDigits 10 n ++ '\n' :: rest) = some ((n : Int), '\n' :: rest) := by
  have hdigits : ∀ c ∈ Nat.toDigits 10 n, c.isDigit = true :=
    fun c hc => Nat.isDigit_of_mem_toDigits (by omega) (by omega) hc
  have hvalue : numberOf 10 (Nat.toDigits 10 n) = n := by
    rw [numberOf_eq hdigits]
    exact Nat.ofDigitChars_ten_toDigits
  have hfits : fits64 (n : Int) = true := by
    unfold fits64
    simp only [Bool.and_eq_true, decide_eq_true_eq]
    omega
  -- no letter of a base stands behind a first zero
  have hbase : ∀ mark after,
      Nat.toDigits 10 n ++ '\n' :: rest = '0' :: mark :: after → mark = '\n' := by
    intro mark after heq
    rcases toDigits_cases n with ⟨-, hzero⟩ | ⟨c, more, hc, hne⟩
    · rw [hzero] at heq
      exact (List.cons.inj (List.cons.inj heq).2).1.symm
    · rw [hc] at heq
      exact absurd (List.cons.inj heq).1 hne
  unfold integer?
  split
  · exact absurd (hbase _ _ ‹_›) (by decide)
  · exact absurd (hbase _ _ ‹_›) (by decide)
  · exact absurd (hbase _ _ ‹_›) (by decide)
  · have hsign : (none : Option Char) ≠ some '-' := by simp
    rw [decimal?_numeral, Option.bind_eq_bind, Option.bind_some]
    simp only [if_neg hsign, hvalue, if_pos hfits]

/-- A number is read back as it is written. -/
theorem value?_numeral (depth : Nat) (hn : n < 0x8000000000000000) (rest : List Char) :
    value? depth (Nat.toDigits 10 n ++ '\n' :: rest) = some (.integer n, '\n' :: rest) := by
  have hmoment : moment? (Nat.toDigits 10 n ++ '\n' :: rest) = none :=
    moment?_line fun c hc => Nat.isDigit_of_mem_toDigits (by omega) (by omega) hc
  have hfloat := float?_numeral n rest
  have hinteger := integer?_numeral hn rest
  obtain ⟨c, more, hdigits⟩ := List.exists_cons_of_ne_nil (Nat.toDigits_ne_nil (n := n) (b := 10))
  have hc : c.isDigit = true :=
    Nat.isDigit_of_mem_toDigits (b := 10) (n := n) (by omega) (by omega) (by simp [hdigits])
  have hquote : c ≠ '"' := ne_of_isDigit hc (by decide)
  have hsingle : c ≠ '\'' := ne_of_isDigit hc (by decide)
  have hbracket : c ≠ '[' := ne_of_isDigit hc (by decide)
  have hbrace : c ≠ '\x7b' := ne_of_isDigit hc (by decide)
  rw [hdigits, List.cons_append] at hmoment hfloat hinteger ⊢
  have hquotes : ¬ (decide (c = '"') || decide (c = '\'')) = true := by
    rw [decide_eq_false hquote, decide_eq_false hsingle]
    decide
  rw [value?.eq_def]
  simp only [if_neg hquotes, if_neg hbracket, if_neg hbrace, hmoment, hfloat, hinteger]

end NativeBoundary.Toml

import NativeBoundary.Proofs.Toml.Numerals

/-!
# Documents made of plain lines

A plain line is blank, opens a table by its header, or gives a switch or a number a name.  Reading
a document of plain lines is entering them one after the other (`parse?_text`): the reader stops at
the end of each line, and what a line means depends on the table that is open and on the entries so
far, not on how the lines before it were written.
-/

namespace NativeBoundary.Toml

/-- A value without quotes or brackets. -/
inductive Scalar
  | boolean (b : Bool)
  | number (n : Nat)

namespace Scalar

def text : Scalar → String
  | boolean b => toString b
  | number n => toString n

def value : Scalar → Value
  | boolean b => .boolean b
  | number n => .integer n

/-- A document holds numbers below `2⁶³`. -/
def Fits : Scalar → Prop
  | boolean _ => True
  | number n => n < 0x8000000000000000

end Scalar

/-- A key that needs no quotes. -/
def IsBare (key : String) : Prop := key.toList ≠ [] ∧ ∀ c ∈ key.toList, isBareKeyChar c = true

instance (key : String) : Decidable (IsBare key) :=
  decidable_of_iff (key.toList ≠ [] ∧ key.toList.all isBareKeyChar = true)
    (by rw [List.all_eq_true, IsBare])

/-- A line of a simple document. -/
inductive Line
  | blank
  | header (key : String)
  | entry (key : String) (value : Scalar)

namespace Line

def text : Line → List Char
  | blank => ['\n']
  | header key => '[' :: (key.toList ++ [']', '\n'])
  | entry key value => key.toList ++ (' ' :: '=' :: ' ' :: (value.text.toList ++ ['\n']))

def Plain : Line → Prop
  | blank => True
  | header key => IsBare key
  | entry key value => IsBare key ∧ value.Fits

/-- What a line makes of the open table and of the entries so far. -/
def enter : Line → List String × Entries → Option (List String × Entries)
  | blank, s => some s
  | header key, s => (s.2.within? false (Entries.openTable? key) [] .header).map ([key], ·)
  | entry key value, s =>
      (s.2.within? false (Entries.put? [] key value.value) s.1 .header).map (s.1, ·)

end Line

variable {key : String} {rest after : List Char} {fuel : Nat}

theorem value?_scalar (depth : Nat) {v : Scalar} (hv : v.Fits) (rest : List Char) :
    value? depth (v.text.toList ++ '\n' :: rest) = some (v.value, '\n' :: rest) := by
  cases v with
  | boolean b => cases b <;> cases depth <;> rfl
  | number n =>
      have htext : (toString n).toList = Nat.toDigits 10 n := Nat.toList_repr
      change value? depth ((toString n).toList ++ '\n' :: rest) = _
      rw [htext]
      exact value?_numeral depth hv rest

/-- A value does not begin with a blank. -/
theorem skipBlanks_scalar (v : Scalar) (rest : List Char) :
    skipBlanks (' ' :: (v.text.toList ++ rest)) = v.text.toList ++ rest := by
  cases v with
  | boolean b => cases b <;> rfl
  | number n =>
      have htext : (Scalar.number n).text.toList = Nat.toDigits 10 n := Nat.toList_repr
      obtain ⟨c, more, hn⟩ := List.exists_cons_of_ne_nil (Nat.toDigits_ne_nil (n := n) (b := 10))
      have hc : c.isDigit = true :=
        Nat.isDigit_of_mem_toDigits (b := 10) (n := n) (by omega) (by omega) (by simp [hn])
      have hspace : c ≠ ' ' := ne_of_isDigit hc (by decide)
      have htab : c ≠ '\t' := ne_of_isDigit hc (by decide)
      rw [htext, hn]
      simp [skipBlanks, isBlank, hspace, htab]

/-- A blank is no part of a key. -/
theorem not_isBlank_of_bare {c : Char} (h : isBareKeyChar c = true) : isBlank c = false := by
  unfold isBlank
  rw [Bool.or_eq_false_iff, decide_eq_false_iff_not, decide_eq_false_iff_not]
  constructor
  · rintro rfl
    exact absurd h (by decide)
  · rintro rfl
    exact absurd h (by decide)

theorem ne_of_bare {c d : Char} (h : isBareKeyChar c = true) (hd : isBareKeyChar d = false) :
    c ≠ d := by
  rintro rfl
  rw [h] at hd
  cases hd

/-- A bare key is read up to the first character that is no part of one. -/
theorem keyPart?_bare (hkey : IsBare key) (hafter : ∀ c ∈ after.head?, isBareKeyChar c = false) :
    keyPart? (key.toList ++ after) = some (key, after) := by
  obtain ⟨hsome, hbare⟩ := hkey
  obtain ⟨c, more, hc⟩ := List.exists_cons_of_ne_nil hsome
  have hfirst : isBareKeyChar c = true := hbare c (by simp [hc])
  have hdouble : c ≠ '"' := ne_of_bare hfirst (by decide)
  have hsingle : c ≠ '\'' := ne_of_bare hfirst (by decide)
  have hnone : after.takeWhile isBareKeyChar = [] ∧ after.dropWhile isBareKeyChar = after := by
    cases after with
    | nil => exact ⟨rfl, rfl⟩
    | cons d after =>
        have hd : isBareKeyChar d = false := hafter d rfl
        simp [hd]
  have htake : (key.toList ++ after).takeWhile isBareKeyChar = key.toList := by
    rw [List.takeWhile_append_of_pos hbare, hnone.1, List.append_nil]
  have hdrop : (key.toList ++ after).dropWhile isBareKeyChar = after := by
    rw [List.dropWhile_append_of_pos hbare, hnone.2]
  have hcs : key.toList ++ after = c :: (more ++ after) := by
    rw [hc]
    rfl
  unfold keyPart?
  rw [htake, hdrop, hcs]
  simp [hdouble, hsingle, hfirst]

/-- A key without dots. -/
theorem key?_bare (after : List Char) (hkey : IsBare key)
    (hafter : ∀ c ∈ after.head?, isBareKeyChar c = false)
    (hdot : ∀ c ∈ (skipBlanks after).head?, c ≠ '.') :
    key? (key.toList ++ after) = some ([], key, skipBlanks after) := by
  obtain ⟨c, more, hc⟩ := List.exists_cons_of_ne_nil hkey.1
  have hfirst : isBareKeyChar c = true := hkey.2 c (by simp [hc])
  have hskip : skipBlanks (key.toList ++ after) = key.toList ++ after := by
    rw [hc, List.cons_append]
    unfold skipBlanks
    rw [List.dropWhile_cons_of_neg]
    simp [not_isBlank_of_bare hfirst]
  change keyParts? (78 + 1) (key.toList ++ after) = _
  rw [keyParts?, hskip, keyPart?_bare hkey hafter, Option.bind_eq_bind, Option.bind_some]
  dsimp only
  split
  · rename_i rest hrest
    exact absurd rfl (hdot '.' (by rw [hrest]; rfl))
  · rfl

theorem lines?_blank (path : List String) (here : Entries) :
    lines? (fuel + 1) path here ('\n' :: rest) = lines? fuel path here rest := by
  rw [lines?]
  rfl

/-- A header opens its table. -/
theorem lines?_header (path : List String) (here : Entries) (hkey : IsBare key) :
    lines? (fuel + 1) path here ((Line.header key).text ++ rest) =
      ((Line.header key).enter (path, here)).bind fun s => lines? fuel s.1 s.2 rest := by
  obtain ⟨c, more, hc⟩ := List.exists_cons_of_ne_nil hkey.1
  have hfirst : isBareKeyChar c = true := hkey.2 c (by simp [hc])
  have hbracket : c ≠ '[' := ne_of_bare hfirst (by decide)
  have htext : (Line.header key).text ++ rest = '[' :: c :: (more ++ ']' :: '\n' :: rest) := by
    simp [Line.text, hc]
  have hread : key? (c :: (more ++ ']' :: '\n' :: rest)) = some ([], key, ']' :: '\n' :: rest) := by
    have hbare := key?_bare (']' :: '\n' :: rest) hkey (by simp; decide)
      (by simp [skipBlanks, isBlank])
    rw [hc] at hbare
    exact hbare
  have hskip : skipBlanks ('[' :: c :: (more ++ ']' :: '\n' :: rest)) =
      '[' :: c :: (more ++ ']' :: '\n' :: rest) := rfl
  rw [htext, lines?, hskip]
  split
  · cases ‹_ = []›
  · cases (List.cons.inj ‹_›).1
  · cases (List.cons.inj ‹_›).1
  · cases (List.cons.inj ‹_›).1
  · exact absurd (List.cons.inj (List.cons.inj ‹_›).2).1 hbracket
  · rename_i tail _ heq
    obtain rfl : tail = c :: (more ++ ']' :: '\n' :: rest) := (List.cons.inj heq).2.symm
    have hclose : after? ']' (']' :: '\n' :: rest) = some ('\n' :: rest) := rfl
    have hend : restOfLine? ('\n' :: rest) = some rest := rfl
    simp only [hread, hclose, hend, Option.bind_eq_bind, Option.bind_some, Line.enter]
    cases here.within? false (Entries.openTable? key) [] .header <;> rfl
  · rename_i hother
    exact absurd rfl (hother _)

/-- An entry puts its value where its key says. -/
theorem lines?_entry (path : List String) (here : Entries) {v : Scalar} (hkey : IsBare key)
    (hv : v.Fits) :
    lines? (fuel + 1) path here ((Line.entry key v).text ++ rest) =
      ((Line.entry key v).enter (path, here)).bind fun s => lines? fuel s.1 s.2 rest := by
  obtain ⟨c, more, hc⟩ := List.exists_cons_of_ne_nil hkey.1
  have hfirst : isBareKeyChar c = true := hkey.2 c (by simp [hc])
  -- what stands behind the key
  let equation := ' ' :: '=' :: ' ' :: (v.text.toList ++ '\n' :: rest)
  have htext : (Line.entry key v).text ++ rest = c :: (more ++ equation) := by
    simp [Line.text, hc, equation]
  have hread : key? (c :: (more ++ equation)) =
      some ([], key, '=' :: ' ' :: (v.text.toList ++ '\n' :: rest)) := by
    have hbare := key?_bare equation hkey (by simp [equation]; decide)
      (by simp [equation, skipBlanks, isBlank])
    rw [hc] at hbare
    exact hbare
  have hskip : skipBlanks (c :: (more ++ equation)) = c :: (more ++ equation) := by
    unfold skipBlanks
    rw [List.dropWhile_cons_of_neg]
    simp [not_isBlank_of_bare hfirst]
  have hequals : after? '=' ('=' :: ' ' :: (v.text.toList ++ '\n' :: rest)) =
      some (' ' :: (v.text.toList ++ '\n' :: rest)) := rfl
  have hvalue : value? (nestingLimit - 1) (skipBlanks (' ' :: (v.text.toList ++ '\n' :: rest))) =
      some (v.value, '\n' :: rest) := by
    rw [skipBlanks_scalar]
    exact value?_scalar _ hv rest
  have hend : restOfLine? ('\n' :: rest) = some rest := rfl
  rw [htext, lines?, hskip]
  split
  · cases ‹_ = []›
  · exact absurd (List.cons.inj ‹_›).1 (ne_of_bare hfirst (by decide))
  · exact absurd (List.cons.inj ‹_›).1 (ne_of_bare hfirst (by decide))
  · exact absurd (List.cons.inj ‹_›).1 (ne_of_bare hfirst (by decide))
  · exact absurd (List.cons.inj ‹_›).1 (ne_of_bare hfirst (by decide))
  · exact absurd (List.cons.inj ‹_›).1 (ne_of_bare hfirst (by decide))
  · simp only [hread, hequals, hvalue, hend, Option.bind_eq_bind, Option.bind_some, Line.enter]
    cases here.within? false (Entries.put? [] key v.value) path .header <;> rfl

/-- Reading a line is entering it. -/
theorem lines?_line (path : List String) (here : Entries) {line : Line} (h : line.Plain) :
    lines? (fuel + 1) path here (line.text ++ rest) =
      (line.enter (path, here)).bind fun s => lines? fuel s.1 s.2 rest := by
  cases line with
  | blank => exact lines?_blank path here
  | header key => exact lines?_header path here h
  | entry key value => exact lines?_entry path here h.1 h.2

/-- The text of some lines. -/
def textOf (lines : List Line) : String := String.ofList (lines.flatMap Line.text)

/-- The entries that lines make up, entered one after the other. -/
def enterAll (lines : List Line) : Option Entries :=
  (lines.foldlM (fun s line => Line.enter line s) ([], [])).map (·.2)

theorem lines?_lines {lines : List Line} (h : ∀ line ∈ lines, line.Plain)
    (hfuel : lines.length < fuel) (s : List String × Entries) :
    lines? fuel s.1 s.2 (lines.flatMap Line.text) =
      (lines.foldlM (fun s line => Line.enter line s) s).map (·.2) := by
  induction lines generalizing fuel s with
  | nil =>
      obtain ⟨fuel, rfl⟩ := Nat.exists_eq_succ_of_ne_zero (Nat.ne_of_gt hfuel)
      rw [List.flatMap_nil, lines?]
      rfl
  | cons line lines ih =>
      obtain ⟨fuel, rfl⟩ := Nat.exists_eq_succ_of_ne_zero (by omega : fuel ≠ 0)
      rw [List.flatMap_cons, lines?_line _ _ (h line List.mem_cons_self), List.foldlM_cons]
      cases line.enter s with
      | none => rfl
      | some s =>
          exact ih (fun l hl => h l (List.mem_cons_of_mem _ hl)) (by simpa using hfuel) s

/-- No line is without text. -/
theorem length_le_text (lines : List Line) : lines.length ≤ (lines.flatMap Line.text).length := by
  induction lines with
  | nil => exact Nat.le_refl _
  | cons line lines ih =>
      have hline : 0 < line.text.length := by
        cases line with
        | blank => exact Nat.one_pos
        | header key => exact Nat.succ_pos _
        | entry key value =>
            simp only [Line.text, List.length_append, List.length_cons]
            omega
      rw [List.flatMap_cons, List.length_append, List.length_cons]
      omega

/-- A document of plain lines has no byte order mark. -/
theorem head_textOf {lines : List Line} (h : ∀ line ∈ lines, line.Plain) :
    (lines.flatMap Line.text).head? ≠ some '\ufeff' := by
  have hmark : isBareKeyChar '\ufeff' = false := by decide
  cases lines with
  | nil => simp
  | cons line lines =>
      have hline := h line List.mem_cons_self
      cases line with
      | blank => simp [Line.text]
      | header key => simp [Line.text]
      | entry key value =>
          obtain ⟨c, more, hc⟩ := List.exists_cons_of_ne_nil hline.1.1
          have hfirst := hline.1.2 c (by simp [hc])
          simpa [Line.text, hc] using ne_of_bare hfirst hmark

/-- Reading a document of plain lines is entering them one after the other. -/
theorem parse?_text {lines : List Line} (h : ∀ line ∈ lines, line.Plain) :
    parse? (textOf lines) = enterAll lines := by
  unfold parse? textOf
  simp only [String.toList_ofList, if_neg (head_textOf h)]
  exact lines?_lines h (Nat.lt_succ_of_le (length_le_text lines)) ([], [])

end NativeBoundary.Toml

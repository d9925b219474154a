import NativeBoundary.Proofs.Process.OpenScopes

/-!
# Every strategy marshals alike

An input is lent, or copied into a block of a pool, or copied to the heap, and each of these ways
has its own length check and its own answer for no bytes.  Native code cannot tell them apart: what
it is handed denotes the input, and where one way refuses an input for its length all of them do.
They differ in where the pointer leads, which is what the strategy decides, and in the copy that the
scope has to release.

* `RawBuffer.Denotes` — what native code may rely on;
* `Memory.marshals_input` — one input, by whichever strategy, in any memory with its books in order;
* `OpenScope.Sheltered` — over its whole life, a scope that copies hands out no pointer to host
  memory;
* `Lending.marshalling_alike` — both after every run.
-/

namespace NativeBoundary

open Memory (SameHoldings)

/-- A raw buffer denotes a byte string: its size is the length, its pointer is null for no bytes
only, and the bytes can be read. -/
structure RawBuffer.Denotes (raw : RawBuffer) (h : Heap) (bytes : Bytes) : Prop where
  size : raw.size.toInt = bytes.length
  null : raw.data = .null ↔ bytes = []
  reads : raw.bytes h = bytes
  /-- What is read in native memory lies within a live block. -/
  within : ∀ r ∈ raw.data.regions bytes.length, r.Within h

/-- The scope with another strategy. -/
def Scope.under (s : Scope) (strategy : Strategy) : Scope := { s with strategy }

namespace Memory

variable {m m' : Memory} {s s' : Scope} {others : List Holder} {bytes : Bytes} {secrecy : Secrecy}
  {result : Except Fault RawBuffer}

/-- What comes of an input, by the strategy of its scope. -/
structure Marshals (m : Memory) (s : Scope) (bytes : Bytes) (result : Except Fault RawBuffer)
    (s' : Scope) (m' : Memory) : Prop where
  /-- A length that does not fit is refused by every strategy, and nothing else happens. -/
  oversized : nativeSizeLimit < bytes.length →
    result = .error (.oversized bytes.length) ∧ s' = s ∧ m' = m
  denotes : ∀ raw, result = .ok raw → raw.Denotes m'.heap bytes
  /-- The source is shown exactly when it is lent, and there is something to lend. -/
  aliases : ∀ raw, result = .ok raw →
    (raw.data = .host bytes ↔ s.strategy = .borrowedView ∧ bytes ≠ []) ∧
      (raw.data.isHost = true ↔ s.strategy = .borrowedView ∧ bytes ≠ [])
  /-- The only other failure is that of the allocator, which a copy to the heap asks once. -/
  fails : ∀ fault, result = .error fault → bytes.length ≤ nativeSizeLimit →
    fault = .noMemory bytes.length ∧ s.strategy = .ownedCopy ∧ bytes ≠ [] ∧ s' = s ∧
      m.heap.allocate bytes.length = (none, m'.heap) ∧ m'.pools = m.pools
  owned : s'.owned = s.owned +
    if s.strategy = .ownedCopy ∧ bytes ≠ [] ∧ result.toOption.isSome then 1 else 0

/-- What a scope makes for an input is accounted for, and its pools stay clean. -/
theorem Tends.made {made : List ScopeCopy}
    (ht : m.Tends s.poolHolder m' (made.map ScopeCopy.holder ++ s.poolHolder))
    (ha : m.Accounts ([.scope s] ++ others)) (hc : m.Clean ([.scope s] ++ others)) :
    ∃ rest, m'.Accounts (made.map ScopeCopy.holder ++ rest) ∧
      m'.Clean (made.map ScopeCopy.holder ++ rest) := by
  have hparts := ((holdings_scope s).trans (.of_perm List.perm_append_comm)).append_right others
  rw [List.append_assoc] at hparts
  have hdone := ht _ (ha.congr hparts.stakes) (hc.congr hparts)
  have hmade := hdone.accounts
  have hclean := hdone.clean
  rw [List.append_assoc] at hmade hclean
  exact ⟨_, hmade, hclean⟩

theorem view_eq (bytes : Bytes) :
    RawBuffer.view bytes =
      if bytes.length ≤ nativeSizeLimit then
        .ok ⟨if bytes = [] then .null else .host bytes, Int32.ofNat bytes.length⟩
      else .error (.oversized bytes.length) := by
  unfold RawBuffer.view sizeField
  split <;> rfl

/-- A block that the pool of a scope has for some bytes shows them, and they fit. -/
theorem inputBlock_full {b : PoolBlock} (ha : m.Accounts ([.scope s] ++ others))
    (hc : m.Clean ([.scope s] ++ others)) (hblock : m.inputBlock s bytes = (some b, m'))
    (hfull : bytes ≠ []) :
    bytes.length ≤ nativeSizeLimit ∧
      ∃ start, m'.blockRaw b = ⟨.native b.pool start, Int32.ofNat bytes.length⟩ := by
  have ht : m.Tends s.poolHolder m' ([ScopeCopy.pooled b].map ScopeCopy.holder ++ s.poolHolder) :=
    tends_inputBlock hblock
  obtain ⟨rest, ha', hc'⟩ := ht.made ha hc
  obtain ⟨p, hp, -, hfits, hlimit⟩ :=
    Loan.block_of_pooled ha' hc' (b := b) (List.mem_singleton.mpr rfl)
  have hlength : b.length = bytes.length := by
    obtain ⟨id, -, hacquire⟩ := inputBlock_some hblock
    exact (blockBytes_acquireWith ha hacquire).1
  rw [hlength] at hfits
  have hused : b.length ≠ 0 := hlength ▸ mt List.eq_nil_of_length_eq_zero hfull
  refine ⟨Nat.le_trans hfits hlimit, blockOffset p b.index, ?_⟩
  rw [blockRaw_eq hp hused, hlength]

/-- A copy to the heap of some bytes has a block for them. -/
theorem copyFrom_full {b : OwnedBuffer} {h h' : Heap} (hfull : bytes ≠ [])
    (hcopy : OwnedBuffer.copyFrom bytes secrecy h = (.ok b, h')) :
    bytes.length ≤ nativeSizeLimit ∧
      ∃ id, b.raw = ⟨.native id 0, Int32.ofNat bytes.length⟩ := by
  cases OwnedBuffer.copying_of_copyFrom hcopy with
  | empty hnone => exact absurd hnone hfull
  | block hsome hfits hblock => exact ⟨hfits, _, rfl⟩

section

variable (ha : m.Accounts ([.scope s] ++ others)) (hc : m.Clean ([.scope s] ++ others))
  (hinput : m.input s bytes secrecy = (result, s', m'))

include ha hc hinput in
/-- An answer is a null pointer for no bytes, or the source, or the start of a copy in native
memory, and its size is the length of the input. -/
theorem input_ok {raw : RawBuffer} (hok : result = .ok raw) :
    bytes.length ≤ nativeSizeLimit ∧ raw.size = Int32.ofNat bytes.length ∧
      (bytes = [] ∧ raw.data = .null ∧ s'.owned = s.owned ∨
        s.strategy = .borrowedView ∧ bytes ≠ [] ∧ raw.data = .host bytes ∧ s'.owned = s.owned ∨
        s.strategy = .ownedCopy ∧ bytes ≠ [] ∧ (∃ id start, raw.data = .native id start) ∧
          s'.owned = s.owned + 1) := by
  subst hok
  rcases input_answer hinput with ⟨rfl, rfl, ⟨hlent, hview⟩ | ⟨-, rfl, hempty⟩⟩ |
    ⟨fault, h', -, -, -, -, hresult⟩ | ⟨b, ⟨hcopied, hfull⟩, hblock, rfl, hresult⟩ |
    ⟨b, h', ⟨hcopied, hfull⟩, hcopy, rfl, rfl, hresult⟩
  · rw [view_eq] at hview
    split at hview
    · rename_i hlimit
      cases hview
      refine ⟨hlimit, rfl, ?_⟩
      by_cases hnone : bytes = []
      · exact .inl ⟨hnone, if_pos hnone, rfl⟩
      · exact .inr (.inl ⟨hlent, hnone, if_neg hnone, rfl⟩)
    · cases hview
  · cases hempty
    exact ⟨Nat.zero_le _, rfl, .inl ⟨rfl, rfl, rfl⟩⟩
  · cases hresult
  · cases hresult
    obtain ⟨hlimit, start, hraw⟩ := inputBlock_full ha hc hblock hfull
    rw [hraw]
    exact ⟨hlimit, rfl, .inr (.inr ⟨hcopied, hfull, ⟨b.pool, start, rfl⟩, rfl⟩)⟩
  · cases hresult
    obtain ⟨hlimit, id, hraw⟩ := copyFrom_full hfull hcopy
    rw [hraw]
    exact ⟨hlimit, rfl, .inr (.inr ⟨hcopied, hfull, ⟨id, 0, rfl⟩, rfl⟩)⟩

include hinput in
/-- A refusal is one of the length, which changes nothing, or one of the allocator. -/
theorem input_error {fault : Fault} (herror : result = .error fault) :
    s' = s ∧ (nativeSizeLimit < bytes.length ∧ fault = .oversized bytes.length ∧ m' = m ∨
      bytes.length ≤ nativeSizeLimit ∧ fault = .noMemory bytes.length ∧
        s.strategy = .ownedCopy ∧ bytes ≠ [] ∧
        m.heap.allocate bytes.length = (none, m'.heap) ∧ m'.pools = m.pools) := by
  subst herror
  rcases input_answer hinput with ⟨rfl, rfl, ⟨-, hview⟩ | ⟨-, -, hempty⟩⟩ |
    ⟨other, h', ⟨hcopied, hfull⟩, hcopy, rfl, rfl, hresult⟩ | ⟨b, -, -, -, hresult⟩ |
    ⟨b, h', -, -, -, -, hresult⟩
  · rw [view_eq] at hview
    split at hview
    · cases hview
    · rename_i hlong
      cases hview
      exact ⟨rfl, .inl ⟨Nat.lt_of_not_le hlong, rfl, rfl⟩⟩
  · cases hempty
  · cases hresult
    cases OwnedBuffer.refusal_of_copyFrom hcopy with
    | oversized hlong => exact ⟨rfl, .inl ⟨hlong, rfl, rfl⟩⟩
    | noMemory hsome hfits hblock => exact ⟨rfl, .inr ⟨hfits, rfl, hcopied, hfull, hblock, rfl⟩⟩
  · cases hresult
  · cases hresult

include ha hc hinput in
/-- By whichever strategy, an input is answered with a raw buffer that denotes it, or refused for
its length, or for want of memory. -/
theorem marshals_input : m.Marshals s bytes result s' m' := by
  cases result with
  | error fault =>
      obtain ⟨rfl, hreason⟩ := input_error hinput rfl
      constructor
      case oversized =>
        intro hlong
        rcases hreason with ⟨-, rfl, rfl⟩ | ⟨hlimit, -⟩
        · exact ⟨rfl, rfl, rfl⟩
        · exact absurd hlong (Nat.not_lt.mpr hlimit)
      case denotes => exact fun raw hok => (nomatch hok)
      case aliases => exact fun raw hok => (nomatch hok)
      case fails =>
        intro other hother hlimit
        cases hother
        rcases hreason with ⟨hlong, -⟩ | ⟨-, hfault, hcopied, hfull, hrefused, hpools⟩
        · exact absurd hlimit (Nat.not_le.mpr hlong)
        · exact ⟨hfault, hcopied, hfull, rfl, hrefused, hpools⟩
      case owned => simp [Except.toOption]
  | ok raw =>
      obtain ⟨hlimit, hsize, hway⟩ := input_ok ha hc hinput rfl
      obtain ⟨made, hlends⟩ := lends_input ha hinput
      obtain ⟨rest, ha', hc'⟩ := hlends.tends.made ha hc
      have hintact := hlends.backing.intact ha' hc' (.buffer bytes secrecy s.wipePublic raw)
        (by simp [Except.toOption])
      constructor
      case oversized => exact fun hlong => absurd hlimit (Nat.not_le.mpr hlong)
      case denotes =>
        intro _ hok
        cases hok
        refine ⟨?_, ?_, hintact.denotes, hintact.within⟩
        · rw [hsize, toInt_ofNat_of_le hlimit]
        · rcases hway with ⟨hnone, hnull, -⟩ | ⟨-, hfull, hhost, -⟩ |
            ⟨-, hfull, ⟨id, start, hnative⟩, -⟩
          · exact iff_of_true hnull hnone
          · exact iff_of_false (by simp [hhost]) hfull
          · exact iff_of_false (by simp [hnative]) hfull
      case aliases =>
        intro _ hok
        cases hok
        rcases hway with ⟨hnone, hnull, -⟩ | ⟨hlent, hfull, hhost, -⟩ |
          ⟨hcopied, hfull, ⟨id, start, hnative⟩, -⟩
        · simp [hnone, hnull, Pointer.isHost]
        · simp [hlent, hfull, hhost, Pointer.isHost]
        · simp [hcopied, hnative, Pointer.isHost]
      case fails => exact fun fault herror => (nomatch herror)
      case owned =>
        rcases hway with ⟨hnone, -, howned⟩ | ⟨hlent, -, -, howned⟩ | ⟨hcopied, hfull, -, howned⟩
        · simp [hnone, howned]
        · simp [hlent, howned]
        · simp [hcopied, hfull, howned, Except.toOption]

end

end Memory

/-- The pointers that a loan hands to native code. -/
def Loan.pointers : Loan → List Pointer
  | .buffer _ _ _ raw => [raw.data]
  | .batch _ raw => [raw.data, raw.sizes]

/-- The pointers of a batch lead into native memory, if anywhere. -/
theorem OwnedBatch.isHost_raw (b : OwnedBatch) :
    b.raw.data.isHost = false ∧ b.raw.sizes.isHost = false := by
  have hblock : ∀ id? : Option BlockId, (Pointer.ofBlock? id?).isHost = false := fun id? => by
    cases id? <;> rfl
  exact ⟨hblock b.data?, hblock b.sizes?⟩

namespace OpenScope

variable {o : OpenScope} {m : Memory}

/-- A scope that copies has handed out no pointer to host memory. -/
def Sheltered (o : OpenScope) : Prop :=
  o.scope.strategy = .ownedCopy → ∀ l ∈ o.loans, ∀ p ∈ l.pointers, p.isHost = false

/-- Some loans more, of a scope that keeps its strategy. -/
theorem Sheltered.lends {more : List Loan} {s' : Scope} (ho : o.Sheltered)
    (hstrategy : s'.strategy = o.scope.strategy)
    (hmore : o.scope.strategy = .ownedCopy → ∀ l ∈ more, ∀ p ∈ l.pointers, p.isHost = false) :
    ({ scope := s', loans := more ++ o.loans } : OpenScope).Sheltered := by
  intro hcopied l hl
  rw [hstrategy] at hcopied
  rcases List.mem_append.mp hl with hl | hl
  · exact hmore hcopied l hl
  · exact ho hcopied l hl

theorem Sheltered.input {others : List Holder} (ho : o.Sheltered)
    (ha : m.Accounts ([o.holder] ++ others)) (hc : m.Clean ([o.holder] ++ others)) (bytes : Bytes)
    (secrecy : Secrecy) : (o.input bytes secrecy m).1.Sheltered := by
  rcases hinput : m.input o.scope bytes secrecy with ⟨result, s', m'⟩
  obtain ⟨made, hlends⟩ := Memory.lends_input ha hinput
  have hmarshals := Memory.marshals_input ha hc hinput
  unfold OpenScope.input
  rw [hinput]
  refine ho.lends (by rw [hlends.scope]) fun hcopied l hl => ?_
  cases result with
  | error fault => cases hl
  | ok raw =>
      cases List.mem_singleton.mp hl
      intro p hp
      rw [List.mem_singleton.mp hp, ← Bool.not_eq_true, (hmarshals.aliases raw rfl).2, hcopied]
      exact fun hlent => nomatch hlent.1

theorem Sheltered.inputBatch (ho : o.Sheltered) (items : List Bytes) :
    (o.inputBatch items m).1.Sheltered := by
  rcases hinput : m.inputBatch o.scope items with ⟨result, s', m'⟩
  obtain ⟨made, hlends⟩ := Memory.lends_inputBatch hinput
  unfold OpenScope.inputBatch
  rw [hinput]
  refine ho.lends (by rw [hlends.scope]) fun _ l hl => ?_
  rcases Memory.inputBatch_answer hinput with ⟨_, _, -, -, -, rfl⟩ | ⟨b, _, -, -, -, rfl⟩
  · cases hl
  · cases List.mem_singleton.mp hl
    intro p hp
    simp only [Loan.pointers, List.mem_cons, List.not_mem_nil, or_false] at hp
    rcases hp with rfl | rfl
    · exact b.isHost_raw.1
    · exact b.isHost_raw.2

end OpenScope

namespace Lending

variable {t : Lending} {o : OpenScope} {n : Nat}

/-- All open scopes are sheltered. -/
def Sheltered (t : Lending) : Prop := ∀ o ∈ t.scopes, o.Sheltered

theorem Sheltered.settle {change : OpenScope × Memory} (hs : t.Sheltered)
    (hchange : change.1.Sheltered) : (t.settle n change).Sheltered := by
  intro o ho
  rcases List.mem_or_eq_of_mem_set ho with ho | rfl
  · exact hs o ho
  · exact hchange

theorem Sheltered.onScope {f : OpenScope → Lending} (hs : t.Sheltered)
    (hf : ∀ o, t.scopes[n]? = some o → o.Sheltered → (f o).Sheltered) :
    (t.onScope n f).Sheltered := by
  unfold Lending.onScope
  split
  · exact hs
  · exact hf _ ‹_› (hs _ (List.mem_of_getElem? ‹_›))

/-- No step hands out a pointer to host memory on behalf of a scope that copies. -/
theorem Sheltered.step (hs : t.Sheltered) (hsound : t.Sound) (u : Step) : (t.step u).Sheltered := by
  cases u with
  | work op => exact hs
  | follow s =>
      simp only [Lending.step]
      split
      · intro o ho
        rcases List.mem_append.mp ho with ho | ho
        · exact hs o ho
        · rw [List.mem_singleton.mp ho]
          exact fun _ l hl => absurd hl List.not_mem_nil
      · exact hs
  | input n bytes secrecy =>
      refine hs.onScope fun o hn ho => hs.settle ?_
      obtain ⟨ha, hc⟩ := hsound.apart hn
      exact ho.input ha hc bytes secrecy
  | inputBatch n items => exact hs.onScope fun o _ ho => hs.settle (ho.inputBatch items)
  | flag n wipePublic => exact hs.onScope fun o _ ho => hs.settle ho
  | equip n id =>
      refine hs.onScope fun o _ ho => ?_
      split
      · exact Sheltered.settle (t := t.spend (.pool id)) hs ho
      · exact hs
  | close n => exact hs.onScope fun _ _ _ o ho => hs o (List.mem_of_mem_eraseIdx ho)

theorem sheltered_afterSteps (steps : List Step) :
    (afterSteps steps).Sound ∧ (afterSteps steps).Sheltered := by
  have hnew : Sound {} ∧ Sheltered {} := ⟨sound_afterSteps [], fun o ho => (nomatch ho)⟩
  exact List.foldlRecOn (motive := fun t => t.Sound ∧ t.Sheltered) steps Lending.step hnew
    fun _ hs u _ => ⟨hs.1.step u, hs.2.step hs.1 u⟩

/-- After every run and for each open scope, both strategies marshal every input alike; and over the
whole life of a scope that was opened for a forced copy, or for a call that does more than one round
trip, nothing that was handed to native code leads to host memory. -/
theorem marshalling_alike (steps : List Step) (o : OpenScope)
    (ho : o ∈ (afterSteps steps).scopes) :
    (∀ strategy bytes secrecy result s' m',
      (afterSteps steps).memory.input (o.scope.under strategy) bytes secrecy = (result, s', m') →
        (afterSteps steps).memory.Marshals (o.scope.under strategy) bytes result s' m') ∧
    ∀ shape forceOwned, o.scope.strategy = .select shape forceOwned →
      (forceOwned = true ∨ shape ≠ .singleRoundTrip) →
        ∀ l ∈ o.loans, ∀ p ∈ l.pointers, p.isHost = false := by
  obtain ⟨hsound, hsheltered⟩ := sheltered_afterSteps steps
  constructor
  · intro strategy bytes secrecy result s' m' hinput
    obtain ⟨n, hn⟩ := List.getElem?_of_mem ho
    obtain ⟨ha, hc⟩ := hsound.apart hn
    have hsame : SameHoldings ([o.holder] ++ (afterSteps steps).besides n)
        ([.scope (o.scope.under strategy)] ++ (afterSteps steps).besides n) :=
      ((Memory.holdings_scope o.scope).trans
        (Memory.holdings_scope (o.scope.under strategy)).symm).append_right _
    exact Memory.marshals_input (ha.congr hsame.stakes) (hc.congr hsame) hinput
  · intro shape forceOwned hstrategy hcall
    refine hsheltered o ho ?_
    rw [hstrategy]
    cases forceOwned <;> cases shape <;> first | rfl | simp at hcall

/-- Beside a pool whose only block is taken, the scope that is left there may lend what it is given
next; so far it has copied, and handed out nothing of the host. -/
theorem marshalling_alike_shared :
    mixedScope ∈ (afterSteps sharedPool).scopes ∧
      (afterSteps sharedPool).memory.Marshals (mixedScope.scope.under .borrowedView) [5, 6]
        (.ok ⟨.host [5, 6], 2⟩) (mixedScope.scope.under .borrowedView)
        (afterSteps sharedPool).memory ∧
      ∀ l ∈ mixedScope.loans, ∀ p ∈ l.pointers, p.isHost = false :=
  have hmem : mixedScope ∈ (afterSteps sharedPool).scopes := by decide
  ⟨hmem, (marshalling_alike sharedPool mixedScope hmem).1 .borrowedView [5, 6] .secret _ _ _ rfl,
    (marshalling_alike sharedPool mixedScope hmem).2 .mayBlock false rfl (.inr (by decide))⟩

end Lending

end NativeBoundary

import NativeBoundary.Proofs.Process.Teardown

/-!
# Open scopes

A run of a process in which the loans of some scopes are written down: what each scope was given,
what it returned for it, and whether it was to wipe public copies at that time.  Everything else may
happen in between, to other scopes, which may use the same pools, as well as to buffers, batches and
blocks in other hands.  Native code only reads what it was lent.

After every run each loan of each open scope is intact, the regions that native code sees do not
overlap, and a scope that is closed now gives up its loans one by one, the last one first.

* `Lending.step`, `Lending.afterSteps` — such runs;
* `Lending.Sound.step` — the invariant: the books agree, pools are clean, and behind the loans of a
  scope there stand its copies, in order;
* `Lending.loans_stand` — what follows from it after every run.
-/

namespace NativeBoundary

open Memory (Backing SameHoldings)

/-- A scope that is open, with its loans, newest first. -/
structure OpenScope where
  scope : Scope
  loans : List Loan := []
deriving DecidableEq, Repr

namespace OpenScope

/-- A scope as a holder. -/
def holder (o : OpenScope) : Holder := .scope o.scope

/-- An input, written down if it is answered with a raw buffer. -/
def input (o : OpenScope) (bytes : Bytes) (secrecy : Secrecy) (m : Memory) : OpenScope × Memory :=
  let (result, scope, m) := m.input o.scope bytes secrecy
  ({ scope, loans := result.toOption.toList.map (.buffer bytes secrecy o.scope.wipePublic) ++
      o.loans }, m)

/-- A batch, written down if it is answered with a raw batch. -/
def inputBatch (o : OpenScope) (items : List Bytes) (m : Memory) : OpenScope × Memory :=
  let (result, scope, m) := m.inputBatch o.scope items
  ({ scope, loans := result.toOption.toList.map (.batch items) ++ o.loans }, m)

end OpenScope

/-- A ledger beside the scopes whose loans are written down. -/
structure Lending where
  ledger : Ledger := {}
  scopes : List OpenScope := []

namespace Lending

/-- What is done in a process. -/
inductive Step
  | work (op : Process.Operation)
  /-- From now on the loans of a scope are written down.  It has made no copy yet. -/
  | follow (s : Scope)
  | input (n : Nat) (bytes : Bytes) (secrecy : Secrecy)
  | inputBatch (n : Nat) (items : List Bytes)
  | flag (n : Nat) (wipePublic : Bool)
  /-- The scope takes over a pool value. -/
  | equip (n : Nat) (id : PoolId)
  | close (n : Nat)

/-- The memory of the process. -/
def memory (t : Lending) : Memory := t.ledger.memory

/-- Everybody who holds native memory. -/
def holders (t : Lending) : List Holder := t.ledger.holders ++ t.scopes.map OpenScope.holder

/-- Without a holder that was used up. -/
def spend (t : Lending) (x : Holder) : Lending :=
  { t with ledger := { t.ledger with holders := t.ledger.holders.erase x } }

/-- What a change of one scope leaves behind. -/
def settle (t : Lending) (n : Nat) (change : OpenScope × Memory) : Lending where
  ledger := { t.ledger with process := t.ledger.process.setMemory change.2 }
  scopes := t.scopes.set n change.1

/-- What happens to one open scope.  Without a scope of that number nothing does. -/
def onScope (t : Lending) (n : Nat) (f : OpenScope → Lending) : Lending :=
  match t.scopes[n]? with
  | none => t
  | some o => f o

/-- One step. -/
def step (t : Lending) : Step → Lending
  | .work op => { t with ledger := t.ledger.work op }
  | .follow s =>
      if .scope s ∈ t.ledger.holders ∧ s.copies = [] then
        { t.spend (.scope s) with scopes := t.scopes ++ [{ scope := s }] }
      else t
  | .input n bytes secrecy => t.onScope n fun o => t.settle n (o.input bytes secrecy t.memory)
  | .inputBatch n items => t.onScope n fun o => t.settle n (o.inputBatch items t.memory)
  | .flag n wipePublic => t.onScope n fun o =>
      t.settle n ({ o with scope := o.scope.wipingPublic wipePublic }, t.memory)
  | .equip n id => t.onScope n fun o =>
      if .pool id ∈ t.ledger.holders then
        let (scope, m) := t.memory.equip o.scope id
        (t.spend (.pool id)).settle n ({ o with scope }, m)
      else t
  | .close n => t.onScope n fun o =>
      { t.settle n (o, t.memory.endScope o.scope) with scopes := t.scopes.eraseIdx n }

/-- What there is after some steps in a new process. -/
def afterSteps (steps : List Step) : Lending := steps.foldl step {}

variable {t : Lending} {o o' : OpenScope} {n : Nat} {m : Memory}

/-- The books agree with the holders, pools are clean, and behind the loans of each scope there
stand its copies. -/
structure Sound (t : Lending) : Prop where
  accounts : t.memory.Accounts t.holders
  clean : t.memory.Clean t.holders
  backing : ∀ o ∈ t.scopes, t.memory.Backing o.loans o.scope.copies

/-- Whoever holds native memory beside one of the open scopes. -/
def besides (t : Lending) (n : Nat) : List Holder :=
  t.ledger.holders ++ (t.scopes.eraseIdx n).map OpenScope.holder

theorem perm_holders (hn : t.scopes[n]? = some o) : t.holders.Perm (o.holder :: t.besides n) := by
  obtain ⟨hlt, rfl⟩ := List.getElem?_eq_some_iff.mp hn
  have hscopes := (List.getElem_cons_eraseIdx_perm hlt).symm.map OpenScope.holder
  exact (hscopes.append_left t.ledger.holders).trans List.perm_middle

/-- The books, with one scope in front. -/
theorem Sound.apart (hs : t.Sound) (hn : t.scopes[n]? = some o) :
    t.memory.Accounts ([o.holder] ++ t.besides n) ∧ t.memory.Clean ([o.holder] ++ t.besides n) := by
  have hperm : SameHoldings t.holders ([o.holder] ++ t.besides n) := .of_perm (perm_holders hn)
  exact ⟨hs.accounts.congr hperm.stakes, hs.clean.congr hperm⟩

/-- A scope changes, and whoever there is beside it is left alone. -/
theorem sound_settle {old : List Holder} (hn : t.scopes[n]? = some o)
    (ha : t.memory.Accounts (old ++ t.besides n)) (hc : t.memory.Clean (old ++ t.besides n))
    (hb : ∀ o ∈ t.scopes, t.memory.Backing o.loans o.scope.copies)
    (ht : t.memory.Tends old m [o'.holder]) (hown : m.Backing o'.loans o'.scope.copies) :
    (t.settle n (o', m)).Sound := by
  have hdone := ht _ ha hc
  have hlt : n < t.scopes.length := (List.getElem?_eq_some_iff.mp hn).1
  have hscopes : (t.scopes.set n o').Perm (o' :: t.scopes.eraseIdx n) :=
    List.set_perm_cons_eraseIdx hlt o'
  have hholders : ([o'.holder] ++ t.besides n).Perm (t.settle n (o', m)).holders :=
    (((hscopes.map OpenScope.holder).append_left t.ledger.holders).trans List.perm_middle).symm
  have hsame := SameHoldings.of_perm hholders
  refine ⟨hdone.accounts.congr hsame.stakes, hdone.clean.congr hsame, fun k hk => ?_⟩
  rcases List.mem_cons.mp (hscopes.mem_iff.mp hk) with rfl | hk
  · exact hown
  · refine (hb k (List.mem_of_mem_eraseIdx hk)).congr ((hdone.respects ha hc).scope ?_)
    exact List.mem_append_right _ (List.mem_map_of_mem hk)

/-- A scope that gets some loans more. -/
theorem Sound.lends {more : List Loan} {made : List ScopeCopy} {s' : Scope} (hs : t.Sound)
    (hn : t.scopes[n]? = some o) (hl : t.memory.Lends o.scope more m s' made) :
    (t.settle n ({ scope := s', loans := more ++ o.loans }, m)).Sound := by
  obtain ⟨ha, hc⟩ := hs.apart hn
  have hb := hs.backing o (List.mem_of_getElem? hn)
  exact sound_settle hn ha hc hs.backing hl.tends_scope (hl.backing_append hb ha hc)

theorem Sound.input (hs : t.Sound) (hn : t.scopes[n]? = some o) (bytes : Bytes)
    (secrecy : Secrecy) : (t.settle n (o.input bytes secrecy t.memory)).Sound := by
  rcases hc : t.memory.input o.scope bytes secrecy with ⟨result, s', m⟩
  obtain ⟨made, hl⟩ := Memory.lends_input hs.accounts hc
  unfold OpenScope.input
  rw [hc]
  exact hs.lends hn hl

theorem Sound.inputBatch (hs : t.Sound) (hn : t.scopes[n]? = some o) (items : List Bytes) :
    (t.settle n (o.inputBatch items t.memory)).Sound := by
  rcases hc : t.memory.inputBatch o.scope items with ⟨result, s', m⟩
  obtain ⟨made, hl⟩ := Memory.lends_inputBatch hc
  unfold OpenScope.inputBatch
  rw [hc]
  exact hs.lends hn hl

/-- The rule for public copies changes nothing that a scope holds. -/
theorem Sound.flag (hs : t.Sound) (hn : t.scopes[n]? = some o) (wipePublic : Bool) :
    (t.settle n ({ o with scope := o.scope.wipingPublic wipePublic }, t.memory)).Sound := by
  obtain ⟨ha, hc⟩ := hs.apart hn
  refine sound_settle hn ha hc hs.backing ?_ (hs.backing o (List.mem_of_getElem? hn))
  exact (Memory.Tends.refl _ _).congr (.refl _)
    ⟨⟨fun _ => rfl, fun _ => rfl, fun _ => rfl⟩, fun _ => .rfl⟩

/-- A scope that takes over a pool value keeps its loans, those in its old pool among them. -/
theorem Sound.equip (hs : t.Sound) (hn : t.scopes[n]? = some o) {id : PoolId}
    (hid : .pool id ∈ t.ledger.holders) :
    ((t.spend (.pool id)).settle n ({ o with scope := (t.memory.equip o.scope id).1 },
      (t.memory.equip o.scope id).2)).Sound := by
  have hpool : (t.besides n).Perm (.pool id :: (t.spend (.pool id)).besides n) :=
    (List.perm_cons_erase hid).append_right _
  have hsame : SameHoldings ([o.holder] ++ t.besides n)
      ([o.holder, .pool id] ++ (t.spend (.pool id)).besides n) :=
    .append_left (.of_perm hpool) [o.holder]
  obtain ⟨ha, hc⟩ := hs.apart hn
  refine sound_settle (t := t.spend (.pool id)) hn (ha.congr hsame.stakes) (hc.congr hsame)
    hs.backing (Memory.tends_equip _ _ _) ?_
  have hrespects := (Memory.tends_leavePool t.memory o.scope).respects ha hc
  exact (hs.backing o (List.mem_of_getElem? hn)).congr hrespects.left

/-- The end of a scope leaves the loans of the others alone. -/
theorem Sound.close (hs : t.Sound) (hn : t.scopes[n]? = some o) :
    ({ t.settle n (o, t.memory.endScope o.scope) with scopes := t.scopes.eraseIdx n }).Sound := by
  obtain ⟨ha, hc⟩ := hs.apart hn
  have hdone := Memory.tends_endScope t.memory o.scope _ ha hc
  refine ⟨hdone.accounts, hdone.clean, fun k hk => ?_⟩
  refine (hs.backing k (List.mem_of_mem_eraseIdx hk)).congr ((hdone.respects ha hc).scope ?_)
  exact List.mem_append_right _ (List.mem_map_of_mem hk)

/-- Work elsewhere in the process leaves all loans alone. -/
theorem Sound.work (hs : t.Sound) (op : Process.Operation) :
    ({ t with ledger := t.ledger.work op }).Sound := by
  have hdone := Ledger.tended_work op hs.accounts hs.clean
  refine ⟨hdone.accounts, hdone.clean, fun o ho => (hs.backing o ho).congr ?_⟩
  exact (hdone.respects hs.accounts hs.clean).scope (List.mem_map_of_mem ho)

/-- A scope without copies has no loans. -/
theorem Sound.follow (hs : t.Sound) {s : Scope} (hmem : .scope s ∈ t.ledger.holders)
    (hnone : s.copies = []) :
    Sound { t.spend (.scope s) with scopes := t.scopes ++ [{ scope := s }] } := by
  have hperm : t.holders.Perm (t.ledger.holders.erase (.scope s) ++
      (t.scopes ++ [({ scope := s } : OpenScope)]).map OpenScope.holder) := by
    refine ((List.perm_cons_erase hmem).append_right _).trans ?_
    rw [List.map_append, ← List.append_assoc]
    exact (List.perm_append_singleton _ _).symm
  have hsame := SameHoldings.of_perm hperm
  refine ⟨hs.accounts.congr hsame.stakes, hs.clean.congr hsame, fun o ho => ?_⟩
  rcases List.mem_append.mp ho with ho | ho
  · exact hs.backing o ho
  · rw [List.mem_singleton.mp ho, hnone]
    exact .nil

theorem Sound.onScope (hs : t.Sound) {f : OpenScope → Lending}
    (hf : ∀ o, t.scopes[n]? = some o → (f o).Sound) : (t.onScope n f).Sound := by
  unfold Lending.onScope
  split
  · exact hs
  · exact hf _ ‹_›

/-- Every step keeps the invariant. -/
theorem Sound.step (hs : t.Sound) (u : Step) : (t.step u).Sound := by
  cases u with
  | work op => exact hs.work op
  | follow s =>
      simp only [Lending.step]
      split
      · rename_i hmem
        exact hs.follow hmem.1 hmem.2
      · exact hs
  | input n bytes secrecy => exact hs.onScope fun o hn => hs.input hn bytes secrecy
  | inputBatch n items => exact hs.onScope fun o hn => hs.inputBatch hn items
  | flag n wipePublic => exact hs.onScope fun o hn => hs.flag hn wipePublic
  | equip n id =>
      refine hs.onScope fun o hn => ?_
      split
      · exact hs.equip hn ‹_›
      · exact hs
  | close n => exact hs.onScope fun o hn => hs.close hn

/-- So it holds after every run. -/
theorem sound_afterSteps (steps : List Step) : (afterSteps steps).Sound := by
  have hnew : Sound {} :=
    ⟨Memory.accounts_empty, Memory.clean_empty, fun o ho => (nomatch ho)⟩
  exact List.foldlRecOn steps Lending.step hnew fun _ hs u _ => hs.step u

/-- All open scopes hold what all of their copies and their pools do. -/
theorem holdings_scopes (scopes : List OpenScope) :
    SameHoldings (scopes.map OpenScope.holder)
      ((scopes.flatMap (·.scope.copies)).map ScopeCopy.holder ++
        scopes.flatMap (·.scope.poolHolder)) := by
  induction scopes with
  | nil => exact .refl []
  | cons o scopes ih =>
      have hfirst := (Memory.holdings_scope o.scope).append_right (scopes.map OpenScope.holder)
      refine hfirst.trans ((ih.append_left _).trans ?_)
      rw [List.flatMap_cons, List.flatMap_cons, List.map_append, List.append_assoc,
        List.append_assoc]
      exact .append_left (.swap _ _ _) _

/-- The loans of all open scopes together. -/
def loans (t : Lending) : List Loan := t.scopes.flatMap (·.loans)

/-- Behind all of these loans there stand all of the copies. -/
theorem Sound.backing_all (hs : t.Sound) :
    t.memory.Backing t.loans (t.scopes.flatMap (·.scope.copies)) := by
  have hall : ∀ scopes : List OpenScope,
      (∀ o ∈ scopes, t.memory.Backing o.loans o.scope.copies) →
        t.memory.Backing (scopes.flatMap (·.loans)) (scopes.flatMap (·.scope.copies)) := by
    intro scopes hscopes
    induction scopes with
    | nil => exact .nil
    | cons o scopes ih =>
        exact (hscopes o List.mem_cons_self).append
          (ih fun k hk => hscopes k (List.mem_cons_of_mem _ hk))
  exact hall t.scopes hs.backing

/-- The loans are intact, and their regions do not overlap. -/
theorem Sound.intact (hs : t.Sound) :
    (∀ l ∈ t.loans, l.Intact t.memory.heap) ∧
      (t.loans.flatMap Loan.regions).Pairwise Region.Apart := by
  have hmove : SameHoldings t.holders ((t.scopes.flatMap (·.scope.copies)).map ScopeCopy.holder ++
      (t.scopes.flatMap (·.scope.poolHolder) ++ t.ledger.holders)) := by
    have hswap : SameHoldings t.holders (t.scopes.map OpenScope.holder ++ t.ledger.holders) :=
      .of_perm List.perm_append_comm
    rw [← List.append_assoc]
    exact hswap.trans ((holdings_scopes t.scopes).append_right t.ledger.holders)
  have ha := hs.accounts.congr hmove.stakes
  have hc := hs.clean.congr hmove
  exact ⟨hs.backing_all.intact ha hc, (hs.backing_all.apart ha hc).2⟩

/-- Each scope has made as many copies as it has loans with a copy. -/
theorem Sound.owned_eq (hs : t.Sound) (ho : o ∈ t.scopes) :
    o.scope.owned = o.loans.countP Loan.isCopied := by
  refine (hs.backing o ho).length_eq fun b hb => ?_
  rw [Memory.poolBlocksOf_copies] at hb
  have hholder : o.holder ∈ t.holders := List.mem_append_right _ (List.mem_map_of_mem ho)
  obtain ⟨p, hp, -⟩ := hs.accounts.index_lt (List.mem_flatMap.mpr ⟨_, hholder, hb⟩)
  simp [hp]

end Lending

/-- What the end of a scope does.  Its loans end one by one, the newest first, and then its pool has
one user fewer; every region that a loan showed was given up, once. -/
structure OpenScope.Closes (o : OpenScope) (m m' : Memory) : Prop where
  teardown : ∃ emptied, m.Teardown o.loans emptied ∧
    m' = o.scope.pool?.elim emptied emptied.dropPool
  once : ∀ r ∈ o.loans.flatMap Loan.regions, r.GivenUp m m'

namespace Lending

variable {t : Lending} {o : OpenScope} {n : Nat}

theorem Sound.closes (hs : t.Sound) (hn : t.scopes[n]? = some o) :
    o.Closes t.memory (t.memory.endScope o.scope) := by
  obtain ⟨ha, hc⟩ := hs.apart hn
  have hparts : SameHoldings ([o.holder] ++ t.besides n)
      (o.scope.copies.map ScopeCopy.holder ++ (o.scope.poolHolder ++ t.besides n)) := by
    rw [← List.append_assoc]
    exact (Memory.holdings_scope o.scope).append_right (t.besides n)
  have ha' := ha.congr hparts.stakes
  have hc' := hc.congr hparts
  have hb := hs.backing o (List.mem_of_getElem? hn)
  refine ⟨⟨_, hb.teardown ha' hc', ?_⟩, fun r hr => ?_⟩
  · unfold Memory.endScope
    cases o.scope.pool? <;> rfl
  · have htaken := ((hb.apart ha' hc').1 r hr).left o.scope.poolHolder
    rw [← List.append_assoc] at ha'
    exact htaken.givenUp ha' (Memory.tends_endScope t.memory o.scope _ ha hc)

/-- After every run the loans of open scopes are intact and apart from each other, and each scope has
made as many copies as it has loans with a copy; a scope that is closed then gives up its loans, the
last one first, each once. -/
theorem loans_stand (steps : List Step) :
    (∀ l ∈ (afterSteps steps).loans, l.Intact (afterSteps steps).memory.heap) ∧
    ((afterSteps steps).loans.flatMap Loan.regions).Pairwise Region.Apart ∧
    (∀ o ∈ (afterSteps steps).scopes, o.scope.owned = o.loans.countP Loan.isCopied) ∧
    ∀ n (o : OpenScope), (afterSteps steps).scopes[n]? = some o →
      o.Closes (afterSteps steps).memory ((afterSteps steps).step (.close n)).memory := by
  have hs := sound_afterSteps steps
  refine ⟨hs.intact.1, hs.intact.2, fun o ho => ?_, fun n o hn => ?_⟩
  · exact hs.owned_eq ho
  · have hclosed := hs.closes hn
    simp only [step, onScope, hn]
    exact hclosed

/-- Two scopes share a pool of one block.  The first has a copy in the pool, one on the heap that was
made when public copies were to be wiped, and a batch; the second has ended in between. -/
def sharedPool : List Step :=
  [.work (.memory (.createPool 1 4)),
    .work (.memory (.openScope .ownedCopy (some 0) false)),
    .work (.memory (.openScope .ownedCopy (some 0) false)),
    .follow { strategy := .ownedCopy, pool? := some 0 },
    .follow { strategy := .ownedCopy, pool? := some 0 },
    .input 0 [1, 2, 3] .exposed, .input 1 [4, 5] .secret, .flag 0 true, .input 0 [6] .exposed,
    .inputBatch 0 [[7], [], [8, 9]], .close 1]

/-- The scope that is left. -/
def mixedScope : OpenScope where
  scope :=
    { strategy := .ownedCopy
      pool? := some 0
      wipePublic := true
      copies :=
        [.batch { data? := some 4, sizes? := some 3, count := 3, total := 3, secrecy := .secret },
          .heap { block? := some 2, length := 1, secrecy := .exposed, wipePublic := true },
          .pooled { pool := 0, index := 0, length := 3 }] }
  loans :=
    [.batch [[7], [], [8, 9]] ⟨.native 4 0, .native 3 0, 3⟩,
      .buffer [6] .exposed true ⟨.native 2 0, 1⟩, .buffer [1, 2, 3] .exposed false ⟨.native 0 0, 3⟩]

theorem loans_stand_shared :
    (afterSteps sharedPool).scopes[0]? = some mixedScope ∧
      (∀ l ∈ (afterSteps sharedPool).loans, l.Intact (afterSteps sharedPool).memory.heap) ∧
      mixedScope.Closes (afterSteps sharedPool).memory
        ((afterSteps sharedPool).step (.close 0)).memory :=
  ⟨by decide, (loans_stand sharedPool).1,
    (loans_stand sharedPool).2.2.2 0 mixedScope (by decide)⟩

end Lending

end NativeBoundary

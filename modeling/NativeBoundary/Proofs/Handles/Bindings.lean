import NativeBoundary.Proofs.Call.Restores

/-!
# Bindings of a thread

Native code may clear the policy slot, so a thread can bind a second policy while the first binding
is still live, and drop the two in any order.  A `ThreadRun` is whatever a thread does with
bindings: it makes them, drops them in any order, looks at the slot, does other work, and runs work
of its own with a policy bound, which may panic.  Every step hands its result to the rest of the
run.  `ThreadState` keeps the books: which bindings are live and what they bind, which of them end
with the work that is going on, so that nobody else may drop them, and which one was made last.

The invariant (`ThreadState.Kept`) has three parts.  Every live binding is registered with its own
policy, under a handle of its own.  The slot is null, or holds the binding that was made last, which
is then live.  And no policy is registered but those of live bindings and those that were there when
the run began.  Each kind of step keeps it: a new handle is registered nowhere
(`Registries.Issued.fresh`), a binding that ends takes only its own handle away, and other work may
not touch either.

* `ThreadState.Disciplined` — what follows for the slot, the current policy, the next binding and
  the end of any live one;
* `ThreadRun.disciplined` — it holds in every state of every run that begins with an empty slot;
* `Ledger.bindings_disciplined` — in particular after everything that a process may have done
  before.
-/

namespace NativeBoundary

/-- Whether an object is a policy that some thread has bound. -/
def Object.isPolicy : Object → Bool
  | policy _ => true
  | value _ | transport _ => false

/-- Whether an operation leaves bindings alone: it makes and ends none, puts nothing into the slot,
and releases no handle of a live one.  Clearing the slot is allowed. -/
def Process.Operation.sparesBindings (live : List Handle) : Process.Operation → Bool
  | setSlot _ | unbind _ => false
  | op =>
      (op.registered?.all fun x => !x.2.isPolicy) &&
        op.released?.all fun x => !(x.1 = globalRegistry ∧ x.2 ∈ live)

/-- A thread and its bindings. -/
structure ThreadState where
  process : Process
  /-- The live bindings with their policies. -/
  live : List (Binding × Policy) := []
  /-- The bindings that end with the work that is going on, innermost first. -/
  around : List Binding := []
  /-- The binding that was made last, live or not. -/
  newest? : Option Binding := none

namespace ThreadState

/-- Whether there is a binding that may be dropped. -/
def holds (s : ThreadState) (b : Binding) : Bool :=
  (s.live.map Prod.fst).contains b && !s.around.contains b

/-- The state with a binding that was just made. -/
def adopt (s : ThreadState) (b : Binding) (policy : Policy) : ThreadState :=
  { s with live := (b, policy) :: s.live, newest? := some b }

/-- The binding that would be made next. -/
def upcoming (s : ThreadState) : Binding := ⟨Handle.issue s.process.registries.issued⟩

/-- Binds a policy. -/
def bind (s : ThreadState) (policy : Policy) : Except Fault Binding × ThreadState :=
  match s.process.bind policy with
  | (.ok b, p) => (.ok b, ({ s with process := p } : ThreadState).adopt b policy)
  | (.error fault, p) => (.error fault, { s with process := p })

/-- Ends a binding. -/
def drop (s : ThreadState) (b : Binding) : ThreadState :=
  { s with process := s.process.unbind b, live := s.live.filter (·.1 ≠ b) }

/-- Drops a binding.  A binding that is not live, or that ends with the work that is going on,
cannot be dropped. -/
def unbind (s : ThreadState) (b : Binding) : ThreadState := if s.holds b then s.drop b else s

/-- Does other work.  Work that does not leave bindings alone is not done. -/
def work (s : ThreadState) (op : Process.Operation) : ThreadState :=
  if op.sparesBindings (s.live.map (·.1.handle)) then
    { s with process := (op.effect s.process).process }
  else s

/-- The state in which work begins with a policy bound. -/
def enter (s : ThreadState) (policy : Policy) (p : Process) : ThreadState :=
  { ({ s with process := p } : ThreadState).adopt s.upcoming policy with
    around := s.upcoming :: s.around }

/-- The state in which work has ended that began in `s` with a policy bound. -/
def leave (s t : ThreadState) (p : Process) : ThreadState :=
  { t with process := p, live := t.live.filter (·.1 ≠ s.upcoming), around := s.around }

/-- Runs work with a policy bound. -/
def withPolicy (s : ThreadState) (policy : Policy)
    (body : ThreadState → Option String × ThreadState) :
    Except Fault (Option String) × ThreadState :=
  let work (p : Process) : (Option String × ThreadState) × Process :=
    let ended := body (s.enter policy p)
    (ended, ended.2.process)
  match s.process.withPolicy policy work with
  | (.error fault, p) => (.error fault, { s with process := p })
  | (.ok (panic?, t), p) => (.ok panic?, s.leave t p)

end ThreadState

/-- What a thread does with bindings. -/
inductive ThreadRun
  /-- The end, or a panic. -/
  | done (panic? : Option String)
  | bind (policy : Policy) (next : Except Fault Binding → ThreadRun)
  | unbind (b : Binding) (next : ThreadRun)
  /-- Asks for the current policy, and whether there is one. -/
  | look (next : Except Fault Policy → Bool → ThreadRun)
  | work (op : Process.Operation) (next : Process → ThreadRun)
  /-- Work with a policy bound; a panic of the work may be caught. -/
  | withPolicy (policy : Policy) (body : ThreadRun)
      (next : Except Fault (Option String) → ThreadRun)

namespace ThreadRun

/-- Runs to the end. -/
def exec : ThreadRun → ThreadState → Option String × ThreadState
  | done panic?, s => (panic?, s)
  | bind policy next, s => (next (s.bind policy).1).exec (s.bind policy).2
  | unbind b next, s => next.exec (s.unbind b)
  | look next, s => (next s.process.currentPolicy s.process.isBound).exec s
  | work op next, s => (next (s.work op).process).exec (s.work op)
  | withPolicy policy body next, s =>
      let step := s.withPolicy policy body.exec
      (next step.1).exec step.2

/-- Whether something holds in every state of a run, those of work with a policy bound among
them. -/
def EveryState (P : ThreadState → Prop) : ThreadRun → ThreadState → Prop
  | done _, s => P s
  | bind policy next, s => P s ∧ (next (s.bind policy).1).EveryState P (s.bind policy).2
  | unbind b next, s => P s ∧ next.EveryState P (s.unbind b)
  | look next, s => P s ∧ (next s.process.currentPolicy s.process.isBound).EveryState P s
  | work op next, s => P s ∧ (next (s.work op).process).EveryState P (s.work op)
  | withPolicy policy body next, s =>
      P s ∧ (s.process.slot = 0 → body.EveryState P (s.enter policy (s.process.bind policy).2)) ∧
        (next (s.withPolicy policy body.exec).1).EveryState P (s.withPolicy policy body.exec).2

end ThreadRun

namespace Process

variable {p : Process}

/-- Making a binding, or not making it. -/
theorem bind_cases (p : Process) (policy : Policy) :
    (p.slot ≠ 0 ∧ p.bind policy = (.error .alreadyBound, p.report .bindingRefused)) ∨
    (p.slot = 0 ∧ ∃ q, p.bind policy = (.ok ⟨Handle.issue p.registries.issued⟩, q) ∧
      p.Binds policy q) := by
  by_cases hfree : p.slot = 0
  · exact .inr ⟨hfree, binds_bind hfree⟩
  · exact .inl ⟨hfree, bind_of_isBound policy (by simp [isBound, hfree])⟩

namespace Operation

theorem issued_le (p : Process) (op : Operation) :
    p.registries.issued ≤ (op.effect p).process.registries.issued := by
  rcases op.registries_cases p with hsame | hcreate | ⟨r, object, -, hregister⟩ |
    ⟨r, handle, -, hrelease⟩
  · exact Nat.le_of_eq (by rw [hsame])
  · exact Nat.le_of_eq (by rw [hcreate]; rfl)
  · rw [hregister]
    exact Nat.le_succ _
  · exact Nat.le_of_eq (by rw [hrelease, Registries.issued_release])

variable {op : Operation} {live : List Handle}

theorem sparesBindings_eq (hspares : op.sparesBindings live = true) :
    (∀ r object, op.registered? = some (r, object) → object.isPolicy = false) ∧
      ∀ handle, op.released? = some (globalRegistry, handle) → handle ∉ live := by
  unfold sparesBindings at hspares
  split at hspares
  · cases hspares
  · cases hspares
  · rw [Bool.and_eq_true] at hspares
    refine ⟨fun r object hregistered => ?_, fun handle hreleased => ?_⟩
    · simpa [hregistered] using hspares.1
    · simpa [hreleased] using hspares.2

/-- Other work leaves the slot as it is or clears it. -/
theorem slot_of_spares (p : Process) (hspares : op.sparesBindings live = true) :
    (op.effect p).process.slot = p.slot ∨ (op.effect p).process.slot = 0 := by
  by_cases hclear : op = clearSlot
  · subst hclear
    exact .inr rfl
  · refine .inl (op.slot_eq p ?_ ?_ ?_ hclear) <;> rintro _ rfl
    · cases (sparesBindings_eq hspares).1 _ _ rfl
    · cases hspares
    · cases hspares

end Operation

end Process

namespace ThreadState

variable {start : Process} {s : ThreadState} {x : Binding × Policy} {policy : Policy}

/-- Slot, registry and live bindings agree. -/
structure Kept (start : Process) (s : ThreadState) : Prop where
  issued : s.process.registries.Issued
  distinct : (s.live.map Prod.fst).Nodup
  resolves : ∀ x ∈ s.live, s.process.lookup? globalRegistry x.1.handle = some (.policy x.2)
  slot : s.process.slot = 0 ∨
    ∃ x ∈ s.live, s.newest? = some x.1 ∧ s.process.slot = x.1.handle.toPointer
  /-- Where a policy comes from that is registered. -/
  origin : ∀ handle policy, s.process.lookup? globalRegistry handle = some (.policy policy) →
    (∃ x ∈ s.live, x.1.handle = handle) ∨
      start.lookup? globalRegistry handle = some (.policy policy)

/-- In the beginning there is no binding. -/
theorem kept_start (hi : start.registries.Issued) (hslot : start.slot = 0) :
    Kept start { process := start } where
  issued := hi
  distinct := .nil
  resolves := fun _ hx => nomatch hx
  slot := .inl hslot
  origin := fun _ _ hsome => .inr hsome

/-- Handles of live bindings were given out. -/
theorem Kept.given (hk : s.Kept start) (hx : x ∈ s.live) :
    ∃ n < s.process.registries.issued, x.1.handle = Handle.issue n := by
  refine hk.issued globalRegistry x.1.handle ?_
  have hsome : s.process.registries.lookup? globalRegistry x.1.handle = _ := hk.resolves x hx
  rw [hsome]
  rfl

/-- The next binding is none of the live ones. -/
theorem Kept.ne_upcoming (hk : s.Kept start) (hroom : s.process.registries.issued < Handle.room)
    (hx : x ∈ s.live) : x.1.handle ≠ Handle.issue s.process.registries.issued := by
  obtain ⟨n, hn, heq⟩ := hk.given hx
  intro hsame
  have := Handle.issue_injective (Nat.lt_trans hn hroom) hroom (heq.symm.trans hsame)
  omega

/-- What leaves the registered policies of live bindings alone, registers no other policy and puts
nothing into the slot keeps what is kept. -/
theorem Kept.change (hk : s.Kept start) {q : Process} (hi : q.registries.Issued)
    (hslot : q.slot = s.process.slot ∨ q.slot = 0)
    (hlive : ∀ x ∈ s.live, q.lookup? globalRegistry x.1.handle =
      s.process.lookup? globalRegistry x.1.handle)
    (hpolicies : ∀ handle policy, q.lookup? globalRegistry handle = some (.policy policy) →
      s.process.lookup? globalRegistry handle = some (.policy policy)) :
    Kept start { s with process := q } where
  issued := hi
  distinct := hk.distinct
  resolves := fun x hx => (hlive x hx).trans (hk.resolves x hx)
  slot := by
    rcases hslot with hsame | hnull
    · exact hsame.symm ▸ hk.slot
    · exact .inl hnull
  origin := fun handle policy hsome => hk.origin handle policy (hpolicies handle policy hsome)

theorem Kept.unchanged (hk : s.Kept start) {q : Process} (hi : q.registries.Issued)
    (hslot : q.slot = s.process.slot ∨ q.slot = 0)
    (hlookup : ∀ handle, q.lookup? globalRegistry handle =
      s.process.lookup? globalRegistry handle) : Kept start { s with process := q } :=
  hk.change hi hslot (fun x _ => hlookup x.1.handle) fun handle _ hsome =>
    (hlookup handle).symm.trans hsome

/-- A binding that was made is live, and stands in the slot. -/
theorem Kept.adopt (hk : s.Kept start) (hroom : s.process.registries.issued < Handle.room)
    {q : Process} (hb : s.process.Binds policy q) :
    Kept start (({ s with process := q } : ThreadState).adopt s.upcoming policy) where
  issued := by
    change q.registries.Issued
    rw [hb.registries]
    exact hk.issued.register _ _
  distinct := by
    refine List.nodup_cons.mpr ⟨fun hmem => ?_, hk.distinct⟩
    obtain ⟨x, hx, heq⟩ := List.mem_map.mp hmem
    exact hk.ne_upcoming hroom hx (congrArg Binding.handle heq)
  resolves := by
    intro x hx
    rcases List.mem_cons.mp hx with rfl | hold
    · exact (hb.lookup _ _).trans (if_pos ⟨rfl, rfl⟩)
    · have hother := hk.ne_upcoming hroom hold
      exact (hb.lookup _ _).trans ((if_neg fun hnew => hother hnew.2).trans (hk.resolves x hold))
  slot := .inr ⟨(s.upcoming, policy), List.mem_cons_self, rfl, hb.slot⟩
  origin := by
    intro handle policy' hsome
    by_cases hnew : handle = Handle.issue s.process.registries.issued
    · exact .inl ⟨_, List.mem_cons_self, hnew.symm⟩
    · have hold := (hb.lookup globalRegistry handle).trans (if_neg fun h => hnew h.2)
      rcases hk.origin handle policy' (hold.symm.trans hsome) with ⟨x, hx, heq⟩ | hstart
      · exact .inl ⟨x, List.mem_cons_of_mem _ hx, heq⟩
      · exact .inr hstart

/-- A binding that ends takes away its own handle and no other. -/
theorem Kept.drop (hk : s.Kept start) (b : Binding) : (s.drop b).Kept start := by
  have hrest : ∀ x, x ∈ (s.drop b).live ↔ x ∈ s.live ∧ x.1 ≠ b := by
    intro x
    unfold ThreadState.drop
    rw [List.mem_filter, decide_eq_true_eq]
  have hlookup : ∀ handle, handle ≠ b.handle →
      (s.drop b).process.lookup? globalRegistry handle =
        s.process.lookup? globalRegistry handle := fun handle hother =>
    (s.process.lookup?_unbind b _ handle).trans (if_neg fun h => hother h.2)
  refine ⟨?_, hk.distinct.sublist (List.filter_sublist.map _), fun x hx => ?_, ?_,
    fun handle policy hsome => ?_⟩
  · change (s.process.unbind b).registries.Issued
    rw [Process.registries_unbind]
    exact hk.issued.release _ _
  · obtain ⟨hlive, hother⟩ := (hrest x).mp hx
    rw [hlookup _ fun heq => hother (congrArg Binding.mk heq)]
    exact hk.resolves x hlive
  · have hslot : (s.drop b).process.slot = _ := s.process.slot_unbind b
    by_cases hown : s.process.slot = b.handle.toPointer
    · rw [if_pos hown] at hslot
      exact .inl hslot
    · rw [if_neg hown] at hslot
      rw [hslot]
      rcases hk.slot with hnull | ⟨x, hx, hnewest, heq⟩
      · exact .inl hnull
      · refine .inr ⟨x, (hrest x).mpr ⟨hx, ?_⟩, hnewest, heq⟩
        rintro rfl
        exact hown heq
  · have hother : handle ≠ b.handle := by
      rintro rfl
      have hgone := (s.process.lookup?_unbind b globalRegistry b.handle).trans (if_pos ⟨rfl, rfl⟩)
      exact nomatch hgone.symm.trans hsome
    rw [hlookup handle hother] at hsome
    rcases hk.origin handle policy hsome with ⟨x, hx, heq⟩ | hstart
    · refine .inl ⟨x, (hrest x).mpr ⟨hx, ?_⟩, heq⟩
      rintro rfl
      exact hother heq.symm
    · exact .inr hstart

/-- Registering another object keeps what is kept: its handle is none of the live ones. -/
theorem Kept.register (hk : s.Kept start) (hroom : s.process.registries.issued < Handle.room)
    {r : RegistryId} {object : Object} (hobject : object.isPolicy = false) {q : Process}
    (hq : q.registries = (s.process.registries.register r object).2)
    (hslot : q.slot = s.process.slot ∨ q.slot = 0) : Kept start { s with process := q } := by
  have hlookup : ∀ handle, q.lookup? globalRegistry handle = _ := fun handle =>
    (congrArg (Registries.lookup? · globalRegistry handle) hq).trans
      (Registries.lookup?_register _ r globalRegistry object handle)
  refine hk.change ?_ hslot (fun x hx => ?_) fun handle policy hsome => ?_
  · rw [hq]
    exact hk.issued.register r object
  · exact (hlookup _).trans (if_neg fun hnew => hk.ne_upcoming hroom hx hnew.2)
  · rw [hlookup] at hsome
    split at hsome
    · cases hsome
      cases hobject
    · exact hsome

/-- Releasing a handle that is none of the live ones keeps what is kept. -/
theorem Kept.release (hk : s.Kept start) {r : RegistryId} {handle : Handle}
    (hother : r = globalRegistry → handle ∉ s.live.map (·.1.handle)) {q : Process}
    (hq : q.registries = (s.process.registries.release r handle).2)
    (hslot : q.slot = s.process.slot ∨ q.slot = 0) : Kept start { s with process := q } := by
  have hlookup : ∀ other, q.lookup? globalRegistry other = _ := fun other =>
    (congrArg (Registries.lookup? · globalRegistry other) hq).trans
      (Registries.lookup?_release _ r globalRegistry handle other)
  refine hk.change ?_ hslot (fun x hx => ?_) fun other policy hsome => ?_
  · rw [hq]
    exact hk.issued.release r handle
  · refine (hlookup _).trans (if_neg ?_)
    rintro ⟨rfl, rfl⟩
    exact hother rfl (List.mem_map.mpr ⟨x, hx, rfl⟩)
  · rw [hlookup] at hsome
    split at hsome
    · cases hsome
    · exact hsome

/-- Other work keeps what is kept. -/
theorem Kept.work (hk : s.Kept start) (op : Process.Operation)
    (hroom : (s.work op).process.registries.issued ≤ Handle.room) : (s.work op).Kept start := by
  unfold ThreadState.work at hroom ⊢
  cases hspares : op.sparesBindings (s.live.map (·.1.handle)) with
  | false => exact hk
  | true =>
      rw [hspares, if_pos rfl] at hroom
      rw [if_pos rfl]
      have hi := Process.Operation.issued hk.issued op
      have hslot := Process.Operation.slot_of_spares s.process hspares
      obtain ⟨hregisters, hreleases⟩ := Process.Operation.sparesBindings_eq hspares
      rcases op.registries_cases s.process with hsame | hcreate | ⟨r, object, hop, hregister⟩ |
        ⟨r, handle, hop, hrelease⟩
      · exact hk.unchanged hi hslot fun handle =>
          congrArg (Registries.lookup? · globalRegistry handle) hsame
      · refine hk.unchanged hi hslot fun handle => ?_
        unfold Process.lookup?
        rw [hcreate]
        rfl
      · have hfresh : s.process.registries.issued < Handle.room := by
          rw [hregister] at hroom
          exact hroom
        exact hk.register hfresh (hregisters r object hop) hregister hslot
      · refine hk.release (fun hglobal => ?_) hrelease hslot
        subst hglobal
        exact hreleases handle hop

/-- Which work is going on is no matter. -/
theorem Kept.around (hk : s.Kept start) (around : List Binding) :
    Kept start { s with around := around } :=
  ⟨hk.issued, hk.distinct, hk.resolves, hk.slot, hk.origin⟩

/-- A bind that is refused is only reported; another one makes the upcoming binding. -/
theorem bind_cases (s : ThreadState) (policy : Policy) :
    (s.process.slot ≠ 0 ∧ s.bind policy =
      (.error .alreadyBound, { s with process := s.process.report .bindingRefused })) ∨
    (s.process.slot = 0 ∧ ∃ q, s.process.Binds policy q ∧
      s.bind policy =
        (.ok s.upcoming, ({ s with process := q } : ThreadState).adopt s.upcoming policy)) := by
  unfold ThreadState.bind
  rcases s.process.bind_cases policy with ⟨hbound, hbind⟩ | ⟨hfree, q, hbind, hbinds⟩
  · exact .inl ⟨hbound, by rw [hbind]⟩
  · exact .inr ⟨hfree, q, hbinds, by rw [hbind]; rfl⟩

/-- Work with a policy bound is refused, or runs and then ends its own binding. -/
theorem withPolicy_cases (s : ThreadState) (policy : Policy)
    (body : ThreadState → Option String × ThreadState) :
    (s.process.slot ≠ 0 ∧ s.withPolicy policy body =
      (.error .alreadyBound, { s with process := s.process.report .bindingRefused })) ∨
    (s.process.slot = 0 ∧ ∃ q, s.process.Binds policy q ∧ (s.process.bind policy).2 = q ∧
      s.withPolicy policy body = (.ok (body (s.enter policy q)).1,
        { (body (s.enter policy q)).2.drop s.upcoming with around := s.around })) := by
  unfold ThreadState.withPolicy Process.withPolicy
  rcases s.process.bind_cases policy with ⟨hbound, hbind⟩ | ⟨hfree, q, hbind, hbinds⟩
  · exact .inl ⟨hbound, by rw [hbind]⟩
  · exact .inr ⟨hfree, q, hbinds, by rw [hbind], by rw [hbind]; rfl⟩

theorem issued_drop (s : ThreadState) (b : Binding) :
    (s.drop b).process.registries.issued = s.process.registries.issued := by
  change (s.process.unbind b).registries.issued = _
  rw [Process.registries_unbind, Registries.issued_release]

theorem issued_bind (s : ThreadState) (policy : Policy) :
    s.process.registries.issued ≤ (s.bind policy).2.process.registries.issued := by
  rcases s.bind_cases policy with ⟨-, hbind⟩ | ⟨-, q, hbinds, hbind⟩ <;> rw [hbind]
  · exact Nat.le_refl _
  · exact Nat.le_of_lt (Nat.lt_of_lt_of_eq (Nat.lt_succ_self _) hbinds.issued.symm)

theorem issued_unbind (s : ThreadState) (b : Binding) :
    (s.unbind b).process.registries.issued = s.process.registries.issued := by
  unfold ThreadState.unbind
  split
  · exact s.issued_drop b
  · rfl

theorem issued_work (s : ThreadState) (op : Process.Operation) :
    s.process.registries.issued ≤ (s.work op).process.registries.issued := by
  unfold ThreadState.work
  split
  · exact op.issued_le s.process
  · exact Nat.le_refl _

theorem issued_enter {q : Process} (hb : s.process.Binds policy q) :
    (s.enter policy q).process.registries.issued = s.process.registries.issued + 1 := hb.issued

/-- A bind that is refused keeps what is kept, and so does another one. -/
theorem Kept.bind (hk : s.Kept start) (policy : Policy)
    (hroom : (s.bind policy).2.process.registries.issued ≤ Handle.room) :
    (s.bind policy).2.Kept start := by
  rcases s.bind_cases policy with ⟨-, hbind⟩ | ⟨-, q, hbinds, hbind⟩ <;> rw [hbind] at hroom ⊢
  · exact hk.unchanged hk.issued (.inl rfl) fun _ => rfl
  · have hmade : q.registries.issued ≤ Handle.room := hroom
    rw [hbinds.issued] at hmade
    exact hk.adopt (Nat.lt_of_succ_le hmade) hbinds

theorem Kept.unbind (hk : s.Kept start) (b : Binding) : (s.unbind b).Kept start := by
  unfold ThreadState.unbind
  split
  · exact hk.drop b
  · exact hk

theorem Kept.enter (hk : s.Kept start) {q : Process} (hb : s.process.Binds policy q)
    (hroom : (s.enter policy q).process.registries.issued ≤ Handle.room) :
    (s.enter policy q).Kept start := by
  rw [issued_enter hb] at hroom
  exact (hk.adopt (Nat.lt_of_succ_le hroom) hb).around _

end ThreadState

namespace ThreadState

variable {start : Process} {s : ThreadState}

/-- The discipline of bindings, in one state of a run that began in `start`. -/
structure Disciplined (start : Process) (s : ThreadState) : Prop where
  /-- The slot is null, or holds the binding that was made last, which is live. -/
  slot : s.process.slot = 0 ∨
    ∃ x ∈ s.live, s.newest? = some x.1 ∧ s.process.slot = x.1.handle.toPointer
  /-- No two live bindings are the same. -/
  distinct : (s.live.map Prod.fst).Nodup
  /-- Every live binding leads to its own policy. -/
  resolves : ∀ x ∈ s.live, s.process.lookup? globalRegistry x.1.handle = some (.policy x.2)
  /-- The current policy is the one that the slot names. -/
  current : ∀ x ∈ s.live, s.process.slot = x.1.handle.toPointer →
    s.process.currentPolicy = .ok x.2
  /-- There is none exactly when the slot is null. -/
  missing : (∃ what, s.process.currentPolicy = .error (.notFound what)) ↔ s.process.slot = 0
  bound : s.process.isBound = true ↔ s.process.slot ≠ 0
  /-- A policy can be bound exactly when the slot is null. -/
  binds : ∀ policy, (∃ b, (s.process.bind policy).1 = .ok b) ↔ s.process.slot = 0
  /-- A bind that is refused changes neither the slot nor a registry. -/
  refused : ∀ policy fault, (s.process.bind policy).1 = .error fault →
    fault = .alreadyBound ∧ (s.process.bind policy).2.slot = s.process.slot ∧
      (s.process.bind policy).2.registries = s.process.registries
  /-- A live binding that ends takes its own handle out of the registry and clears the slot only
  while that holds it. -/
  ends : ∀ x ∈ s.live,
    (∀ r handle, (s.process.unbind x.1).lookup? r handle =
      if r = globalRegistry ∧ handle = x.1.handle then none else s.process.lookup? r handle) ∧
    (s.process.unbind x.1).slot =
      if s.process.slot = x.1.handle.toPointer then 0 else s.process.slot
  /-- No other live binding loses its registration by that, or the slot. -/
  spares : ∀ x ∈ s.live, ∀ y ∈ s.live, y.1 ≠ x.1 →
    (s.process.unbind x.1).lookup? globalRegistry y.1.handle = some (.policy y.2) ∧
      (s.process.slot = y.1.handle.toPointer → (s.process.unbind x.1).slot = s.process.slot)
  /-- Without live bindings the slot is null, and no policy is registered that was not before. -/
  clean : s.live = [] → s.process.slot = 0 ∧
    ∀ handle policy, s.process.lookup? globalRegistry handle = some (.policy policy) →
      start.lookup? globalRegistry handle = some (.policy policy)

/-- The handle of a live binding is not null. -/
theorem Kept.not_null (hk : s.Kept start) (hroom : s.process.registries.issued ≤ Handle.room)
    {x : Binding × Policy} (hx : x ∈ s.live) : x.1.handle.toPointer ≠ 0 := by
  obtain ⟨n, hn, heq⟩ := hk.given hx
  rw [heq]
  exact Handle.issue_ne_null (Nat.lt_of_lt_of_le hn hroom)

/-- What is kept is enough for the discipline. -/
theorem Kept.disciplined (hk : s.Kept start)
    (hroom : s.process.registries.issued ≤ Handle.room) : s.Disciplined start := by
  have hcurrent : ∀ x ∈ s.live, s.process.slot = x.1.handle.toPointer →
      s.process.currentPolicy = .ok x.2 := fun x hx hslot =>
    Process.currentPolicy_of_lookup hslot (hk.not_null hroom hx) (hk.resolves x hx)
  have hends : ∀ x ∈ s.live, ∀ y ∈ s.live, y.1 ≠ x.1 →
      (s.process.unbind x.1).lookup? globalRegistry y.1.handle = some (.policy y.2) := by
    intro x hx y hy hne
    have hrest : y ∈ (s.drop x.1).live := List.mem_filter.mpr ⟨hy, decide_eq_true hne⟩
    exact (hk.drop x.1).resolves y hrest
  constructor
  case slot => exact hk.slot
  case distinct => exact hk.distinct
  case resolves => exact hk.resolves
  case current => exact hcurrent
  case missing =>
    constructor
    · rintro ⟨what, hmissing⟩
      rcases hk.slot with hnull | ⟨x, hx, -, hslot⟩
      · exact hnull
      · cases hmissing.symm.trans (hcurrent x hx hslot)
    · intro hnull
      exact ⟨_, Process.currentPolicy_of_null hnull⟩
  case bound => simp [Process.isBound]
  case binds =>
    intro policy
    rcases s.process.bind_cases policy with ⟨hbound, hbind⟩ | ⟨hfree, q, hbind, -⟩ <;> rw [hbind]
    · refine iff_of_false ?_ hbound
      rintro ⟨b, hok⟩
      cases hok
    · exact iff_of_true ⟨_, rfl⟩ hfree
  case refused =>
    intro policy fault herror
    rcases s.process.bind_cases policy with ⟨-, hbind⟩ | ⟨-, q, hbind, -⟩ <;> rw [hbind] at herror ⊢
    · cases herror
      exact ⟨rfl, rfl, rfl⟩
    · cases herror
  case ends => exact fun x _ => ⟨s.process.lookup?_unbind x.1, s.process.slot_unbind x.1⟩
  case spares =>
    intro x hx y hy hne
    refine ⟨hends x hx y hy hne, fun hslot => ?_⟩
    rw [Process.slot_unbind, if_neg]
    intro hown
    -- handles that are pointers of the same number are the same
    have hsame : y.1.handle = x.1.handle := congrArg Handle.mk (hslot.symm.trans hown)
    exact hne (congrArg Binding.mk hsame)
  case clean =>
    intro hnone
    constructor
    · refine hk.slot.resolve_right ?_
      rintro ⟨x, hx, -⟩
      exact List.not_mem_nil (hnone ▸ hx)
    · intro handle policy hsome
      refine (hk.origin handle policy hsome).resolve_left ?_
      rintro ⟨x, hx, -⟩
      exact List.not_mem_nil (hnone ▸ hx)

end ThreadState

namespace ThreadRun

variable {start : Process}

/-- Handles are only ever given out. -/
theorem issued_exec (run : ThreadRun) (s : ThreadState) :
    s.process.registries.issued ≤ (run.exec s).2.process.registries.issued := by
  induction run generalizing s with
  | done panic? => exact Nat.le_refl _
  | bind policy next ih => exact Nat.le_trans (s.issued_bind policy) (ih _ _)
  | unbind b next ih => exact Nat.le_trans (Nat.le_of_eq (s.issued_unbind b).symm) (ih _)
  | look next ih => exact ih _ _ s
  | work op next ih => exact Nat.le_trans (s.issued_work op) (ih _ _)
  | withPolicy policy body next ihBody ihNext =>
      refine Nat.le_trans ?_ (ihNext _ _)
      rcases s.withPolicy_cases policy body.exec with ⟨-, hrefused⟩ | ⟨-, q, hbinds, -, hran⟩
      · rw [hrefused]
        exact Nat.le_refl _
      · rw [hran]
        have hbody := ihBody (s.enter policy q)
        have hdrop := (body.exec (s.enter policy q)).2.issued_drop s.upcoming
        rw [ThreadState.issued_enter hbinds] at hbody
        exact Nat.le_trans (Nat.le_of_succ_le hbody) (Nat.le_of_eq hdrop.symm)

/-- The counter has not wrapped around before the end of a run if it has not at the end. -/
theorem room_before {run : ThreadRun} {s : ThreadState}
    (hroom : (run.exec s).2.process.registries.issued ≤ Handle.room) :
    s.process.registries.issued ≤ Handle.room := Nat.le_trans (run.issued_exec s) hroom

/-- What is kept when a run begins is kept in all its states and when it ends. -/
theorem kept (run : ThreadRun) {s : ThreadState} (hk : s.Kept start)
    (hroom : (run.exec s).2.process.registries.issued ≤ Handle.room) :
    run.EveryState (ThreadState.Disciplined start) s ∧ (run.exec s).2.Kept start := by
  induction run generalizing s with
  | done panic? => exact ⟨hk.disciplined hroom, hk⟩
  | bind policy next ih =>
      have hafter : ((next (s.bind policy).1).exec (s.bind policy).2).2.process.registries.issued
        ≤ Handle.room := hroom
      obtain ⟨hevery, hend⟩ := ih _ (hk.bind policy (room_before hafter)) hafter
      exact ⟨⟨hk.disciplined (room_before hroom), hevery⟩, hend⟩
  | unbind b next ih =>
      obtain ⟨hevery, hend⟩ := ih (hk.unbind b) hroom
      exact ⟨⟨hk.disciplined (room_before hroom), hevery⟩, hend⟩
  | look next ih =>
      obtain ⟨hevery, hend⟩ := ih _ _ hk hroom
      exact ⟨⟨hk.disciplined (room_before hroom), hevery⟩, hend⟩
  | work op next ih =>
      have hafter : ((next (s.work op).process).exec (s.work op)).2.process.registries.issued
        ≤ Handle.room := hroom
      obtain ⟨hevery, hend⟩ := ih _ (hk.work op (room_before hafter)) hafter
      exact ⟨⟨hk.disciplined (room_before hroom), hevery⟩, hend⟩
  | withPolicy policy body next ihBody ihNext =>
      have hafter : ((next (s.withPolicy policy body.exec).1).exec
        (s.withPolicy policy body.exec).2).2.process.registries.issued ≤ Handle.room := hroom
      have hnow := hk.disciplined (room_before hroom)
      have hthere := room_before hafter
      suffices hstep : (s.withPolicy policy body.exec).2.Kept start ∧ (s.process.slot = 0 →
          body.EveryState (ThreadState.Disciplined start)
            (s.enter policy (s.process.bind policy).2)) by
        obtain ⟨hevery, hend⟩ := ihNext _ hstep.1 hafter
        exact ⟨⟨hnow, hstep.2, hevery⟩, hend⟩
      rcases s.withPolicy_cases policy body.exec with ⟨hbound, hrefused⟩ |
        ⟨-, q, hbinds, hbind, hran⟩
      · rw [hrefused]
        exact ⟨hk.unchanged hk.issued (.inl rfl) fun _ => rfl, fun hfree => absurd hfree hbound⟩
      · rw [hran] at hthere ⊢
        -- the work itself, then the end of its binding
        have hbody : (body.exec (s.enter policy q)).2.process.registries.issued ≤ Handle.room := by
          rw [← ThreadState.issued_drop _ s.upcoming]
          exact hthere
        obtain ⟨hevery, hend⟩ := ihBody (hk.enter hbinds (room_before hbody)) hbody
        refine ⟨(hend.drop s.upcoming).around s.around, fun _ => ?_⟩
        rw [hbind]
        exact hevery

/-- Every run that begins with an empty slot keeps the discipline of bindings in every state, until
the counter of handles wraps around. -/
theorem disciplined (run : ThreadRun) (hi : start.registries.Issued) (hslot : start.slot = 0)
    (hroom : (run.exec { process := start }).2.process.registries.issued ≤ Handle.room) :
    run.EveryState (ThreadState.Disciplined start) { process := start } :=
  (run.kept (ThreadState.kept_start hi hslot) hroom).1

end ThreadRun

/-- After everything that a process may have done, a thread whose slot is empty keeps the
discipline of bindings in every state of every run, until the counter of handles wraps around. -/
theorem Ledger.bindings_disciplined (ops : List Process.Operation)
    (hslot : (history ops).process.slot = 0) (run : ThreadRun)
    (hroom : (run.exec { process := (history ops).process }).2.process.registries.issued ≤
      Handle.room) :
    run.EveryState (ThreadState.Disciplined (history ops).process)
      { process := (history ops).process } :=
  run.disciplined (issued_history ops) hslot hroom

namespace ThreadRun

/-- Binds a policy, and goes on if that was not refused. -/
def binding (policy : Policy) (next : Binding → ThreadRun) : ThreadRun :=
  .bind policy fun
    | .ok b => next b
    | .error _ => .done none

/-- Binds a policy over a stale binding, drops the stale one, and panics with a policy bound while
a third binding is live. -/
def staleGuard : ThreadRun :=
  binding .unsupported fun first =>
  .work .clearSlot fun _ =>
  binding .unsupported fun second =>
  .work (.register globalRegistry (.value .other)) fun _ =>
  .unbind first <|
  .look fun _ _ =>
  .unbind second <|
  .withPolicy .unsupported
    (.work .clearSlot fun _ => binding .unsupported fun _ => .done (some "stop")) fun _ =>
  .done none

end ThreadRun

theorem Ledger.bindings_disciplined_staleGuard :
    (history []).process.slot = 0 ∧
      (ThreadRun.staleGuard.exec { process := (history []).process }).2.process.registries.issued ≤
        Handle.room ∧
      ThreadRun.staleGuard.EveryState (ThreadState.Disciplined (history []).process)
        { process := (history []).process } :=
  ⟨by decide, by decide, bindings_disciplined [] (by decide) ThreadRun.staleGuard (by decide)⟩

end NativeBoundary

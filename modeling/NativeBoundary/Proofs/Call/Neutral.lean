import NativeBoundary.Proofs.Call.Copies
import NativeBoundary.Proofs.Process.ReleasedOnce

/-!
# Calls leave nothing behind

However a call ends, with a return code, an error or a panic, and whatever its body did on the
way, the process is afterwards what it was before: the same value stands in the policy slot, the
same objects are registered under the same handles, the same places of each pool are free, and
the same blocks are live, apart from those that native code was handed through out-parameters.

A call with a policy on a thread that has one is refused at once.  A call whose body has run is
torn down in a fixed order, which the history of the process shows: first the copies of its scope
are released, the one that was made last first, then the slot is cleared, and then the handle of
the binding is released.  Nothing else happens after the body.

* `Process.Neutral` — what is the same after a call;
* `Process.Teardown` — the order in which a call ends;
* `Process.Tidy` — both, for one call, with the refusal of a second policy;
* `Ledger.call_tidy` — they hold for every call after every run, and for every further call that
  is made in its body, however deep.

The books of memory give the blocks and the pools: what a body was handed is native code's, so it
takes no place in a pool, and every other holder is there again at the end.
-/

namespace NativeBoundary

/-- A pool with the same free places, perhaps in another order. -/
structure Pool.Alike (p p' : Pool) : Prop where
  free : p'.free.Perm p.free
  inUse : p'.inUse = p.inUse
  users : p'.users = p.users
  count : p'.count = p.count
  blockSize : p'.blockSize = p.blockSize

/-- Native code refers to no pool and takes no place in one. -/
theorem stakes_native {given : List Holder} (hnative : ∀ x ∈ given, x.isNative = true) :
    poolsOf given = [] ∧ placesOf given = [] := by
  have hnone : ∀ x ∈ given, x.pools = [] ∧ x.places = [] := by
    intro x hx
    have hx := hnative x hx
    cases x <;> first | exact ⟨rfl, rfl⟩ | cases hx
  exact ⟨List.flatMap_eq_nil_iff.mpr fun x hx => (hnone x hx).1,
    List.flatMap_eq_nil_iff.mpr fun x hx => (hnone x hx).2⟩

namespace Memory

variable {m m' : Memory} {given holders : List Holder}

/-- Memory in which `given` was handed out and nothing else was made or lost. -/
structure Kept (m : Memory) (given : List Holder) (m' : Memory) : Prop where
  live : m'.heap.live.Perm (blocksOf given ++ m.heap.live)
  pools : ∀ id, Option.Rel Pool.Alike (m.pool? id) (m'.pool? id)

/-- If all holders are back, and beside them only native code holds something, then memory is
kept. -/
theorem Accounts.kept (ha : m.Accounts holders) (ha' : m'.Accounts (given ++ holders))
    (hs : m.Spares [] m') (hnative : ∀ x ∈ given, x.isNative = true) : m.Kept given m' := by
  obtain ⟨hpools, hplaces⟩ := stakes_native hnative
  have hsame : poolsOf (given ++ holders) = poolsOf holders := by
    rw [poolsOf_append, hpools, List.nil_append]
  refine ⟨List.perm_iff_count.mpr fun id => ?_, fun id => ?_⟩
  · have hblocks := ha.blocks id
    have hblocks' := ha'.blocks id
    have hregions := ha.regions_eq id
    have hregions' := ha'.regions_eq id
    rw [hsame] at hregions'
    rw [blocksOf_append, List.count_append] at hblocks'
    rw [List.count_append, Heap.count_live ha.sound, Heap.count_live ha'.sound]
    omega
  · by_cases hid : id ∈ poolsOf holders
    · obtain ⟨p, hp⟩ := ha.pool_live hid
      obtain ⟨p', hp'⟩ : ∃ p', m'.pool? id = some p' := ha'.pool_live (hsame ▸ hid)
      have hlt : id < m.heap.next := ha.sound.lt_next (ha.region_live hp)
      obtain ⟨q, hq, hcount, hsize⟩ := hs.shape hlt hp'
      rw [hp] at hq
      cases hq
      have husers := (ha.pools id).users
      have husers' := (ha'.pools id).users
      rw [hsame] at husers'
      simp only [users, hp, hp'] at husers husers'
      -- a place is free now just when it was free before, for the same holders take places
      have hfree : p'.free.Perm p.free := by
        refine List.perm_iff_count.mpr fun i => ?_
        have hbefore := (ha.pools id).places i
        have hafter := (ha'.pools id).places i
        rw [placesOf_append, hplaces, List.nil_append] at hafter
        simp only [vacant, capacity, hp, hp', hcount] at hbefore hafter
        omega
      have hcomplete := ((ha.pools id).pool hp).1.complete
      have hcomplete' := ((ha'.pools id).pool hp').1.complete
      rw [hfree.length_eq, hcount] at hcomplete'
      rw [hp, hp']
      exact .some ⟨hfree, by omega, by omega, hcount, hsize⟩
    · rw [ha.pool_gone hid, ha'.pool_gone (hsame ▸ hid)]
      exact .none

end Memory

theorem native_inBuffer (out : Option RawBuffer) : ∀ x ∈ inBuffer out, x.isNative = true := by
  intro x hx
  obtain ⟨raw, -, rfl⟩ := List.mem_map.mp hx
  rfl

theorem native_inBatch (out : Option RawBatch) : ∀ x ∈ inBatch out, x.isNative = true := by
  intro x hx
  obtain ⟨raw, -, rfl⟩ := List.mem_map.mp hx
  rfl

/-- What an entry point hands out is native code's. -/
theorem Process.Callback.native (c : Process.Callback) (answer : c.Answer) :
    ∀ x ∈ c.given answer, x.isNative = true := by
  intro x hx
  cases c with
  | encapsulate encapsulationKey seed ciphertext secret =>
      rcases List.mem_append.mp hx with hx | hx
      · exact native_inBuffer _ x hx
      · exact native_inBuffer _ x hx
  | decapsulate key ciphertext out => exact native_inBuffer _ x hx
  | derivePublic key out => exact native_inBuffer _ x hx
  | send context receiver message => cases hx
  | receive context sender out =>
      simp only [given, ReceiveReply.given] at hx
      split at hx
      · exact native_inBuffer _ x hx
      · cases hx
  | receiveAll context senders count out =>
      simp only [given, ReceiveAllReply.given] at hx
      split at hx
      · exact native_inBatch _ x hx
      · cases hx

namespace Process

variable {bridges : List Bridge} {σ : Type} {p : Process} {bridge : Bridge} {op : String}
  {shape : CallShape} {policy : Option Policy}

/-- What is handed out during a call is handed out by its body. -/
theorem native_handedOut {exec : Process → Scope → Course σ}
    (hbody : ∀ q s, ∀ x ∈ (exec q s).given, x.isNative = true) :
    ∀ x ∈ p.handedOut bridge op shape policy exec, x.isNative = true := by
  intro x hx
  unfold handedOut course? at hx
  cases hc : p.beginCall bridge op shape policy with
  | mk result q =>
      rw [hc] at hx
      cases result with
      | error fault => cases hx
      | ok call => exact hbody q call.scope x hx

end Process

/-- What a body is handed is native code's. -/
theorem Body.native {bridges : List Bridge} {σ : Type} (body : Body bridges σ) (p : Process)
    (s : Scope) : ∀ x ∈ (body.exec p s).given, x.isNative = true := by
  induction body generalizing p s with
  | done outcome learnt =>
      intro x hx
      cases hx
  | refuse granted next ih => exact ih _ s
  | input bytes secrecy next ih => exact ih _ _ _
  | inputBatch items next ih => exact ih _ _ _
  | call c next ih =>
      intro x hx
      rcases List.mem_append.mp hx with hx | hx
      · exact c.native _ x hx
      · exact ih _ _ s x hx
  | aside work _ _ next ih => exact ih _ _ s
  | invoke bridge held op shape policy inner next ihInner ihNext =>
      intro x hx
      rcases List.mem_append.mp hx with hx | hx
      · exact Process.native_handedOut ihInner x hx
      · exact ihNext _ _ _ s x hx

namespace Process

/-- Nothing is left behind but what native code was handed. -/
structure Neutral (p : Process) (given : List Holder) (q : Process) : Prop where
  slot : q.slot = p.slot
  registered : ∀ r handle, q.lookup? r handle = p.lookup? r handle
  memory : p.memory.Kept given q.memory

/-- A binding is in place: its handle stands in the slot, and the policy is registered under it. -/
structure Holds (p : Process) (policy : Policy) (b : Binding) : Prop where
  slot : p.slot = b.handle.toPointer
  slot_ne_null : p.slot ≠ 0
  registered : p.lookup? globalRegistry b.handle = some (.policy policy)

/-- How a call ends whose body has run. -/
structure Teardown {σ : Type} (policy : Option Policy) (call : Call) (course : Course σ)
    (after : Process) : Prop where
  /-- The scope holds what the body marshalled, what was made last in front. -/
  copies : course.scope.copies = course.made.reverse
  /-- Blocks are numbered as they are made, so the block that was made last stands first. -/
  order : (course.made.reverse.flatMap ScopeCopy.blocks).Pairwise (· > ·)
  /-- When the body is done, the binding is in place. -/
  bound : Option.Rel course.process.Holds policy call.binding?
  /-- After that just this comes to an end, in this order: the copies, what was made last first;
  the slot; the handle of the binding. -/
  ends : course.process.Ends
    (course.made.reverse.flatMap ScopeCopy.endings ++ call.binding?.toList.flatMap Binding.endings)
    after
  released : course.process.memory.Released course.made.reverse after.memory

/-- A call is refused or torn down, and neutral in every case. -/
structure Tidy {bridges : List Bridge} {σ : Type} (p : Process) (bridge : Bridge) (op : String)
    (shape : CallShape) (policy : Option Policy) (body : Body bridges σ) : Prop where
  neutral : p.Neutral (p.handedOut bridge op shape policy body.exec)
    (p.invokeBody bridge op shape policy body.exec).2
  /-- A second policy is refused, whatever the body is. -/
  refused : policy.isSome = true → p.slot ≠ 0 → ∀ run,
    p.invoke bridge op shape policy run = (.refusal .alreadyBound, p.report .bindingRefused)
  teardown : ∀ call q, p.beginCall bridge op shape policy = (.ok call, q) →
    Teardown policy call (body.exec q call.scope)
      (p.invokeBody bridge op shape policy body.exec).2

end Process

/-- Something holds of every call that a body makes, and of every call that is made in those. -/
def Body.EveryCall {bridges : List Bridge} {σ : Type}
    (P : Process → Bridge → String → CallShape → Option Policy → Body bridges σ → Prop) :
    Body bridges σ → Process → Scope → Prop
  | done _ _, _, _ => True
  | refuse granted next, p, s => next.EveryCall P (p.setHeap { p.heap with granted }) s
  | input bytes secrecy next, p, s =>
      let step := p.memory.input s bytes secrecy
      (next step.1).EveryCall P (p.setMemory step.2.2) step.2.1
  | inputBatch items next, p, s =>
      let step := p.memory.inputBatch s items
      (next step.1).EveryCall P (p.setMemory step.2.2) step.2.1
  | call c next, p, s =>
      let step := c.run p
      (next step.1).EveryCall P step.2 s
  | aside work _ _ next, p, s =>
      let step := work p
      (next step.1).EveryCall P step.2 s
  | invoke bridge _ op shape policy inner next, p, s =>
      let step := p.invokeBody bridge op shape policy inner.exec
      let learnt := (p.course? bridge op shape policy inner.exec).map Course.learnt
      P p bridge op shape policy inner ∧
        (∀ call q, p.beginCall bridge op shape policy = (.ok call, q) →
          inner.EveryCall P q call.scope) ∧
        (next step.1 learnt).EveryCall P step.2 s

namespace Process

variable {bridges : List Bridge} {σ : Type} {p q : Process} {bridge : Bridge} {op : String}
  {shape : CallShape} {policy : Option Policy} {others : List Holder} {call : Call}

/-- What stands before a body only gives out handles. -/
theorem issued_beginCall (hi : p.registries.Issued)
    (hc : p.beginCall bridge op shape policy = (.ok call, q)) : q.registries.Issued := by
  rcases beginCall_cases hc with ⟨_, _, _, hresult, _⟩ | ⟨_, _, rfl⟩ |
    ⟨_, bound, _, hbinds, _, _, rfl⟩
  · cases hresult
  · rw [(p.beside_sharePool? bridge.pool?).registries]
    exact hi
  · rw [(bound.beside_sharePool? bridge.pool?).registries, hbinds.registries]
    exact hi.register _ _

theorem Holds.beside {pol : Policy} {b : Binding} (hb : p.Holds pol b) (hq : p.Beside q) :
    q.Holds pol b where
  slot := hq.slot.trans hb.slot
  slot_ne_null := by
    rw [hq.slot]
    exact hb.slot_ne_null
  registered := (congrArg (Registries.lookup? · globalRegistry b.handle) hq.registries).trans
    hb.registered

theorem ends_judge (p : Process) (op : String) (outcome : CallOutcome) :
    p.Ends [] (p.judge op outcome).2 := by
  rcases p.judge_eq op outcome with heq | heq <;> rw [heq] <;> exact .of_history rfl

/-- What ends with a call is what ends with its scope, and then the binding if there is one. -/
theorem ends_endCall {endings : List Ending} (outcome : CallOutcome)
    (hscope : p.heap.Ends endings (p.memory.endScope call.scope).heap)
    (hbound : Option.Rel p.Holds policy call.binding?) :
    p.Ends (endings ++ call.binding?.toList.flatMap Binding.endings)
      (p.endCall call outcome).2 := by
  have hended : p.Ends endings (p.endScope call.scope) := ends_setMemory hscope
  have hjudged := hended.trans (ends_judge _ call.op outcome)
  have hbeside := (p.beside_setMemory (p.memory.endScope call.scope)).trans
    (beside_judge _ call.op outcome)
  rw [List.append_nil] at hjudged
  refine hjudged.trans ?_
  change Ends _ _ (unbind? _ call.binding?)
  cases hbinding : call.binding? with
  | none => exact .of_history rfl
  | some b =>
      rw [hbinding] at hbound
      cases hbound with
      | some hb =>
          have hstill := hb.beside hbeside
          rw [Option.toList_some, List.flatMap_singleton]
          exact ends_unbind hstill.slot hstill.registered

@[simp] theorem issued_endCall (p : Process) (call : Call) (outcome : CallOutcome) :
    (p.endCall call outcome).2.registries.issued = p.registries.issued := by
  have hjudge := (beside_judge (p.endScope call.scope) call.op outcome).registries
  have hended := (p.beside_setMemory (p.memory.endScope call.scope)).registries
  unfold endCall unbind?
  simp only
  cases call.binding? with
  | none =>
      rw [hjudge]
      exact congrArg _ hended
  | some b =>
      rw [registries_unbind, Registries.issued_release, hjudge]
      exact congrArg _ hended

/-- The counter of handles does not move after the body of a call. -/
theorem issued_invoke {body : Body bridges σ}
    (hc : p.beginCall bridge op shape policy = (.ok call, q)) :
    (p.invokeBody bridge op shape policy body.exec).2.registries.issued =
      (body.exec q call.scope).process.registries.issued := by
  rw [(invoke_reached body.exec hc).1, issued_endCall]

/-- Everything that a body marshals is released when the scope of its call ends. -/
theorem released_invoke (held : bridge ∈ bridges) (body : Body bridges σ)
    (ha : p.memory.Accounts (bridges.map .bridge ++ others))
    (hc : p.beginCall bridge op shape policy = (.ok call, q)) :
    (body.exec q call.scope).scope.copies = (body.exec q call.scope).made.reverse ∧
      ((body.exec q call.scope).made.reverse.flatMap ScopeCopy.blocks).Pairwise (· > ·) ∧
      (body.exec q call.scope).process.memory.Released (body.exec q call.scope).made.reverse
        ((body.exec q call.scope).process.memory.endScope (body.exec q call.scope).scope) := by
  have hopened : q.memory.Accounts (.scope call.scope :: bridges.map .bridge ++ others) :=
    (trade_opened held hc others ha).1
  have hcopied := body.copied hopened
  have hended : (body.exec q call.scope).process.memory.Accounts
      (.scope (body.exec q call.scope).scope ::
        ((body.exec q call.scope).given ++ bridges.map .bridge ++ others)) :=
    (body.trade q call.scope others hopened).1
  have hcopies : (body.exec q call.scope).scope.copies = (body.exec q call.scope).made.reverse := by
    rw [hcopied.scope, (trade_beginCall hc).1]
    exact List.append_nil _
  have hpool : (body.exec q call.scope).scope.pool? = bridge.pool? := by
    rw [hcopied.scope, (trade_beginCall hc).1]
    rfl
  refine ⟨hcopies, hcopied.order, ?_⟩
  rw [← hcopies]
  refine Memory.released_endScope hended (fun copy hcopy id hid => ?_) fun id hid => ?_
  · rw [hcopies] at hcopy
    have hin := hcopied.pools copy (List.mem_reverse.mp hcopy) id hid
    rw [(trade_beginCall hc).1] at hin
    exact hpool.trans hin
  · -- the bridge of the call refers to the pool of the scope
    have hbridge : Holder.bridge bridge ∈ bridges.map Holder.bridge := List.mem_map_of_mem held
    rw [hpool] at hid
    rw [poolsOf_append, poolsOf_append]
    refine List.mem_append_left _ (List.mem_append_right _ ?_)
    exact List.mem_flatMap.mpr ⟨_, hbridge, Option.mem_toList.mpr hid⟩

/-- The binding of a call is in place when its body is done. -/
theorem holds_invoke (body : Body bridges σ) (hi : p.registries.Issued)
    (hc : p.beginCall bridge op shape policy = (.ok call, q))
    (hroom : (body.exec q call.scope).process.registries.issued ≤ Handle.room) :
    Option.Rel (body.exec q call.scope).process.Holds policy call.binding? := by
  rcases beginCall_cases hc with ⟨_, _, _, hresult, _⟩ | ⟨rfl, hresult, _⟩ |
    ⟨pol, bound, rfl, hbinds, _, hresult, rfl⟩
  · cases hresult
  · cases hresult
    exact .none
  · cases hresult
    have hran := (bound.beside_sharePool? bridge.pool?).restores.trans
      (body.restores _ (bridge.scope shape))
    have hmore := hran.issued
    rw [hbinds.issued] at hmore
    obtain ⟨hslot, hobjects⟩ := hbinds.stands hran hi hroom
    refine .some ⟨hslot, ?_, ?_⟩
    · rw [hslot]
      exact Handle.issue_ne_null (Nat.lt_of_lt_of_le hmore hroom)
    · rw [hobjects, if_pos ⟨rfl, rfl⟩]

/-- The order in which a call ends. -/
theorem teardown_invoke (held : bridge ∈ bridges) (body : Body bridges σ)
    (ha : p.memory.Accounts (bridges.map .bridge ++ others)) (hi : p.registries.Issued)
    (hroom : (p.invokeBody bridge op shape policy body.exec).2.registries.issued ≤ Handle.room)
    (hc : p.beginCall bridge op shape policy = (.ok call, q)) :
    Teardown policy call (body.exec q call.scope)
      (p.invokeBody bridge op shape policy body.exec).2 := by
  obtain ⟨hcopies, horder, hreleased⟩ := released_invoke held body ha hc
  have hend := congrArg Prod.snd (invoke_reached body.exec hc).1
  rw [issued_invoke hc] at hroom
  have hbound := holds_invoke body hi hc hroom
  rw [hend]
  refine ⟨hcopies, horder, hbound, ends_endCall _ hreleased.ends hbound, ?_⟩
  rw [memory_endCall]
  exact hreleased

/-- A call among bridges that are there, made before the counter of handles wraps around. -/
theorem tidy_invoke (held : bridge ∈ bridges) (body : Body bridges σ)
    (ha : p.memory.Accounts (bridges.map .bridge ++ others)) (hi : p.registries.Issued)
    (hroom : (p.invokeBody bridge op shape policy body.exec).2.registries.issued ≤ Handle.room) :
    p.Tidy bridge op shape policy body := by
  have hrestores : p.Restores (p.invokeBody bridge op shape policy body.exec).2 :=
    restores_invoke body.restores
  obtain ⟨hslot, hobjects⟩ := hrestores.same hi hroom
  obtain ⟨hafter, hspares⟩ := (body.trade_call p held op shape policy) others ha
  rw [List.append_assoc] at hafter
  refine ⟨⟨hslot, hobjects, ha.kept hafter ?_ (native_handedOut body.native)⟩,
    fun hpolicy hbound run => ?_, fun call q hc => teardown_invoke held body ha hi hroom hc⟩
  · exact Memory.Spares.mono (by simpa using hspares)
  · obtain ⟨pol, rfl⟩ := Option.isSome_iff_exists.mp hpolicy
    unfold invoke
    rw [beginCall_of_bound pol hbound]

end Process

/-- Before the rest of a body, whatever is registered was given out. -/
theorem Body.issued_before {bridges : List Bridge} {σ : Type} (rest : Body bridges σ)
    {p q : Process} (s : Scope) (hi : p.registries.Issued) (hstep : p.Restores q)
    (hroom : (rest.exec q s).process.registries.issued ≤ Handle.room) : q.registries.Issued :=
  hstep.issued_after hi (Nat.le_trans (rest.restores q s).issued hroom)

/-- Every call that a body makes, however deep, is neutral and torn down in order. -/
theorem Body.tidy {bridges : List Bridge} {σ : Type} (body : Body bridges σ) {p : Process}
    {s : Scope} {others : List Holder}
    (ha : p.memory.Accounts (.scope s :: bridges.map .bridge ++ others))
    (hi : p.registries.Issued)
    (hroom : (body.exec p s).process.registries.issued ≤ Handle.room) :
    body.EveryCall Process.Tidy p s := by
  induction body generalizing p s others with
  | done outcome learnt => trivial
  | refuse granted next ih =>
      have hrefused := (Memory.Operation.trade p (.refuse granted)) _ ha
      have hstep := (p.beside_setHeap { p.heap with granted }).restores
      exact ih hrefused.1 (next.issued_before s hi hstep hroom) hroom
  | input bytes secrecy next ih =>
      have hinput := (Memory.Operation.trade p (.input s bytes secrecy)) _ ha
      have hstep := (p.beside_setMemory (p.memory.input s bytes secrecy).2.2).restores
      exact ih _ hinput.1 ((next _).issued_before _ hi hstep hroom) hroom
  | inputBatch items next ih =>
      have hinput := (Memory.Operation.trade p (.inputBatch s items)) _ ha
      have hstep := (p.beside_setMemory (p.memory.inputBatch s items).2.2).restores
      exact ih _ hinput.1 ((next _).issued_before _ hi hstep hroom) hroom
  | call c next ih =>
      have hcall := (c.trade p).frame (bridges.map .bridge)
      obtain ⟨hafter, -⟩ := accounts_over hcall ha
      exact ih _ hafter ((next _).issued_before s hi (c.beside p).restores hroom) hroom
  | aside work keeps restores next ih =>
      have hwork := (keeps p) _ ha
      exact ih _ hwork.1 ((next _).issued_before s hi (restores p) hroom) hroom
  | invoke bridge held op shape policy inner next ihInner ihNext =>
      have hinvoke := inner.trade_call p held op shape policy
      obtain ⟨hafter, -⟩ := accounts_over hinvoke ha
      have hstep : p.Restores (p.invokeBody bridge op shape policy inner.exec).2 :=
        Process.restores_invoke inner.restores
      have hnext := ihNext _ _ hafter ((next _ _).issued_before s hi hstep hroom) hroom
      -- the scope of the outer body is one more bystander of the call
      have haside : p.memory.Accounts (bridges.map .bridge ++ (.scope s :: others)) :=
        ha.congr (.of_perm List.perm_middle.symm)
      have hroom' := Nat.le_trans ((next _ _).restores _ s).issued hroom
      refine ⟨Process.tidy_invoke held inner haside hi hroom', fun call q hc => ?_, hnext⟩
      have hopened := (Process.trade_opened held hc _ haside).1
      rw [Process.issued_invoke hc] at hroom'
      exact ihInner hopened (Process.issued_beginCall hi hc) hroom'

namespace Ledger

/-- The bridges that are there. -/
def bridges (s : Ledger) : List Bridge :=
  s.holders.filterMap fun
    | .bridge b => some b
    | _ => none

theorem holders_bridges (s : Ledger) :
    ∃ others, s.holders.Perm (s.bridges.map Holder.bridge ++ others) := by
  unfold bridges
  induction s.holders with
  | nil => exact ⟨[], .refl _⟩
  | cons x holders ih =>
      obtain ⟨others, hperm⟩ := ih
      cases x
      case bridge b => exact ⟨others, hperm.cons _⟩
      all_goals exact ⟨_ :: others, (hperm.cons _).trans List.perm_middle.symm⟩

/-- After every run, every call is neutral and torn down in order, whatever its body does and
however it ends, and so is every further call that is made in its body; as long as the counter of
handles has not wrapped around. -/
theorem call_tidy (ops : List Process.Operation) {σ : Type} {bridge : Bridge}
    (held : bridge ∈ (history ops).bridges) (op : String) (shape : CallShape)
    (policy : Option Policy) (body : Body (history ops).bridges σ)
    (hroom : ((history ops).process.invokeBody bridge op shape policy body.exec).2.registries.issued
      ≤ Handle.room) :
    (history ops).process.Tidy bridge op shape policy body ∧
      ∀ call q, (history ops).process.beginCall bridge op shape policy = (.ok call, q) →
        body.EveryCall Process.Tidy q call.scope := by
  obtain ⟨others, hperm⟩ := (history ops).holders_bridges
  have hi := issued_history ops
  have ha : (history ops).process.memory.Accounts ((history ops).bridges.map .bridge ++ others) :=
    (balanced_history ops).congr (.of_perm hperm)
  refine ⟨Process.tidy_invoke held body ha hi hroom, fun call q hc => ?_⟩
  have hopened := (Process.trade_opened held hc others ha).1
  rw [Process.issued_invoke hc] at hroom
  exact body.tidy hopened (Process.issued_beginCall hi hc) hroom

/-- A small pool. -/
def smallConfig : Config where
  pool := { enabled := true, blocks := 2, blockSize := 4 }

/-- A process with a bridge that has a small pool. -/
def bridged : List Process.Operation := [.createBridge smallConfig]

def smallBridge : Bridge := ⟨smallConfig, some 0⟩

/-- A body that marshals into the pool and beside it, makes a call with a policy of its own, which
is refused, and panics. -/
def busyBody (held : smallBridge ∈ (history bridged).bridges) :
    Body (history bridged).bridges Unit :=
  .input [1, 2] .secret fun _ =>
  .input [1, 2, 3, 4, 5] .secret fun _ =>
  .inputBatch [[1], [2, 3]] fun _ =>
  .invoke smallBridge held "inner" .multiStep (some .unsupported) (.done (.returned 0) ()) fun _ _ =>
  .done (.panicked "stop") ()

theorem held_smallBridge : smallBridge ∈ (history bridged).bridges := by decide

theorem call_tidy_busyBody :
    ((history bridged).process.invokeBody smallBridge "outer" .multiStep (some .unsupported)
        (busyBody held_smallBridge).exec).2.registries.issued ≤ Handle.room ∧
      (history bridged).process.Tidy smallBridge "outer" .multiStep (some .unsupported)
        (busyBody held_smallBridge) ∧
      ∀ call q, (history bridged).process.beginCall smallBridge "outer" .multiStep
          (some .unsupported) = (.ok call, q) →
        (busyBody held_smallBridge).EveryCall Process.Tidy q call.scope :=
  ⟨by decide, call_tidy bridged held_smallBridge "outer" .multiStep (some .unsupported)
    (busyBody held_smallBridge) (by decide)⟩

end Ledger

end NativeBoundary

import NativeBoundary.Proofs.Handles.Issued

/-!
# Bindings come and go

A call binds its policy, runs, and ends the binding.  The body of the call may register and release
handles of its own, and bind nothing that it does not unbind.  `Process.Restores p q` says that the
slot and everything registered are in `q` as they were in `p`, as long as the counter of handles has
not wrapped around; handles may have been given out in between.

The main lemma is `Process.restores_binding`: when everything between a bind and its end restores
the state just after the bind, the whole restores the state before it.  The slot still holds the
binding when it ends, so it is cleared; and the handle of the binding was registered nowhere before,
so releasing it leaves exactly what was there.

`Process.beginCall_cases` lists what can stand before the body of a call.
-/

namespace NativeBoundary

namespace Process

variable {p q r : Process}

/-- The slot and everything registered are back to what they were. -/
structure Restores (p q : Process) : Prop where
  issued : p.registries.issued ≤ q.registries.issued
  same : p.registries.Issued → q.registries.issued ≤ Handle.room →
    q.slot = p.slot ∧ ∀ r handle, q.lookup? r handle = p.lookup? r handle

theorem Beside.restores (hb : p.Beside q) : p.Restores q where
  issued := Nat.le_of_eq (by rw [hb.registries])
  same := by
    intro _ _
    refine ⟨hb.slot, fun r handle => ?_⟩
    unfold lookup?
    rw [hb.registries]

theorem Restores.refl (p : Process) : p.Restores p := (Beside.refl p).restores

/-- What is registered was given out, still. -/
theorem Restores.issued_after (hr : p.Restores q) (hi : p.registries.Issued)
    (hroom : q.registries.issued ≤ Handle.room) : q.registries.Issued := by
  intro r handle hsome
  have hsame : q.registries.lookup? r handle = p.registries.lookup? r handle :=
    (hr.same hi hroom).2 r handle
  rw [hsame] at hsome
  obtain ⟨n, hn, heq⟩ := hi r handle hsome
  exact ⟨n, Nat.lt_of_lt_of_le hn hr.issued, heq⟩

theorem Restores.trans (first : p.Restores q) (second : q.Restores r) : p.Restores r where
  issued := Nat.le_trans first.issued second.issued
  same := by
    intro hi hroom
    have hroom' := Nat.le_trans second.issued hroom
    obtain ⟨hslot, hobjects⟩ := first.same hi hroom'
    obtain ⟨hslot', hobjects'⟩ := second.same (first.issued_after hi hroom') hroom
    exact ⟨hslot'.trans hslot, fun r handle => (hobjects' r handle).trans (hobjects r handle)⟩

/-- A binding that was made: the policy is registered under the next handle, which stands in the
slot. -/
structure Binds (p : Process) (policy : Policy) (q : Process) : Prop where
  free : p.slot = 0
  registries : q.registries = (p.registries.register globalRegistry (.policy policy)).2
  slot : q.slot = (Handle.issue p.registries.issued).toPointer

theorem binds_bind {policy : Policy} (hfree : p.slot = 0) :
    ∃ q, p.bind policy = (.ok ⟨Handle.issue p.registries.issued⟩, q) ∧ p.Binds policy q := by
  have hunbound : p.isBound = false := by simp [isBound, hfree]
  unfold bind
  simp only [hunbound, Bool.false_eq_true, if_false]
  refine ⟨_, rfl, hfree, registries_setSlot _ _, ?_⟩
  unfold setSlot
  simp only
  split <;> rfl

variable {policy : Policy} {b : Binding}

/-- A binding that was made is registered. -/
theorem Binds.lookup (hb : p.Binds policy q) (s : RegistryId) (handle : Handle) :
    q.lookup? s handle = if s = globalRegistry ∧ handle = Handle.issue p.registries.issued
      then some (.policy policy) else p.lookup? s handle := by
  unfold lookup?
  rw [hb.registries]
  exact Registries.lookup?_register _ _ _ _ _

theorem Binds.issued (hb : p.Binds policy q) :
    q.registries.issued = p.registries.issued + 1 := by
  rw [hb.registries]
  rfl

/-- What follows a binding and restores what it found leaves the binding in place. -/
theorem Binds.stands (hb : p.Binds policy q) (hr : q.Restores r) (hi : p.registries.Issued)
    (hroom : r.registries.issued ≤ Handle.room) :
    r.slot = (Handle.issue p.registries.issued).toPointer ∧
      ∀ s handle, r.lookup? s handle =
        if s = globalRegistry ∧ handle = Handle.issue p.registries.issued
        then some (.policy policy) else p.lookup? s handle := by
  have hiq : q.registries.Issued := by
    rw [hb.registries]
    exact hi.register _ _
  obtain ⟨hslot, hobjects⟩ := hr.same hiq hroom
  exact ⟨hslot.trans hb.slot, fun s handle => (hobjects s handle).trans (hb.lookup s handle)⟩

/-- Binding a policy, then anything that restores what it found, then ending the binding: all of it
restores what was there before. -/
theorem restores_binding (hb : p.Binds policy q) (hr : q.Restores r) :
    p.Restores (r.unbind ⟨Handle.issue p.registries.issued⟩) where
  issued := by
    have hmore := hr.issued
    rw [hb.issued] at hmore
    rw [registries_unbind, Registries.issued_release]
    omega
  same := by
    intro hi hroom
    rw [registries_unbind, Registries.issued_release] at hroom
    obtain ⟨hslot, hobjects⟩ := hb.stands hr hi hroom
    refine ⟨?_, fun s handle => ?_⟩
    · rw [slot_unbind, if_pos hslot, hb.free]
    · rw [lookup?_unbind, hobjects s handle]
      by_cases hnew : s = globalRegistry ∧ handle = Handle.issue p.registries.issued
      · -- the handle was not registered before
        have hlt : p.registries.issued < Handle.room := by
          have hmore := hr.issued
          rw [hb.issued] at hmore
          omega
        rw [if_pos hnew, hnew.1, hnew.2]
        exact (hi.fresh hlt globalRegistry).symm
      · rw [if_neg hnew, if_neg hnew]

section

variable {bridge : Bridge} {op : String} {shape : CallShape} {policy? : Option Policy}
  {result : Except Fault Call}

/-- A thread that has a policy makes no call with another one. -/
theorem beginCall_of_bound (policy : Policy) (hbound : p.slot ≠ 0) :
    p.beginCall bridge op shape (some policy) =
      (.error .alreadyBound, p.report .bindingRefused) := by
  have hisBound : p.isBound = true := by simp [isBound, hbound]
  simp only [beginCall, bind?, bind_of_isBound policy hisBound]

/-- What can stand before the body of a call: a refusal, a scope, or a binding and a scope. -/
theorem beginCall_cases (hc : p.beginCall bridge op shape policy? = (result, q)) :
    (∃ policy, policy? = some policy ∧ p.slot ≠ 0 ∧ result = .error .alreadyBound ∧
      q = p.report .bindingRefused) ∨
    (policy? = none ∧ result = .ok ⟨op, none, bridge.scope shape⟩ ∧
      q = p.sharePool? bridge.pool?) ∨
    (∃ policy bound, policy? = some policy ∧ p.Binds policy bound ∧
      bound.memory = p.memory ∧
      result = .ok ⟨op, some ⟨Handle.issue p.registries.issued⟩, bridge.scope shape⟩ ∧
      q = bound.sharePool? bridge.pool?) := by
  cases policy? with
  | none =>
      cases hc
      exact .inr (.inl ⟨rfl, rfl, rfl⟩)
  | some policy =>
      by_cases hfree : p.slot = 0
      · obtain ⟨bound, hbind, hbinds⟩ : ∃ bound, _ ∧ p.Binds policy bound := binds_bind hfree
        have hmemory := p.memory_bind policy
        rw [hbind] at hmemory
        simp only [beginCall, bind?, hbind] at hc
        cases hc
        exact .inr (.inr ⟨policy, bound, rfl, hbinds, hmemory, rfl, rfl⟩)
      · rw [beginCall_of_bound policy hfree] at hc
        cases hc
        exact .inl ⟨policy, rfl, hfree, rfl, rfl⟩

theorem judge_eq (p : Process) (op : String) (outcome : CallOutcome) :
    (p.judge op outcome).2 = p ∨ (p.judge op outcome).2 = p.report (.bitLeak op) := by
  cases outcome with
  | failed fault => exact .inl rfl
  | panicked message => exact .inl rfl
  | returned code =>
      unfold judge
      simp only
      split
      · exact .inl rfl
      · split
        · exact .inr rfl
        · exact .inl rfl

@[simp] theorem memory_judge (p : Process) (op : String) (outcome : CallOutcome) :
    (p.judge op outcome).2.memory = p.memory := by
  rcases p.judge_eq op outcome with heq | heq <;> rw [heq]
  rfl

theorem beside_judge (p : Process) (op : String) (outcome : CallOutcome) :
    p.Beside (p.judge op outcome).2 := by
  rcases p.judge_eq op outcome with heq | heq <;> rw [heq]
  · exact .refl p
  · exact p.beside_report _

@[simp] theorem memory_endCall (p : Process) (call : Call) (outcome : CallOutcome) :
    (p.endCall call outcome).2.memory = p.memory.endScope call.scope := by
  have hjudge := (p.endScope call.scope).memory_judge call.op outcome
  unfold endCall unbind?
  simp only
  cases call.binding? with
  | none => exact hjudge
  | some b => exact (memory_unbind _ b).trans hjudge

end

end Process

end NativeBoundary

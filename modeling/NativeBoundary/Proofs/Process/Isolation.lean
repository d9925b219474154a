import Mathlib.Data.List.Induction
import Mathlib.Logic.Function.Basic
import NativeBoundary.Proofs.Process.Workers

/-!
# Workers do not interfere

Any number of workers run on threads of one process.  Each has a policy slot and books of its own;
the registries, the counter of handles and native memory are shared.  Their steps come in any order,
one at a time, and the allocator may refuse requests in any of them.

A step of one worker gives out handles that nobody had, takes away only handles of its own, and
changes no block from before (`Worker.Spares`).  So it leaves the outlook of every other worker as
it is, and the steps of the others can be dropped from a run without a worker seeing the
difference.

* `Workers.Isolated` — what a worker sees is what it sees alone, and it calls no policy but its own;
* `Workers.isolated` — it holds in every run with room for its handles.
-/

namespace NativeBoundary

namespace Worker

variable {v w w' : Worker} {p : Process}

/-- The worker as it finds a process that has gone on without it. -/
def within (v : Worker) (p : Process) : Worker :=
  { v with process := { p with slot := v.process.slot } }

/-- What a step of one worker leaves to the others. -/
structure Spares (w w' : Worker) : Prop where
  issued : w.issued ≤ w'.issued
  lookup : ∀ n < w.issued, Handle.issue n ∉ w.handles →
    w'.process.lookup? globalRegistry (Handle.issue n) =
      w.process.lookup? globalRegistry (Handle.issue n)
  /-- Handles that the worker gets are new. -/
  handles : ∀ h ∈ w'.handles,
    h ∈ w.handles ∨ ∃ n, w.issued ≤ n ∧ n < w'.issued ∧ h = Handle.issue n
  next : w.process.heap.next ≤ w'.process.heap.next
  kept : ∀ id < w.process.heap.next, w'.process.heap.block? id = w.process.heap.block? id

theorem spares_step (w : Worker) (op : WorkerOp) (hroom : (w.step op).issued ≤ Handle.room) :
    w.Spares (w.step op) := by
  have hle := w.issued_le op
  rcases w.step_cases op with ⟨-, object, hs⟩ | ⟨n, handle, hs⟩ | hs
  · have hheap := Process.heap_congr hs.memory
    have hissued := hs.issued
    refine ⟨hle, fun n hn _ => ?_, fun h hh => ?_, ?_, fun id _ => ?_⟩
    · refine (hs.lookup _).trans (if_neg fun heq => ?_)
      have := Handle.issue_injective (by omega) (by omega) heq
      omega
    · rw [hs.handles] at hh
      rcases List.mem_append.mp hh with hold | hnew
      · exact .inl hold
      · exact .inr ⟨w.issued, Nat.le_refl _, by omega, List.mem_singleton.mp hnew⟩
    · rw [hheap]
    · rw [hheap]
  · have hheap := Process.heap_congr hs.memory
    refine ⟨hle, fun k _ hother => ?_, fun h hh => .inl (hs.handles ▸ hh), ?_, fun id _ => ?_⟩
    · refine (hs.lookup _).trans (if_neg ?_)
      rintro rfl
      exact hother (List.mem_of_getElem? hs.own)
    · rw [hheap]
    · rw [hheap]
  · exact ⟨hle, fun n _ _ => hs.lookup _, fun h hh => .inl (hs.handles ▸ hh), hs.next, hs.kept⟩

/-- The worker and another one, in one process. -/
structure Beside (v w : Worker) : Prop where
  registries : v.process.registries = w.process.registries
  memory : v.process.memory = w.process.memory
  apart : ∀ h ∈ v.handles, h ∉ w.handles

theorem Beside.lookup (hb : v.Beside w) (hs : w.Spares w') (hv : v.Owned) :
    ∀ h ∈ v.handles, w'.process.lookup? globalRegistry h = v.process.lookup? globalRegistry h := by
  intro h hh
  obtain ⟨n, hn, rfl⟩ := hv.given h hh
  have hissued : v.issued = w.issued := congrArg Registries.issued hb.registries
  rw [hs.lookup n (hissued ▸ hn) (hb.apart _ hh)]
  exact (congrArg (Registries.lookup? · globalRegistry _) hb.registries).symm

/-- A step of another worker leaves a worker what it owns. -/
theorem Owned.within (hv : v.Owned) (hb : v.Beside w) (hs : w.Spares w')
    (hissued : w'.process.registries.Issued) : (v.within w'.process).Owned where
  issued := hissued
  given := by
    intro h hh
    obtain ⟨n, hn, heq⟩ := hv.given h hh
    have hsame : v.issued = w.issued := congrArg Registries.issued hb.registries
    exact ⟨n, Nat.lt_of_lt_of_le (hsame ▸ hn) hs.issued, heq⟩
  distinct := hv.distinct
  slot := hv.slot
  live := by
    intro x hx h hh object hlookup
    have hsame := hb.lookup hs hv h (List.mem_of_getElem? hh)
    exact hv.live x hx h hh object (hsame.symm.trans hlookup)
  numbered := hv.numbered
  handed := by
    intro raw hraw
    have hnext := hs.next
    rw [Process.heap, ← hb.memory] at hnext
    exact (hv.handed raw hraw).mono hnext

/-- It leaves its outlook too. -/
theorem outlook_within (hv : v.Owned) (hb : v.Beside w) (hs : w.Spares w') :
    (v.within w'.process).outlook = v.outlook := by
  refine Outlook.ext ?_ rfl rfl ?_ rfl
  · exact List.map_congr_left fun h hh => hb.lookup hs hv h hh
  · refine List.map_congr_left fun raw hraw => (hv.handed raw hraw).bytes_congr ?_
    have hkept := hs.kept
    rw [Process.heap, ← hb.memory] at hkept
    exact hkept

/-- A call asks the policy of a live binding of the worker, if any. -/
theorem Owned.asks (hv : v.Owned) (granted : Option Nat) (c : WorkerCall) :
    v.process.Asks (v.step (.call granted c)).process fun call =>
      ∃ x ∈ v.live, ∃ h, v.handles[x.1]? = some h ∧
        v.process.lookup? globalRegistry h = some (.policy x.2) ∧ call.policy? = some h := by
  cases hbound : v.process.boundPolicy? with
  | none =>
      have hnone : (v.process.granting granted).boundPolicy? = none := hbound
      exact Process.asks_none (KemCall.run_of_unbound hnone).2
  | some policy =>
      obtain ⟨hslot, hlookup⟩ := Process.boundPolicy?_eq_some_iff.mp hbound
      rcases hv.slot with hnull | ⟨x, hx, h, hh, heq⟩
      · exact absurd hnull hslot
      · have hhandle : (⟨v.process.slot⟩ : Handle) = h := Handle.toPointer_inj.mp heq
        rw [hhandle] at hlookup
        rw [hv.live x hx h hh _ hlookup] at hlookup
        obtain ⟨made, hcalls, hlength, hall⟩ :=
          KemCall.asks_bound (v.process.granting granted) (v.resolve c)
        refine ⟨made, hcalls, hlength, fun call hcall => ⟨x, hx, h, hh, hlookup, ?_⟩⟩
        rw [hall call hcall, ← hhandle]
        rfl

end Worker

/-- The number of a thread. -/
abbrev ThreadId := Nat

/-- A process with a worker on each of its threads. -/
structure Workers where
  process : Process
  slot : ThreadId → UInt64 := fun _ => 0
  books : ThreadId → Books := fun _ => {}

namespace Workers

/-- The worker of a thread that goes on. -/
def resume (s : Workers) (t : ThreadId) : Worker :=
  { s.books t with process := { s.process with slot := s.slot t } }

/-- What a worker leaves when another one goes on. -/
def suspend (s : Workers) (t : ThreadId) (w : Worker) : Workers where
  process := w.process
  slot := Function.update s.slot t w.process.slot
  books := Function.update s.books t w.toBooks

/-- A step of one of the workers. -/
def step (s : Workers) (x : ThreadId × WorkerOp) : Workers :=
  s.suspend x.1 ((s.resume x.1).step x.2)

/-- A run of workers that begin in a process without handles of their own and with empty slots. -/
def after (p : Process) (steps : List (ThreadId × WorkerOp)) : Workers :=
  steps.foldl step { process := p }

variable {s : Workers} {p : Process} {t u : ThreadId}

theorem resume_suspend (s : Workers) (t : ThreadId) (w : Worker) :
    (s.suspend t w).resume t = w := by
  simp [resume, suspend]

theorem resume_suspend_of_ne (hne : u ≠ t) (w : Worker) :
    (s.suspend t w).resume u = (s.resume u).within w.process := by
  simp [resume, suspend, Worker.within, Function.update_of_ne hne]

theorem resume_step_of_ne {x : ThreadId × WorkerOp} (hne : u ≠ x.1) :
    (s.step x).resume u = (s.resume u).within ((s.resume x.1).step x.2).process :=
  resume_suspend_of_ne hne _

theorem resume_step (s : Workers) (x : ThreadId × WorkerOp) :
    (s.step x).resume x.1 = (s.resume x.1).step x.2 := s.resume_suspend _ _

/-- The workers own what they have, and no two have a handle in common. -/
structure Kept (s : Workers) : Prop where
  owned : ∀ t, (s.resume t).Owned
  apart : ∀ t u, t ≠ u → ∀ h ∈ (s.books t).handles, h ∉ (s.books u).handles

theorem kept_start (hp : p.registries.Issued) : Kept { process := p } where
  owned := fun _ => ⟨hp, fun _ hh => (nomatch hh), .nil, .inl rfl, fun _ hx => (nomatch hx),
    fun _ hx => (nomatch hx), fun _ hraw => (nomatch hraw)⟩
  apart := fun _ _ _ _ hh => nomatch hh

theorem Kept.beside (hk : s.Kept) (hne : u ≠ t) : (s.resume u).Beside (s.resume t) :=
  ⟨rfl, rfl, hk.apart u t hne⟩

/-- A step of another worker leaves the outlook of a worker as it is. -/
theorem Kept.outlook_step_of_ne (hk : s.Kept) {x : ThreadId × WorkerOp} (hne : u ≠ x.1)
    (hroom : (s.step x).process.registries.issued ≤ Handle.room) :
    ((s.step x).resume u).outlook = (s.resume u).outlook := by
  rw [resume_step_of_ne hne]
  have hs := (s.resume x.1).spares_step x.2 hroom
  exact Worker.outlook_within (hk.owned u) (hk.beside hne) hs

/-- New handles are nobody's. -/
theorem Kept.apart_step (hk : s.Kept) (x : ThreadId × WorkerOp)
    (hroom : (s.step x).process.registries.issued ≤ Handle.room) (hne : u ≠ x.1) :
    ∀ h ∈ ((s.resume x.1).step x.2).handles, h ∉ (s.books u).handles := by
  intro h hh hother
  rcases ((s.resume x.1).spares_step x.2 hroom).handles h hh with hold | ⟨n, hle, hlt, rfl⟩
  · exact hk.apart x.1 u (Ne.symm hne) h hold hother
  · obtain ⟨m, hm, heq⟩ := (hk.owned u).given _ hother
    have hbefore : m < (s.resume x.1).issued := hm
    have hafter : ((s.resume x.1).step x.2).issued ≤ Handle.room := hroom
    have := Handle.issue_injective (by omega) (by omega) heq
    omega

/-- A step of any worker keeps what is kept. -/
theorem Kept.step (hk : s.Kept) (x : ThreadId × WorkerOp)
    (hroom : (s.step x).process.registries.issued ≤ Handle.room) : (s.step x).Kept := by
  have howned := (hk.owned x.1).step x.2 hroom
  have hbooks : ∀ {u}, u ≠ x.1 → (s.step x).books u = s.books u := fun hne =>
    Function.update_of_ne hne _ _
  have hown : (s.step x).books x.1 = ((s.resume x.1).step x.2).toBooks := Function.update_self _ _ _
  constructor
  case owned =>
    intro u
    by_cases hsame : u = x.1
    · subst hsame
      rw [resume_step]
      exact howned
    · rw [resume_step_of_ne hsame]
      have hs := (s.resume x.1).spares_step x.2 hroom
      exact (hk.owned u).within (hk.beside hsame) hs howned.issued
  case apart =>
    intro t u hne h hh hother
    by_cases ht : t = x.1
    · subst ht
      rw [hown] at hh
      rw [hbooks (Ne.symm hne)] at hother
      exact hk.apart_step x hroom (Ne.symm hne) h hh hother
    · rw [hbooks ht] at hh
      by_cases hu : u = x.1
      · subst hu
        rw [hown] at hother
        exact hk.apart_step x hroom hne h hother hh
      · rw [hbooks hu] at hother
        exact hk.apart t u hne h hh hother

theorem after_append (p : Process) (steps : List (ThreadId × WorkerOp)) (x : ThreadId × WorkerOp) :
    after p (steps ++ [x]) = (after p steps).step x := List.foldl_append

/-- At most one handle is given out in a step that registers something. -/
theorem issued_after_le (p : Process) (steps : List (ThreadId × WorkerOp)) :
    (after p steps).process.registries.issued ≤
      p.registries.issued + steps.countP (·.2.registers) := by
  induction steps using List.reverseRecOn with
  | nil => exact Nat.le_refl _
  | append_singleton steps x ih =>
      have hstep := ((after p steps).resume x.1).issued_step_le x.2
      rw [after_append, List.countP_append, List.countP_singleton]
      exact Nat.le_trans hstep (by rw [← Nat.add_assoc]; exact Nat.add_le_add_right ih _)

/-- Everything is kept in a run with room for its handles. -/
theorem kept_after (hp : p.registries.Issued) (steps : List (ThreadId × WorkerOp))
    (hroom : p.registries.issued + steps.countP (·.2.registers) ≤ Handle.room) :
    (after p steps).Kept := by
  induction steps using List.reverseRecOn with
  | nil => exact kept_start hp
  | append_singleton steps x ih =>
      have hissued := issued_after_le p (steps ++ [x])
      rw [after_append] at hissued ⊢
      refine (ih ?_).step x (Nat.le_trans hissued hroom)
      rw [List.countP_append] at hroom
      omega

/-- The steps of the others can be dropped without a worker telling the difference. -/
theorem outlook_filter (hp : p.registries.Issued) (steps : List (ThreadId × WorkerOp))
    (hroom : p.registries.issued + steps.countP (·.2.registers) ≤ Handle.room) (t : ThreadId) :
    ((after p steps).resume t).outlook =
      ((after p (steps.filter (·.1 = t))).resume t).outlook := by
  induction steps using List.reverseRecOn with
  | nil => rfl
  | append_singleton steps x ih =>
      have hfull := issued_after_le p (steps ++ [x])
      have hprefix : p.registries.issued + steps.countP (·.2.registers) ≤ Handle.room := by
        rw [List.countP_append] at hroom
        omega
      have hk := kept_after hp steps hprefix
      rw [after_append] at hfull ⊢
      by_cases hsame : x.1 = t
      · subst hsame
        have hfilter : (steps ++ [x]).filter (·.1 = x.1) = steps.filter (·.1 = x.1) ++ [x] := by
          simp
        have hfewer : (steps.filter (·.1 = x.1) ++ [x]).countP (·.2.registers) ≤
            (steps ++ [x]).countP (·.2.registers) :=
          (List.filter_sublist.append_right [x]).countP_le
        have halone := issued_after_le p (steps.filter (·.1 = x.1) ++ [x])
        have hown := kept_after hp (steps.filter (·.1 = x.1))
          (Nat.le_trans (Nat.add_le_add_left List.filter_sublist.countP_le _) hprefix)
        rw [hfilter, after_append, resume_step, resume_step]
        rw [after_append] at halone
        exact Worker.outlook_step_congr (hown.owned x.1) (hk.owned x.1) (ih hprefix) x.2
          (Nat.le_trans halone (by omega)) (Nat.le_trans hfull hroom)
      · have hfilter : (steps ++ [x]).filter (·.1 = t) = steps.filter (·.1 = t) := by
          simp [hsame]
        rw [hfilter, hk.outlook_step_of_ne (Ne.symm hsame) (Nat.le_trans hfull hroom)]
        exact ih hprefix

/-- A worker sees what it would see alone, and no policy is called on its behalf but the one that it
has bound. -/
structure Isolated (p : Process) (steps : List (ThreadId × WorkerOp)) (t : ThreadId) : Prop where
  seen : ((after p steps).books t).seen = ((after p (steps.filter (·.1 = t))).books t).seen
  asks : ∀ granted c, ((after p steps).resume t).process.Asks
    (((after p steps).resume t).step (.call granted c)).process fun call =>
      ∃ x ∈ ((after p steps).books t).live, ∃ h, ((after p steps).books t).handles[x.1]? = some h ∧
        (after p steps).process.lookup? globalRegistry h = some (.policy x.2) ∧
        call.policy? = some h

/-- Workers do not interfere, in any run with room for its handles. -/
theorem isolated (hp : p.registries.Issued) (steps : List (ThreadId × WorkerOp))
    (hroom : p.registries.issued + steps.countP (·.2.registers) ≤ Handle.room) (t : ThreadId) :
    Isolated p steps t where
  seen := congrArg Outlook.seen (outlook_filter hp steps hroom t)
  asks := fun granted c =>
    ((kept_after hp steps hroom).owned t).asks granted c

/-- A policy that puts its tag into whatever it answers. -/
def taggedPolicy (tag : UInt8) : Policy where
  encapsulate := fun _ rho => .value (tag :: rho.val, [tag])
  decapsulate := fun _ ciphertext => .value (tag :: ciphertext)
  derivePublic := fun _ => .value [tag]

/-- Two workers bind policies at the same time, register keys and derive from them.  One of them
ends its binding before the other one passes on what it was handed. -/
def twoWorkers : List (ThreadId × WorkerOp) :=
  [(1, .bind (taggedPolicy 1)), (2, .bind (taggedPolicy 2)), (2, .register (.value .unit)),
    (1, .register (.value .unit)), (1, .call none (.derivePublic (some 1) (some .empty))),
    (2, .call none (.derivePublic (some 1) (some .empty))), (1, .unbind 0),
    (2, .call none (.decapsulate (some 1) (.handed 0) (some .empty))),
    (1, .call none (.derivePublic (some 1) (some .empty)))]

theorem isolated_twoWorkers :
    ({} : Process).registries.Issued ∧
      ({} : Process).registries.issued + twoWorkers.countP (·.2.registers) ≤ Handle.room ∧
      (∀ t, Isolated {} twoWorkers t) ∧
      ((after {} twoWorkers).books 1).seen = [.called Code.notFound [some []],
        .called Code.success [some [1]], .bound none] ∧
      ((after {} twoWorkers).books 2).seen = [.called Code.success [some [2, 2]],
        .called Code.success [some [2]], .bound none] := by
  have hroom : ({} : Process).registries.issued + twoWorkers.countP (·.2.registers) ≤ Handle.room :=
    by decide
  have hall := isolated Registries.issued_empty twoWorkers hroom
  exact ⟨Registries.issued_empty, hroom, hall, rfl, rfl⟩

end Workers

end NativeBoundary

import Mathlib.Data.List.Induction
import NativeBoundary.Proofs.Handles.Bindings
import NativeBoundary.Proofs.Handles.Histories
import NativeBoundary.Proofs.Kem.Slots

/-!
# Handles keep their roles apart

One registry holds the transports of sessions, the policies of bindings and the private keys, and
native code passes a handle for each of them as the same untyped integer.  A `RoleRun` is any run in
which sessions are opened and closed, policies are bound and unbound on any thread, and other
objects are registered and released, in any registries and beside any other work.  It keeps the
books: which sessions are open, which bindings are live, and the history of the registries.

The invariant (`RoleRun.Kept`) says that the transports and policies that are live in the history
are those of the open sessions and of the live bindings.  It survives because no handle is given out
twice, so that a session, a binding or a guard that ends takes away what is its own.

* `RoleRun.Confined` — what every 64-bit value stands for in each of its three roles, and what is
  called on its behalf;
* `RoleRun.handles_confined` — it holds after every run with room for its handles.
-/

namespace NativeBoundary

/-- An object that is neither a transport of a session nor a policy of a binding.  Only these are
registered by hand. -/
def Object.isPlain : Object → Bool
  | value _ => true
  | policy _ | transport _ => false

/-- What is done with handles. -/
inductive RoleStep
  | openSession (id : TransportId)
  | closeSession (session : TransportSession)
  | bind (policy : Policy)
  | unbind (b : Binding)
  /-- Another thread goes on, or the slot of this one is overwritten. -/
  | resume (memory : Memory) (slot : UInt64)
  /-- Work with other objects. -/
  | other (x : RegistryStep)

/-- A run of registries beside the sessions that are open and the bindings that are live. -/
structure RoleRun extends RegistryRun where
  sessions : List (TransportSession × TransportId) := []
  bindings : List (Binding × Policy) := []

namespace RoleRun

/-- The handles of sessions and bindings, with what is registered under them. -/
def roles (s : RoleRun) : List (Handle × Object) :=
  s.sessions.map (fun x => (x.1.guard.handle, .transport x.2)) ++
    s.bindings.map (fun x => (x.1.handle, .policy x.2))

/-- Whether a step is work with other objects: it registers no transport and no policy, and releases
no handle of a session or a binding. -/
def spares (s : RoleRun) : RegistryStep → Bool
  | .register _ object | .guard _ object => object.isPlain
  | .release r handle => !(r = globalRegistry ∧ handle ∈ s.roles.map Prod.fst)
  | _ => true

/-- One step.  A session is closed once, and a binding ends once. -/
def step (s : RoleRun) : RoleStep → RoleRun
  | .openSession id =>
      let (session, process) := s.process.openTransport id
      { s with
        process
        sessions := (session, id) :: s.sessions
        events := .registered session.guard.registry session.guard.handle (.transport id) ::
          s.events }
  | .closeSession session =>
      if session ∈ s.sessions.map Prod.fst then
        { s with
          process := s.process.closeTransport session
          sessions := s.sessions.filter (·.1 ≠ session)
          events := .released session.guard.registry session.guard.handle :: s.events }
      else s
  | .bind policy =>
      match s.process.bind policy with
      | (.ok b, process) =>
          { s with
            process
            bindings := (b, policy) :: s.bindings
            events := .registered globalRegistry b.handle (.policy policy) :: s.events }
      | (.error _, process) => { s with process }
  | .unbind b =>
      if b ∈ s.bindings.map Prod.fst then
        { s with
          process := s.process.unbind b
          bindings := s.bindings.filter (·.1 ≠ b)
          events := .released globalRegistry b.handle :: s.events }
      else s
  | .resume memory slot => { s with process := { s.process with memory, slot } }
  | .other x => if s.spares x then { s with toRegistryRun := s.toRegistryRun.step x } else s

/-- A run from a new process. -/
def after (steps : List RoleStep) : RoleRun := steps.foldl step {}

variable {s : RoleRun} {handle k : Handle} {object o : Object}

theorem mem_roles {x : Handle × Object} :
    x ∈ s.roles ↔ (∃ y ∈ s.sessions, (y.1.guard.handle, .transport y.2) = x) ∨
      ∃ y ∈ s.bindings, (y.1.handle, .policy y.2) = x := by
  unfold roles
  rw [List.mem_append, List.mem_map, List.mem_map]

/-- History, sessions and bindings agree. -/
structure Kept (s : RoleRun) : Prop where
  tracks : s.toRegistryRun.Tracks
  /-- What is live and not plain belongs to a session or a binding. -/
  roles : ∀ handle object, object.isPlain = false →
    (Live s.events globalRegistry handle object ↔ (handle, object) ∈ s.roles)
  /-- Every session is one of the registry that entry points look into. -/
  global : ∀ x ∈ s.sessions, x.1.guard.registry = globalRegistry
  /-- Guards stand for plain objects. -/
  guards : ∀ g ∈ s.guards, ∃ object, object.isPlain = true ∧
    .registered g.registry g.handle object ∈ s.events

theorem kept_empty : Kept {} where
  tracks := RegistryRun.tracks_empty
  roles := fun _ _ _ => iff_of_false not_live_nil (fun hx => nomatch hx)
  global := fun _ hx => nomatch hx
  guards := fun _ hg => nomatch hg

theorem isPlain_of_mem_roles (hx : (handle, object) ∈ s.roles) : object.isPlain = false := by
  rcases mem_roles.mp hx with ⟨y, -, heq⟩ | ⟨y, -, heq⟩ <;> cases heq <;> rfl

/-- What belongs to a session or a binding is found. -/
theorem Kept.lookup (hk : s.Kept) (hx : (handle, object) ∈ s.roles) :
    s.process.lookup? globalRegistry handle = some object :=
  (hk.tracks.lookup _ _ _).mpr ((hk.roles _ _ (isPlain_of_mem_roles hx)).mpr hx)

/-- A handle has one role. -/
theorem Kept.unique (hk : s.Kept) (hx : (handle, object) ∈ s.roles) (hy : (handle, o) ∈ s.roles) :
    object = o :=
  Option.some.inj ((hk.lookup hx).symm.trans (hk.lookup hy))

/-- Sessions of one handle are the same. -/
theorem Kept.session_ext (hk : s.Kept) {x y : TransportSession × TransportId}
    (hx : x ∈ s.sessions) (hy : y ∈ s.sessions) (heq : x.1.guard.handle = y.1.guard.handle) :
    x.1 = y.1 := by
  have hregistry := (hk.global x hx).trans (hk.global y hy).symm
  obtain ⟨⟨⟨r, h⟩⟩, id⟩ := x
  obtain ⟨⟨⟨q, k⟩⟩, other⟩ := y
  cases hregistry
  cases heq
  rfl

section

variable {p : Process} {sessions : List (TransportSession × TransportId)}
  {bindings : List (Binding × Policy)}

/-- A session that opens or a policy that is bound gets a role of its own. -/
theorem Kept.begins (hk : s.Kept) (hroom : s.process.registries.issued < Handle.room)
    (hp : p.registries = (s.process.registries.register globalRegistry object).2)
    (hroles : ∀ x, x ∈ { s with sessions, bindings }.roles ↔
      x = (Handle.issue s.process.registries.issued, object) ∨ x ∈ s.roles)
    (hglobal : ∀ x ∈ sessions, x.1.guard.registry = globalRegistry) :
    Kept { s with
      process := p, sessions, bindings
      events := .registered globalRegistry (Handle.issue s.process.registries.issued) object ::
        s.events } where
  tracks := by
    have hnew := hk.tracks.register hroom globalRegistry object fun _ hg => .inr hg
    exact hnew.beside (congrArg _ hp) (congrArg _ hp) fun _ hg => hg
  roles := by
    intro k o ho
    rw [live_registered, hk.roles k o ho]
    refine Iff.trans ?_ (hroles (k, o)).symm
    rw [Prod.mk.injEq]
    exact or_congr_left ⟨And.right, fun hsame => ⟨rfl, hsame⟩⟩
  global := hglobal
  guards := by
    intro g hg
    obtain ⟨o, ho, hmem⟩ := hk.guards g hg
    exact ⟨o, ho, List.mem_cons_of_mem _ hmem⟩

/-- A session or a binding that ends takes away its own role. -/
theorem Kept.ends (hk : s.Kept)
    (hp : p.registries = (s.process.registries.release globalRegistry handle).2)
    (hroles : ∀ x, x ∈ { s with sessions, bindings }.roles ↔ x.1 ≠ handle ∧ x ∈ s.roles)
    (hglobal : ∀ x ∈ sessions, x.1.guard.registry = globalRegistry) :
    Kept { s with
      process := p, sessions, bindings
      events := .released globalRegistry handle :: s.events } where
  tracks := hk.tracks.release hp fun _ hg => hg
  roles := by
    intro k o ho
    rw [live_released, hk.roles k o ho]
    refine Iff.trans ?_ (hroles (k, o)).symm
    exact and_congr_left' (not_congr ⟨And.right, fun hsame => ⟨rfl, hsame⟩⟩)
  global := hglobal
  guards := by
    intro g hg
    obtain ⟨o, ho, hmem⟩ := hk.guards g hg
    exact ⟨o, ho, List.mem_cons_of_mem _ hmem⟩

end

/-- Work that leaves the registries as they are, or makes a new one. -/
theorem Kept.beside (hk : s.Kept) {t : RegistryRun} (ht : t.Tracks)
    (hevents : t.events = s.events) (hguards : ∀ g ∈ t.guards, g ∈ s.guards) :
    Kept { s with toRegistryRun := t } where
  tracks := ht
  roles := fun k o ho => by
    rw [hevents]
    exact hk.roles k o ho
  global := hk.global
  guards := fun g hg => by
    rw [hevents]
    exact hk.guards g (hguards g hg)

/-- A plain object that is registered has none of the roles. -/
theorem Kept.plain (hk : s.Kept) {t : RegistryRun} (ht : t.Tracks) {r : RegistryId}
    (hobject : object.isPlain = true)
    (hevents : t.events = .registered r handle object :: s.events)
    (hguards : ∀ g ∈ t.guards, g = ⟨r, handle⟩ ∨ g ∈ s.guards) :
    Kept { s with toRegistryRun := t } where
  tracks := ht
  roles := by
    intro k o ho
    rw [hevents, live_registered, hk.roles k o ho]
    refine or_iff_right ?_
    rintro ⟨-, -, rfl⟩
    exact absurd hobject (Bool.eq_false_iff.mp ho)
  global := hk.global
  guards := by
    intro g hg
    rw [hevents]
    rcases hguards g hg with rfl | hold
    · exact ⟨object, hobject, List.mem_cons_self⟩
    · obtain ⟨o, ho, hmem⟩ := hk.guards g hold
      exact ⟨o, ho, List.mem_cons_of_mem _ hmem⟩

/-- A release that spares the sessions and the bindings takes away none of the roles. -/
theorem Kept.spare (hk : s.Kept) {t : RegistryRun} (ht : t.Tracks) {r : RegistryId}
    (hother : ∀ x ∈ s.roles, ¬ (globalRegistry = r ∧ x.1 = handle))
    (hevents : t.events = .released r handle :: s.events)
    (hguards : ∀ g ∈ t.guards, g ∈ s.guards) : Kept { s with toRegistryRun := t } where
  tracks := ht
  roles := by
    intro k o ho
    rw [hevents, live_released, hk.roles k o ho]
    exact and_iff_right_of_imp (hother (k, o))
  global := hk.global
  guards := by
    intro g hg
    rw [hevents]
    obtain ⟨o, ho, hmem⟩ := hk.guards g (hguards g hg)
    exact ⟨o, ho, List.mem_cons_of_mem _ hmem⟩

/-- A guard is not one of a session or a binding. -/
theorem Kept.guard_apart (hk : s.Kept) (hroom : s.process.registries.issued ≤ Handle.room)
    {g : HandleGuard} (hg : g ∈ s.guards) :
    ∀ x ∈ s.roles, ¬ (globalRegistry = g.registry ∧ x.1 = g.handle) := by
  rintro ⟨k, o⟩ hx ⟨-, rfl⟩
  obtain ⟨object, hobject, hmem⟩ := hk.guards g hg
  have hplain := isPlain_of_mem_roles hx
  have hlive := (hk.roles _ _ hplain).mpr hx
  obtain ⟨-, rfl⟩ := registered_once (hk.tracks.nodup hroom) hmem hlive.mem
  exact absurd hobject (Bool.eq_false_iff.mp hplain)

/-- Work with other objects keeps what is kept. -/
theorem Kept.other (hk : s.Kept) (hbefore : s.process.registries.issued ≤ Handle.room)
    {x : RegistryStep} (hspares : s.spares x = true)
    (hroom : (s.toRegistryRun.step x).process.registries.issued ≤ Handle.room) :
    Kept { s with toRegistryRun := s.toRegistryRun.step x } := by
  have ht := hk.tracks.step x hroom
  cases x with
  | create => exact hk.beside ht rfl fun _ hg => hg
  | register r object => exact hk.plain ht hspares rfl fun _ hg => .inr hg
  | guard r object => exact hk.plain ht hspares rfl fun _ hg => List.mem_cons.mp hg
  | intoHandle g => exact hk.beside ht rfl fun _ hg => List.mem_of_mem_erase hg
  | release r handle =>
      refine hk.spare ht (fun x hx => ?_) rfl fun _ hg => hg
      rintro ⟨rfl, rfl⟩
      have hmem : x.1 ∈ s.roles.map Prod.fst := List.mem_map_of_mem hx
      simp [spares, hmem] at hspares
  | dropGuard g =>
      simp only [RegistryRun.step] at ht ⊢
      split
      · rename_i hg
        rw [if_pos hg] at ht
        exact hk.spare ht (hk.guard_apart hbefore hg) rfl fun _ hg => List.mem_of_mem_erase hg
      · exact hk
  | hold r handle =>
      refine hk.beside ht ?_ fun g hg => ?_
      · simp only [RegistryRun.step]
        split <;> rfl
      · simp only [RegistryRun.step] at hg
        split at hg <;> exact hg
  | work op =>
      refine hk.beside ht ?_ fun g hg => ?_
      · simp only [RegistryRun.step]
        split <;> rfl
      · simp only [RegistryRun.step] at hg
        split at hg <;> exact hg

/-- A session that opens keeps what is kept. -/
theorem Kept.openSession (hk : s.Kept) (hroom : s.process.registries.issued < Handle.room)
    (id : TransportId) : (s.step (.openSession id)).Kept := by
  refine hk.begins hroom rfl (fun x => ?_) fun x hx => ?_
  · simp only [mem_roles, List.exists_mem_cons_iff, or_assoc]
    exact or_congr_left eq_comm
  · rcases List.mem_cons.mp hx with rfl | hold
    · rfl
    · exact hk.global x hold

/-- So does one that is closed: no other session and no binding has its handle. -/
theorem Kept.closeSession (hk : s.Kept) (session : TransportSession) :
    (s.step (.closeSession session)).Kept := by
  simp only [step]
  split
  · rename_i hmem
    obtain ⟨x, hx, rfl⟩ := List.mem_map.mp hmem
    have hglobal := hk.global x hx
    have hown : (x.1.guard.handle, .transport x.2) ∈ s.roles := mem_roles.mpr (.inl ⟨x, hx, rfl⟩)
    rw [hglobal]
    refine hk.ends ?_ (fun y => ?_) fun y hy => hk.global y (List.mem_filter.mp hy).1
    · rw [← hglobal]
      exact s.process.registries_dropGuard x.1.guard
    · simp only [mem_roles, List.mem_filter, decide_eq_true_eq]
      constructor
      · rintro (⟨z, ⟨hz, hne⟩, rfl⟩ | ⟨z, hz, rfl⟩)
        · exact ⟨fun heq => hne (hk.session_ext hz hx heq), .inl ⟨z, hz, rfl⟩⟩
        · refine ⟨fun heq => ?_, .inr ⟨z, hz, rfl⟩⟩
          have hbound : (z.1.handle, .policy z.2) ∈ s.roles := mem_roles.mpr (.inr ⟨z, hz, rfl⟩)
          cases hk.unique hbound (heq ▸ hown)
      · rintro ⟨hne, ⟨z, hz, rfl⟩ | hbound⟩
        · exact .inl ⟨z, ⟨hz, fun heq => hne (heq ▸ rfl)⟩, rfl⟩
        · exact .inr hbound
  · exact hk

/-- A policy that is bound keeps what is kept, and so does one that is refused. -/
theorem Kept.bind (hk : s.Kept) (policy : Policy)
    (hroom : (s.step (.bind policy)).process.registries.issued ≤ Handle.room) :
    (s.step (.bind policy)).Kept := by
  simp only [step] at hroom ⊢
  rcases s.process.bind_cases policy with ⟨-, hbind⟩ | ⟨-, q, hbind, hbinds⟩ <;>
    rw [hbind] at hroom ⊢
  · exact hk.beside (hk.tracks.beside rfl rfl fun _ hg => hg) rfl fun _ hg => hg
  · have hmade : q.registries.issued ≤ Handle.room := hroom
    rw [hbinds.issued] at hmade
    refine hk.begins (Nat.lt_of_succ_le hmade) hbinds.registries (fun x => ?_) hk.global
    simp only [mem_roles, List.exists_mem_cons_iff]
    rw [or_left_comm]
    exact or_congr_left eq_comm

/-- A binding that ends keeps what is kept, as a session does. -/
theorem Kept.unbind (hk : s.Kept) (b : Binding) : (s.step (.unbind b)).Kept := by
  simp only [step]
  split
  · rename_i hmem
    obtain ⟨x, hx, rfl⟩ := List.mem_map.mp hmem
    have hown : (x.1.handle, .policy x.2) ∈ s.roles := mem_roles.mpr (.inr ⟨x, hx, rfl⟩)
    refine hk.ends (s.process.registries_unbind x.1) (fun y => ?_) hk.global
    simp only [mem_roles, List.mem_filter, decide_eq_true_eq]
    constructor
    · rintro (⟨z, hz, rfl⟩ | ⟨z, ⟨hz, hne⟩, rfl⟩)
      · refine ⟨fun heq => ?_, .inl ⟨z, hz, rfl⟩⟩
        have hopen : (z.1.guard.handle, .transport z.2) ∈ s.roles :=
          mem_roles.mpr (.inl ⟨z, hz, rfl⟩)
        cases hk.unique hopen (heq ▸ hown)
      · exact ⟨fun heq => hne (congrArg Binding.mk heq), .inr ⟨z, hz, rfl⟩⟩
    · rintro ⟨hne, hopen | ⟨z, hz, rfl⟩⟩
      · exact .inl hopen
      · exact .inr ⟨z, ⟨hz, fun heq => hne (heq ▸ rfl)⟩, rfl⟩
  · exact hk

/-- Handles are only ever given out. -/
theorem issued_le (s : RoleRun) (x : RoleStep) :
    s.process.registries.issued ≤ (s.step x).process.registries.issued := by
  cases x with
  | openSession id => exact Nat.le_succ _
  | resume memory slot => exact Nat.le_refl _
  | bind policy =>
      simp only [step]
      rcases s.process.bind_cases policy with ⟨-, hbind⟩ | ⟨-, q, hbind, hbinds⟩ <;> rw [hbind]
      · exact Nat.le_refl _
      · exact Nat.le_of_lt (Nat.lt_of_lt_of_eq (Nat.lt_succ_self _) hbinds.issued.symm)
  | closeSession session =>
      simp only [step]
      split
      · refine Nat.le_of_eq ?_
        change _ = (s.process.dropGuard session.guard).registries.issued
        rw [Process.registries_dropGuard, Registries.issued_release]
      · exact Nat.le_refl _
  | unbind b =>
      simp only [step]
      split
      · rw [Process.registries_unbind, Registries.issued_release]
      · exact Nat.le_refl _
  | other x =>
      simp only [step]
      split
      · rw [RegistryRun.issued_step]
        exact Nat.le_add_right _ _
      · exact Nat.le_refl _

/-- Every step keeps what is kept, if there is room for the handle that it may give out. -/
theorem Kept.step (hk : s.Kept) (x : RoleStep)
    (hroom : (s.step x).process.registries.issued ≤ Handle.room) : (s.step x).Kept := by
  have hbefore := Nat.le_trans (s.issued_le x) hroom
  cases x with
  | openSession id => exact hk.openSession (Nat.lt_of_succ_le hroom) id
  | closeSession session => exact hk.closeSession session
  | bind policy => exact hk.bind policy hroom
  | unbind b => exact hk.unbind b
  | resume memory slot =>
      exact hk.beside (hk.tracks.beside rfl rfl fun _ hg => hg) rfl fun _ hg => hg
  | other x =>
      simp only [RoleRun.step] at hroom ⊢
      split at hroom <;> rename_i hspares
      · rw [if_pos hspares]
        exact hk.other hbefore hspares hroom
      · rw [if_neg hspares]
        exact hk

/-- So does a run. -/
theorem kept_after (steps : List RoleStep)
    (hroom : (after steps).process.registries.issued ≤ Handle.room) : (after steps).Kept := by
  unfold after at hroom ⊢
  induction steps using List.reverseRecOn with
  | nil => exact kept_empty
  | append_singleton steps x ih =>
      rw [List.foldl_append] at hroom ⊢
      exact (ih (Nat.le_trans (issued_le _ x) hroom)).step x hroom

/-- A session of a transport is open, with the context `v`. -/
def IsOpen (s : RoleRun) (v : UInt64) (id : TransportId) : Prop :=
  ∃ session, (session, id) ∈ s.sessions ∧ session.guard.handle.toPointer = v

/-- A binding of a policy is live, and puts `v` into the slot. -/
def IsBound (s : RoleRun) (v : UInt64) (policy : Policy) : Prop :=
  ∃ b, (b, policy) ∈ s.bindings ∧ b.handle.toPointer = v

/-- The process of a thread whose slot holds `v`. -/
def withSlot (s : RoleRun) (v : UInt64) : Process := { s.process with slot := v }

/-- A value that stands for nothing in the global registry: it is null, was given out by nobody, was
given out by another registry, or was released. -/
inductive Stray (events : List RegistryEvent) (v : UInt64) : Prop
  | null (hnull : v = 0)
  | unknown (hnew : ⟨v⟩ ∉ issuedHandles events)
  | foreign {r : RegistryId} {object : Object} (hother : r ≠ globalRegistry)
      (hm : .registered r ⟨v⟩ object ∈ events)
  | released {r : RegistryId} {object : Object} {later earlier : List RegistryEvent}
      (hevents : events = later ++ .released r ⟨v⟩ :: earlier)
      (hm : .registered r ⟨v⟩ object ∈ earlier)

/-- What every value stands for, and what is called on its behalf. -/
structure Confined (s : RoleRun) : Prop where
  /-- What stands for a session or a binding is live in the global registry, in that role. -/
  session : ∀ v id, s.IsOpen v id ↔ Live s.events globalRegistry ⟨v⟩ (.transport id)
  binding : ∀ v policy, s.IsBound v policy ↔ Live s.events globalRegistry ⟨v⟩ (.policy policy)
  /-- It has no other role. -/
  role : ∀ v object o, Live s.events globalRegistry ⟨v⟩ object →
    Live s.events globalRegistry ⟨v⟩ o → object = o
  /-- Stray values have none. -/
  stray : ∀ v, Stray s.events v → ∀ object, ¬ Live s.events globalRegistry ⟨v⟩ object
  /-- As a context a value stands for the transport of an open session, in the slot for the policy
  of a live binding, and as a private key for whatever is registered. -/
  transport : ∀ v id, s.process.resolveTransport v = .ok id ↔ s.IsOpen v id
  policy : ∀ v policy, (s.withSlot v).currentPolicy = .ok policy ↔ s.IsBound v policy
  key : ∀ v value, s.process.privateKey v = .ok value ↔
    ∃ object, Live s.events globalRegistry ⟨v⟩ object ∧ object.seen = value
  /-- With the context of an open session its transport is called and no other, at most once. -/
  context : ∀ (c : Process.Callback) v id, c.context? = some v → s.IsOpen v id →
    c.code (c.run s.process).1 ≠ Code.notFound ∧
      s.process.Asks (c.run s.process).2 (·.transport? = some id)
  /-- With any other context nobody is called. -/
  noContext : ∀ (c : Process.Callback) v, c.context? = some v → (∀ id, ¬ s.IsOpen v id) →
    c.code (c.run s.process).1 = Code.notFound ∧ (c.run s.process).2.calls = s.process.calls
  /-- With a live binding in the slot its policy is called and no other, at most once. -/
  slot : ∀ (c : KemCall) v policy, s.IsBound v policy →
    (s.withSlot v).Asks (c.run (s.withSlot v)).2 (·.policy? = some ⟨v⟩)
  /-- With anything else in the slot nobody is called. -/
  noSlot : ∀ (c : KemCall) v, (∀ policy, ¬ s.IsBound v policy) →
    (c.run (s.withSlot v)).1.code = Code.notFound ∧
      (c.run (s.withSlot v)).2.calls = s.process.calls
  /-- A policy is asked about the object that is live under the private key handle, once the checks
  before that pass. -/
  object : ∀ (c : KemCall) v policy key object, s.IsBound v policy → c.key? = some key →
    c.reachesKey = true → Live s.events globalRegistry ⟨key⟩ object →
    ∃ call, (c.run (s.withSlot v)).2.calls = call :: s.process.calls ∧
      call.policy? = some ⟨v⟩ ∧ call.object? = some object.seen
  /-- If there is none, nobody is called. -/
  noObject : ∀ (c : KemCall) v policy key, s.IsBound v policy → c.key? = some key →
    c.reachesKey = true → (∀ object, ¬ Live s.events globalRegistry ⟨key⟩ object) →
    (c.run (s.withSlot v)).1.code = (if key = 0 then Code.badArgument else Code.notFound) ∧
      (c.run (s.withSlot v)).2.calls = s.process.calls

section

variable {v : UInt64} {id : TransportId} {policy : Policy}

theorem mem_roles_transport : (⟨v⟩, .transport id) ∈ s.roles ↔ s.IsOpen v id := by
  rw [mem_roles]
  constructor
  · rintro (⟨x, hx, heq⟩ | ⟨x, -, heq⟩)
    · obtain ⟨hhandle, hobject⟩ := Prod.mk.inj heq
      cases hobject
      exact ⟨x.1, hx, congrArg Handle.toPointer hhandle⟩
    · cases (Prod.mk.inj heq).2
  · rintro ⟨session, hx, rfl⟩
    exact .inl ⟨_, hx, rfl⟩

theorem mem_roles_policy : (⟨v⟩, .policy policy) ∈ s.roles ↔ s.IsBound v policy := by
  rw [mem_roles]
  constructor
  · rintro (⟨x, -, heq⟩ | ⟨x, hx, heq⟩)
    · cases (Prod.mk.inj heq).2
    · obtain ⟨hhandle, hobject⟩ := Prod.mk.inj heq
      cases hobject
      exact ⟨x.1, hx, congrArg Handle.toPointer hhandle⟩
  · rintro ⟨b, hx, rfl⟩
    exact .inr ⟨_, hx, rfl⟩

namespace Kept

theorem isOpen_iff (hk : s.Kept) :
    s.IsOpen v id ↔ Live s.events globalRegistry ⟨v⟩ (.transport id) :=
  mem_roles_transport.symm.trans (hk.roles _ _ rfl).symm

theorem isBound_iff (hk : s.Kept) :
    s.IsBound v policy ↔ Live s.events globalRegistry ⟨v⟩ (.policy policy) :=
  mem_roles_policy.symm.trans (hk.roles _ _ rfl).symm

/-- Null is no handle. -/
theorem ne_null (hk : s.Kept) (hroom : s.process.registries.issued ≤ Handle.room) {r : RegistryId}
    (hlive : Live s.events r ⟨v⟩ object) : v ≠ 0 := by
  obtain ⟨n, hn, heq⟩ := hk.tracks.mem_issued (mem_issuedHandles hlive.mem)
  have hsome := Handle.issue_ne_null (Nat.lt_of_lt_of_le hn hroom)
  rw [← heq] at hsome
  exact hsome

/-- Under a stray value nothing is live. -/
theorem not_live_stray (hk : s.Kept) (hroom : s.process.registries.issued ≤ Handle.room)
    (hstray : Stray s.events v) : ¬ Live s.events globalRegistry ⟨v⟩ object := by
  intro hlive
  have hnodup := hk.tracks.nodup hroom
  cases hstray with
  | null hnull => exact hk.ne_null hroom hlive hnull
  | unknown hnew => exact hnew (mem_issuedHandles hlive.mem)
  | foreign hother hm => exact hother (registered_once hnodup hm hlive.mem).1
  | released hevents hm => exact not_live_of_released hnodup hevents hm hlive

theorem resolveTransport_iff (hk : s.Kept) (hroom : s.process.registries.issued ≤ Handle.room) :
    s.process.resolveTransport v = .ok id ↔ s.IsOpen v id := by
  rw [hk.isOpen_iff]
  unfold Process.resolveTransport Handle.ofPointer?
  by_cases hnull : v = 0
  · rw [if_pos hnull]
    exact iff_of_false (fun hok => nomatch hok) fun hlive => hk.ne_null hroom hlive hnull
  · simp only [if_neg hnull, ← hk.tracks.lookup]
    cases s.process.lookup? globalRegistry ⟨v⟩ with
    | none => simp
    | some object => cases object <;> simp

theorem boundPolicy?_iff (hk : s.Kept) (hroom : s.process.registries.issued ≤ Handle.room) :
    (s.withSlot v).boundPolicy? = some policy ↔ s.IsBound v policy := by
  rw [hk.isBound_iff, ← hk.tracks.lookup, Process.boundPolicy?_eq_some_iff]
  exact and_iff_right_of_imp fun hlookup => hk.ne_null hroom ((hk.tracks.lookup _ _ _).mp hlookup)

theorem currentPolicy_iff (hk : s.Kept) (hroom : s.process.registries.issued ≤ Handle.room) :
    (s.withSlot v).currentPolicy = .ok policy ↔ s.IsBound v policy := by
  rw [← hk.boundPolicy?_iff hroom]
  rcases (s.withSlot v).currentPolicy_cases with ⟨other, hbound, hcurrent⟩ |
    ⟨hnone, what, hcurrent⟩
  · rw [hbound, hcurrent, Except.ok.injEq, Option.some.injEq]
  · rw [hnone, hcurrent]
    exact iff_of_false (fun hok => nomatch hok) fun hsome => nomatch hsome

theorem privateKey_iff (hk : s.Kept) (hroom : s.process.registries.issued ≤ Handle.room)
    {value : HostValue} : s.process.privateKey v = .ok value ↔
      ∃ object, Live s.events globalRegistry ⟨v⟩ object ∧ object.seen = value := by
  simp only [← hk.tracks.lookup]
  rcases s.process.privateKey_cases v with ⟨hnull, why, herror⟩ | ⟨-, hlookup, what, herror⟩ |
    ⟨-, object, hlookup, hok⟩
  · rw [herror]
    refine iff_of_false (fun hok => nomatch hok) ?_
    rintro ⟨object, hlookup, -⟩
    exact hk.ne_null hroom ((hk.tracks.lookup _ _ _).mp hlookup) hnull
  · rw [herror, hlookup]
    exact iff_of_false (fun hok => nomatch hok) fun hsome => nomatch hsome
  · simp [hok, hlookup]

/-- What is kept is enough to keep values in their roles. -/
theorem confined (hk : s.Kept) (hroom : s.process.registries.issued ≤ Handle.room) :
    s.Confined := by
  have hresolve : ∀ v id, s.process.resolveTransport v = .ok id ↔ s.IsOpen v id :=
    fun _ _ => hk.resolveTransport_iff hroom
  have hbound : ∀ {v policy}, s.IsBound v policy → (s.withSlot v).boundPolicy? ≠ none :=
    fun hb hnone => nomatch hnone.symm.trans ((hk.boundPolicy?_iff hroom).mpr hb)
  constructor
  case session => exact fun _ _ => hk.isOpen_iff
  case binding => exact fun _ _ => hk.isBound_iff
  case role =>
    intro v object o hobject ho
    exact (registered_once (hk.tracks.nodup hroom) hobject.mem ho.mem).2
  case stray => exact fun v hstray object => hk.not_live_stray hroom hstray
  case transport => exact hresolve
  case policy => exact fun _ _ => hk.currentPolicy_iff hroom
  case key => exact fun _ _ => hk.privateKey_iff hroom
  case context =>
    intro c v id hc hopen
    exact Process.Callback.asks_of_resolved hc ((hresolve v id).mpr hopen)
  case noContext =>
    intro c v hc hnone
    cases hres : s.process.resolveTransport v with
    | ok id => exact absurd ((hresolve v id).mp hres) (hnone id)
    | error fault =>
        obtain ⟨hcode, notice, hreport⟩ := Process.Callback.run_of_unresolved hc hres
        exact ⟨hcode, by rw [hreport]; rfl⟩
  case slot => exact fun c v policy _ => c.asks_bound (s.withSlot v)
  case noSlot =>
    intro c v hnone
    refine KemCall.run_of_unbound (Option.eq_none_iff_forall_ne_some.mpr fun policy hsome => ?_)
    exact hnone policy ((hk.boundPolicy?_iff hroom).mp hsome)
  case object =>
    intro c v policy key object hb hkey hreaches hlive
    have hlookup := (hk.tracks.lookup _ _ _).mpr hlive
    exact (KemCall.run_of_key (hbound hb) hkey hreaches).asked (hk.ne_null hroom hlive) _ hlookup
  case noObject =>
    intro c v policy key hb hkey hreaches hdead
    have hdecides := KemCall.run_of_key (hbound hb) hkey hreaches
    by_cases hnull : key = 0
    · rw [if_pos hnull]
      exact hdecides.null hnull
    · rw [if_neg hnull]
      exact hdecides.unknown hnull (hk.tracks.lookup_eq_none hdead)

end Kept

end

/-- After any run with room for all of its handles, every value is confined to what it stands
for. -/
theorem handles_confined (steps : List RoleStep)
    (hroom : (after steps).process.registries.issued ≤ Handle.room) : (after steps).Confined :=
  (kept_after steps hroom).confined hroom

/-- A session is closed and a second one opened, while a private key is registered and a policy is
bound; another registry gives out a handle in between. -/
def mixedRoles : List RoleStep :=
  [.openSession 0, .other (.register globalRegistry (.value (.word64 7))), .bind .unsupported,
    .closeSession ⟨⟨globalRegistry, Handle.issue 0⟩⟩, .other .create,
    .other (.register 1 (.value .unit)), .openSession 1]

theorem handles_confined_mixedRoles :
    (after mixedRoles).process.registries.issued ≤ Handle.room ∧ (after mixedRoles).Confined ∧
      (after mixedRoles).process.resolveTransport (Handle.issue 4).toPointer = .ok 1 ∧
      -- a closed session, a private key and a handle of another registry
      ∀ n ∈ [0, 1, 3], ((after mixedRoles).process.resolveTransport
        (Handle.issue n).toPointer).toOption = none := by
  have hroom : (after mixedRoles).process.registries.issued ≤ Handle.room := by decide
  exact ⟨hroom, handles_confined mixedRoles hroom, rfl, by decide⟩

end RoleRun

end NativeBoundary

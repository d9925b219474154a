import Mathlib.Data.List.Nodup
import NativeBoundary.Proofs.Handles.Issued

/-!
# Registries and their histories

A registry is a table that changes in place.  This file compares the registries of a process with
what was done to them.  A history lists every registration with the handle that it was given, and
every release that was tried, successful or not; an object is live under a handle while it was
registered there and no release was tried since (`Live`).  Nothing in that looks into a table.

A run is any sequence of registrations, guards, releases and drops of guards over any number of
registries, with any work in between that is beside the registries.  Looking an object up and
keeping it is such work; asking and counting only read the process.

The invariant (`Tracks`) is that the handles are those counted up from the seed, and that what is
looked up is what is live.  One step keeps it as long as the counter has room, and from it follows
all that callers can observe:

* `RegistryRun.registries_exact` — after any run: no handle is given out twice by any registry,
  each registry answers from its own live objects, and a handle that was released is dead
  everywhere for ever.
-/

namespace NativeBoundary

/-- What was done to a registry. -/
inductive RegistryEvent
  | registered (r : RegistryId) (handle : Handle) (object : Object)
  /-- A release was tried, by hand or by a guard. -/
  | released (r : RegistryId) (handle : Handle)

/-- The handle that was given out. -/
def RegistryEvent.issued? : RegistryEvent → Option Handle
  | registered _ handle _ => some handle
  | released _ _ => none

/-- The handles that were given out, latest first. -/
def issuedHandles (events : List RegistryEvent) : List Handle :=
  events.filterMap RegistryEvent.issued?

/-- After a history, latest event first, an object is live under a handle of a registry: it was
registered there, and no release was tried since. -/
def Live (events : List RegistryEvent) (r : RegistryId) (handle : Handle) (object : Object) : Prop :=
  ∃ later earlier, events = later ++ .registered r handle object :: earlier ∧
    .released r handle ∉ later

section

variable {events later earlier : List RegistryEvent} {r q : RegistryId} {handle k : Handle}
  {object o : Object}

theorem not_live_nil : ¬ Live [] r handle object := by
  rintro ⟨later, earlier, hevents, -⟩
  cases later <;> cases hevents

/-- What is live was registered. -/
theorem Live.mem (hl : Live events r handle object) : .registered r handle object ∈ events := by
  obtain ⟨later, earlier, rfl, -⟩ := hl
  exact List.mem_append_right _ List.mem_cons_self

theorem live_registered :
    Live (.registered r handle object :: events) q k o ↔
      (q = r ∧ k = handle ∧ o = object) ∨ Live events q k o := by
  constructor
  · rintro ⟨later, earlier, hevents, hnot⟩
    cases later with
    | nil =>
        cases hevents
        exact .inl ⟨rfl, rfl, rfl⟩
    | cons e later =>
        cases hevents
        exact .inr ⟨later, earlier, rfl, fun hm => hnot (List.mem_cons_of_mem _ hm)⟩
  · rintro (⟨rfl, rfl, rfl⟩ | ⟨later, earlier, rfl, hnot⟩)
    · exact ⟨[], events, rfl, fun hm => nomatch hm⟩
    · refine ⟨_ :: later, earlier, rfl, fun hm => ?_⟩
      rcases List.mem_cons.mp hm with heq | hm
      · cases heq
      · exact hnot hm

theorem live_released :
    Live (.released r handle :: events) q k o ↔ ¬ (q = r ∧ k = handle) ∧ Live events q k o := by
  constructor
  · rintro ⟨later, earlier, hevents, hnot⟩
    cases later with
    | nil => cases hevents
    | cons e later =>
        cases hevents
        refine ⟨?_, later, earlier, rfl, fun hm => hnot (List.mem_cons_of_mem _ hm)⟩
        rintro ⟨rfl, rfl⟩
        exact hnot List.mem_cons_self
  · rintro ⟨hother, later, earlier, rfl, hnot⟩
    refine ⟨_ :: later, earlier, rfl, fun hm => ?_⟩
    rcases List.mem_cons.mp hm with heq | hm
    · cases heq
      exact hother ⟨rfl, rfl⟩
    · exact hnot hm

theorem mem_issuedHandles (hm : .registered r handle object ∈ events) :
    handle ∈ issuedHandles events :=
  List.mem_filterMap.mpr ⟨_, hm, rfl⟩

/-- If no handle was given out twice, a handle was registered once: in one registry, for one
object. -/
theorem registered_once (hnodup : (issuedHandles events).Nodup)
    (hm : .registered r handle object ∈ events) (hm' : .registered q handle o ∈ events) :
    r = q ∧ object = o := by
  induction events with
  | nil => cases hm
  | cons e events ih =>
      have htail : (issuedHandles events).Nodup :=
        hnodup.sublist ((List.sublist_cons_self e events).filterMap _)
      cases e with
      | released _ _ =>
          rcases List.mem_cons.mp hm with heq | hold
          · cases heq
          · rcases List.mem_cons.mp hm' with heq | hold'
            · cases heq
            · exact ih htail hold hold'
      | registered s key object' =>
          have hnew : key ∉ issuedHandles events := (List.nodup_cons.mp hnodup).1
          rcases List.mem_cons.mp hm with heq | hold
          · cases heq
            rcases List.mem_cons.mp hm' with heq' | hold'
            · cases heq'
              exact ⟨rfl, rfl⟩
            · exact absurd (mem_issuedHandles hold') hnew
          · rcases List.mem_cons.mp hm' with heq' | hold'
            · cases heq'
              exact absurd (mem_issuedHandles hold) hnew
            · exact ih htail hold hold'

/-- A handle that was released from its registry is dead in all of them, whatever came later. -/
theorem not_live_of_released (hnodup : (issuedHandles events).Nodup)
    (hevents : events = later ++ .released r handle :: earlier)
    (hm : .registered r handle object ∈ earlier) : ¬ Live events q handle o := by
  subst hevents
  induction later with
  | nil =>
      intro hlive
      obtain ⟨hother, hlive⟩ := live_released.mp hlive
      have hearlier : (issuedHandles earlier).Nodup := hnodup
      exact hother ⟨(registered_once hearlier hlive.mem hm).1, rfl⟩
  | cons e later ih =>
      intro hlive
      have htail : (issuedHandles (later ++ .released r handle :: earlier)).Nodup :=
        hnodup.sublist ((List.sublist_cons_self _ _).filterMap _)
      cases e with
      | released s key => exact ih htail (live_released.mp hlive).2
      | registered s key object' =>
          rcases live_registered.mp hlive with ⟨-, rfl, -⟩ | hlive
          · have hbefore := List.mem_append_right later (List.mem_cons_of_mem (.released r handle) hm)
            exact (List.nodup_cons.mp hnodup).1 (mem_issuedHandles hbefore)
          · exact ih htail hlive

end

/-- What is done with registries, and what else a process does in between. -/
inductive RegistryStep
  | create
  | register (r : RegistryId) (object : Object)
  | guard (r : RegistryId) (object : Object)
  | dropGuard (g : HandleGuard)
  /-- A guard is given up, and its object stays registered. -/
  | intoHandle (g : HandleGuard)
  | release (r : RegistryId) (handle : Handle)
  /-- An object is looked up and kept. -/
  | hold (r : RegistryId) (handle : Handle)
  /-- Work beside the registries. -/
  | work (op : Process.Operation)

/-- Whether a step registers an object. -/
def RegistryStep.registers : RegistryStep → Bool
  | register _ _ | guard _ _ => true
  | _ => false

/-- A process, the guards that were made and not given up, and the history, latest event first. -/
structure RegistryRun where
  process : Process := {}
  guards : List HandleGuard := []
  events : List RegistryEvent := []

namespace RegistryRun

/-- One step.  A guard is dropped or given up once. -/
def step (s : RegistryRun) : RegistryStep → RegistryRun
  | .create => { s with process := { s.process with registries := s.process.registries.create.2 } }
  | .register r object =>
      let (handle, process) := s.process.register r object
      { s with process, events := .registered r handle object :: s.events }
  | .guard r object =>
      let (g, process) := s.process.guard r object
      { process, guards := g :: s.guards,
        events := .registered g.registry g.handle object :: s.events }
  | .dropGuard g =>
      if g ∈ s.guards then
        { process := s.process.dropGuard g, guards := s.guards.erase g,
          events := .released g.registry g.handle :: s.events }
      else s
  | .intoHandle g => { s with guards := s.guards.erase g }
  | .release r handle =>
      { s with process := (s.process.releaseHandle r handle).2,
               events := .released r handle :: s.events }
  | .hold r handle =>
      match s.process.lookup? r handle with
      | some object => { s with process := s.process.holdObject object }
      | none => s
  | .work op => if op.touches then s else { s with process := (op.effect s.process).process }

/-- A run from a new process. -/
def after (steps : List RegistryStep) : RegistryRun := steps.foldl step {}

variable {s : RegistryRun}

/-- The registries are those of the history. -/
structure Tracks (s : RegistryRun) : Prop where
  handles : issuedHandles s.events =
    ((List.range s.process.registries.issued).map Handle.issue).reverse
  lookup : ∀ r handle object,
    s.process.lookup? r handle = some object ↔ Live s.events r handle object
  guards : ∀ g ∈ s.guards, ∃ object, .registered g.registry g.handle object ∈ s.events

theorem tracks_empty : Tracks {} where
  handles := rfl
  lookup := fun _ _ _ => iff_of_false (fun hsome => nomatch hsome) not_live_nil
  guards := fun _ hg => nomatch hg

/-- The next handle was given out to nobody. -/
theorem Tracks.fresh (ht : s.Tracks) (hroom : s.process.registries.issued < Handle.room) :
    Handle.issue s.process.registries.issued ∉ issuedHandles s.events := by
  intro hm
  rw [ht.handles, List.mem_reverse, List.mem_map] at hm
  obtain ⟨n, hn, heq⟩ := hm
  have hlt := List.mem_range.mp hn
  have hsame := Handle.issue_injective (Nat.lt_trans hlt hroom) hroom heq
  omega

/-- Nothing is live under the next handle. -/
theorem Tracks.not_live_next (ht : s.Tracks) (hroom : s.process.registries.issued < Handle.room)
    (r : RegistryId) (object : Object) :
    ¬ Live s.events r (Handle.issue s.process.registries.issued) object :=
  fun hlive => ht.fresh hroom (mem_issuedHandles hlive.mem)

section

variable {r : RegistryId} {handle : Handle} {object : Object} {guards : List HandleGuard}

/-- Registering tracks the history, with or without a guard for it. -/
theorem Tracks.register (ht : s.Tracks) (hroom : s.process.registries.issued < Handle.room)
    (r : RegistryId) (object : Object)
    (hguards : ∀ g ∈ guards, g = ⟨r, Handle.issue s.process.registries.issued⟩ ∨ g ∈ s.guards) :
    Tracks
      { process := (s.process.register r object).2, guards,
        events := .registered r (Handle.issue s.process.registries.issued) object :: s.events } where
  handles := by
    change _ :: issuedHandles s.events =
      ((List.range (s.process.registries.issued + 1)).map Handle.issue).reverse
    rw [List.range_succ, List.map_append, List.reverse_append, ht.handles]
    rfl
  lookup := by
    intro q k o
    have hnew := ht.not_live_next hroom r o
    have hlookup : ((s.process.register r object).2).lookup? q k =
        if q = r ∧ k = Handle.issue s.process.registries.issued then some object
        else s.process.lookup? q k := Registries.lookup?_register _ r q object k
    rw [hlookup, live_registered]
    by_cases hsame : q = r ∧ k = Handle.issue s.process.registries.issued
    · obtain ⟨rfl, rfl⟩ := hsame
      rw [if_pos ⟨rfl, rfl⟩]
      constructor
      · intro heq
        cases heq
        exact .inl ⟨rfl, rfl, rfl⟩
      · rintro (⟨-, -, rfl⟩ | hlive)
        · rfl
        · exact absurd hlive hnew
    · rw [if_neg hsame, ht.lookup]
      constructor
      · intro hlive
        exact .inr hlive
      · rintro (⟨hq, hk, -⟩ | hlive)
        · exact absurd ⟨hq, hk⟩ hsame
        · exact hlive
  guards := by
    intro g hg
    rcases hguards g hg with rfl | hold
    · exact ⟨object, List.mem_cons_self⟩
    · obtain ⟨o, ho⟩ := ht.guards g hold
      exact ⟨o, List.mem_cons_of_mem _ ho⟩

/-- Releasing tracks the history, by hand or by a guard. -/
theorem Tracks.release {p : Process} (ht : s.Tracks)
    (hp : p.registries = (s.process.registries.release r handle).2)
    (hguards : ∀ g ∈ guards, g ∈ s.guards) :
    Tracks { process := p, guards, events := .released r handle :: s.events } where
  handles := by
    change issuedHandles s.events = ((List.range p.registries.issued).map Handle.issue).reverse
    rw [hp, Registries.issued_release, ht.handles]
  lookup := by
    intro q k o
    have hlookup : p.lookup? q k =
        if q = r ∧ k = handle then none else s.process.lookup? q k := by
      unfold Process.lookup?
      rw [hp, Registries.lookup?_release]
    rw [hlookup, live_released]
    by_cases hsame : q = r ∧ k = handle
    · rw [if_pos hsame]
      exact iff_of_false (fun hsome => nomatch hsome) fun hlive => hlive.1 hsame
    · rw [if_neg hsame, ht.lookup]
      exact ⟨fun hlive => ⟨hsame, hlive⟩, And.right⟩
  guards := by
    intro g hg
    obtain ⟨o, ho⟩ := ht.guards g (hguards g hg)
    exact ⟨o, List.mem_cons_of_mem _ ho⟩

/-- So does whatever leaves the registries as they are, or makes a new one. -/
theorem Tracks.beside {p : Process} (ht : s.Tracks)
    (hissued : p.registries.issued = s.process.registries.issued)
    (htables : p.registries.tables = s.process.registries.tables)
    (hguards : ∀ g ∈ guards, g ∈ s.guards) :
    Tracks { process := p, guards, events := s.events } where
  handles := by
    change issuedHandles s.events = ((List.range p.registries.issued).map Handle.issue).reverse
    rw [hissued, ht.handles]
  lookup := by
    intro q k o
    rw [← ht.lookup]
    unfold Process.lookup? Registries.lookup? Registries.objects
    rw [htables]
  guards := fun g hg => ht.guards g (hguards g hg)

end

theorem registries_holdObject (p : Process) (object : Object) :
    (p.holdObject object).registries = p.registries := by
  cases object <;> rfl

/-- A step counts a handle exactly when it registers an object. -/
theorem issued_step (s : RegistryRun) (x : RegistryStep) :
    (s.step x).process.registries.issued =
      s.process.registries.issued + if x.registers then 1 else 0 := by
  cases x with
  | register r object | guard r object => rfl
  | create | intoHandle g => rfl
  | dropGuard g =>
      simp only [step]
      split
      · rw [Process.registries_dropGuard, Registries.issued_release]
        rfl
      · rfl
  | release r handle =>
      simp only [step]
      rw [Process.registries_releaseHandle, Registries.issued_release]
      rfl
  | hold r handle =>
      simp only [step]
      split
      · rw [registries_holdObject]
        rfl
      · rfl
  | work op =>
      simp only [step]
      split
      · rfl
      · rename_i htouches
        rw [(Process.Operation.beside s.process (eq_false_of_ne_true htouches)).registries]
        rfl

/-- A step tracks the history, if there is room for the handle that it registers. -/
theorem Tracks.step (ht : s.Tracks) (x : RegistryStep)
    (hroom : (s.step x).process.registries.issued ≤ Handle.room) : (s.step x).Tracks := by
  rw [issued_step] at hroom
  cases x with
  | create => exact ht.beside rfl rfl fun _ hg => hg
  | register r object => exact ht.register hroom r object fun _ hg => .inr hg
  | guard r object => exact ht.register hroom r object fun _ hg => List.mem_cons.mp hg
  | dropGuard g =>
      simp only [RegistryRun.step]
      split
      · exact ht.release (s.process.registries_dropGuard g) fun _ hg => List.mem_of_mem_erase hg
      · exact ht
  | intoHandle g => exact ht.beside rfl rfl fun _ hg => List.mem_of_mem_erase hg
  | release r handle =>
      exact ht.release (s.process.registries_releaseHandle r handle) fun _ hg => hg
  | hold r handle =>
      simp only [RegistryRun.step]
      split
      · rename_i object _
        have hsame := registries_holdObject s.process object
        exact ht.beside (congrArg _ hsame) (congrArg _ hsame) fun _ hg => hg
      · exact ht
  | work op =>
      simp only [RegistryRun.step]
      split
      · exact ht
      · rename_i htouches
        have hsame :=
          (Process.Operation.beside s.process (eq_false_of_ne_true htouches)).registries
        exact ht.beside (congrArg _ hsame) (congrArg _ hsame) fun _ hg => hg

/-- The counter stands at the number of registrations. -/
theorem issued_foldl (s : RegistryRun) (steps : List RegistryStep) :
    (steps.foldl step s).process.registries.issued =
      s.process.registries.issued + steps.countP RegistryStep.registers := by
  induction steps generalizing s with
  | nil => rfl
  | cons x steps ih =>
      rw [List.foldl_cons, ih, issued_step, List.countP_cons]
      omega

/-- A run tracks its history while there is room for all handles. -/
theorem tracks_after {steps : List RegistryStep}
    (hroom : steps.countP RegistryStep.registers ≤ Handle.room) : (after steps).Tracks := by
  suffices hrun : ∀ s : RegistryRun, s.Tracks →
      s.process.registries.issued + steps.countP RegistryStep.registers ≤ Handle.room →
      (steps.foldl step s).Tracks from
    hrun {} tracks_empty ((Nat.zero_add _).symm ▸ hroom)
  clear hroom
  induction steps with
  | nil => exact fun s ht _ => ht
  | cons x steps ih =>
      intro s ht hle
      have hsplit := issued_step s x
      rw [List.countP_cons] at hle
      refine ih (s.step x) (ht.step x ?_) ?_ <;> omega

/-- The registries answer from what is live, and handles are never reused. -/
structure Exact (s : RegistryRun) : Prop where
  /-- No two registrations, in whatever registries, were given one handle. -/
  nodup : (issuedHandles s.events).Nodup
  issued : ∀ handle ∈ issuedHandles s.events,
    handle.toPointer ≠ 0 ∧ Handle.seed ≤ handle.id.toNat
  lookup : ∀ r handle object,
    s.process.lookup? r handle = some object ↔ Live s.events r handle object
  lookupAs : ∀ r handle isType object,
    s.process.registries.lookupAs? r handle isType = some object ↔
      Live s.events r handle object ∧ isType object = true
  contains : ∀ r handle,
    s.process.registries.contains r handle = true ↔ ∃ object, Live s.events r handle object
  /-- The size of a registry is the number of its live handles. -/
  size : ∀ r, ∃ handles : List Handle, handles.Nodup ∧
    (∀ handle, handle ∈ handles ↔ ∃ object, Live s.events r handle object) ∧
    s.process.registries.size r = handles.length
  /-- The release of a live handle gives its object and takes away nothing else. -/
  release : ∀ r handle object, Live s.events r handle object →
    (s.process.releaseHandle r handle).1 = .ok object ∧
    ∀ q k, (s.process.releaseHandle r handle).2.lookup? q k =
      if q = r ∧ k = handle then none else s.process.lookup? q k
  /-- The release of any other integer is reported and leaves every registry as it is. -/
  notFound : ∀ r handle, (∀ object, ¬ Live s.events r handle object) →
    (s.process.releaseHandle r handle).1 = .error (.notFound s!"handle {handle.text}") ∧
    (s.process.releaseHandle r handle).2.registries = s.process.registries
  /-- A handle that was released from its registry is dead in all of them. -/
  retired : ∀ r handle object later earlier,
    s.events = later ++ .released r handle :: earlier →
    .registered r handle object ∈ earlier → ∀ q o, ¬ Live s.events q handle o
  /-- A guard stands for a registration of its own, and takes away nothing else; it takes away
  nothing if its handle was released before. -/
  guard : ∀ g ∈ s.guards,
    (∃ object, .registered g.registry g.handle object ∈ s.events) ∧
    (∀ q k, (s.process.dropGuard g).lookup? q k =
      if q = g.registry ∧ k = g.handle then none else s.process.lookup? q k) ∧
    ((∀ object, ¬ Live s.events g.registry g.handle object) →
      (s.process.dropGuard g).registries = s.process.registries)

/-- What is not registered cannot be released. -/
theorem release_of_lookup_none {rs : Registries} {r : RegistryId} {handle : Handle}
    (hnone : rs.lookup? r handle = none) : rs.release r handle = (none, rs) := by
  unfold Registries.release
  rw [hnone]

namespace Tracks

variable {r : RegistryId} {handle : Handle}

theorem lookup_eq_none (ht : s.Tracks) (hdead : ∀ object, ¬ Live s.events r handle object) :
    s.process.registries.lookup? r handle = none := by
  cases hlookup : s.process.registries.lookup? r handle with
  | none => rfl
  | some object => exact absurd ((ht.lookup r handle object).mp hlookup) (hdead object)

theorem isSome_lookup (ht : s.Tracks) :
    (s.process.registries.lookup? r handle).isSome ↔
      ∃ object, Live s.events r handle object := by
  rw [Option.isSome_iff_exists]
  exact exists_congr fun object => ht.lookup r handle object

/-- The handles that were given out are those counted up from the seed. -/
theorem mem_issued (ht : s.Tracks) (hm : handle ∈ issuedHandles s.events) :
    ∃ n < s.process.registries.issued, handle = Handle.issue n := by
  rw [ht.handles, List.mem_reverse, List.mem_map] at hm
  obtain ⟨n, hn, rfl⟩ := hm
  exact ⟨n, List.mem_range.mp hn, rfl⟩

theorem nodup (ht : s.Tracks) (hroom : s.process.registries.issued ≤ Handle.room) :
    (issuedHandles s.events).Nodup := by
  rw [ht.handles, List.nodup_reverse]
  refine List.Nodup.map_on ?_ List.nodup_range
  intro n hn k hk heq
  have hn := Nat.lt_of_lt_of_le (List.mem_range.mp hn) hroom
  have hk := Nat.lt_of_lt_of_le (List.mem_range.mp hk) hroom
  exact Handle.issue_injective hn hk heq

/-- What tracks its history is exact. -/
theorem exact (ht : s.Tracks) (hroom : s.process.registries.issued ≤ Handle.room) : s.Exact := by
  constructor
  case nodup => exact ht.nodup hroom
  case issued =>
    intro handle hm
    obtain ⟨n, hn, rfl⟩ := ht.mem_issued hm
    have hlt := Nat.lt_of_lt_of_le hn hroom
    rw [Handle.toNat_issue hlt]
    exact ⟨Handle.issue_ne_null hlt, Nat.le_add_right _ _⟩
  case lookup => exact ht.lookup
  case lookupAs =>
    intro r handle isType object
    unfold Registries.lookupAs?
    rw [Option.filter_eq_some_iff]
    exact and_congr_left fun _ => ht.lookup r handle object
  case contains => exact fun r handle => ht.isSome_lookup
  case size =>
    intro r
    refine ⟨(s.process.registries.objects r).keys, (s.process.registries.objects r).nodup, ?_, ?_⟩
    · intro handle
      rw [Table.mem_keys_iff]
      exact ht.isSome_lookup
    · exact (Table.length_keys _).symm
  case release =>
    intro r handle object hlive
    have hlookup := (ht.lookup r handle object).mpr hlive
    constructor
    · unfold Process.releaseHandle Registries.release
      rw [show s.process.registries.lookup? r handle = some object from hlookup]
    · intro q k
      unfold Process.lookup?
      rw [Process.registries_releaseHandle, Registries.lookup?_release]
  case notFound =>
    intro r handle hdead
    have hrelease := release_of_lookup_none (ht.lookup_eq_none hdead)
    constructor
    · unfold Process.releaseHandle
      rw [hrelease]
    · rw [Process.registries_releaseHandle, hrelease]
  case retired =>
    intro r handle object later earlier hevents hm q o
    exact not_live_of_released (ht.nodup hroom) hevents hm
  case guard =>
    intro g hg
    refine ⟨ht.guards g hg, ?_, ?_⟩
    · intro q k
      unfold Process.lookup?
      rw [Process.registries_dropGuard, Registries.lookup?_release]
    · intro hdead
      rw [Process.registries_dropGuard, release_of_lookup_none (ht.lookup_eq_none hdead)]

end Tracks

/-- After any run with room for all of its handles the registries are exact. -/
theorem registries_exact (steps : List RegistryStep)
    (hroom : steps.countP RegistryStep.registers ≤ Handle.room) : (after steps).Exact := by
  have hissued := issued_foldl {} steps
  refine (tracks_after hroom).exact ?_
  unfold after
  rw [hissued]
  exact (Nat.zero_add _).symm ▸ hroom

/-- An object is guarded, released by hand, and outlived by its guard, while another object gets
the next handle of the same registry. -/
def staleGuard : List RegistryStep :=
  [.create, .guard globalRegistry (.value (.text "a")), .register 1 (.value (.word64 7)),
    .release globalRegistry (Handle.issue 0), .register globalRegistry (.value .unit),
    .release globalRegistry (Handle.issue 1), .dropGuard ⟨globalRegistry, Handle.issue 0⟩]

theorem registries_exact_staleGuard :
    staleGuard.countP RegistryStep.registers ≤ Handle.room ∧ (after staleGuard).Exact ∧
      (after staleGuard).process.lookup? globalRegistry (Handle.issue 0) = none ∧
      (after staleGuard).process.lookup? 1 (Handle.issue 1) = some (.value (.word64 7)) ∧
      (after staleGuard).process.lookup? globalRegistry (Handle.issue 2) = some (.value .unit) := by
  have hroom : staleGuard.countP RegistryStep.registers ≤ Handle.room := by decide
  exact ⟨hroom, registries_exact staleGuard hroom, rfl, rfl, rfl⟩

end RegistryRun

end NativeBoundary

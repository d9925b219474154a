import Mathlib.Data.List.Nodup
import NativeBoundary.Proofs.Handles.Bindings
import NativeBoundary.Proofs.Kem.Observations

/-!
# The outlook of a worker

A worker is a thread that binds policies, registers and releases objects of its own, and calls the
entry points for key encapsulation.  It refers to its handles, and to the buffers that it was
handed, in the order in which it got them.  What it can tell of the process is then free of the
numbers that handles and blocks have: which of its objects are still registered, which of its
bindings stands in the slot, which bytes it was handed, and what it has seen (`Outlook`).

Every step of a worker changes its outlook in a way that the outlook alone decides
(`Outlook.step`), apart from what an entry point shows; and that follows from the outlook too
(`Worker.shown_congr`).

* `Worker.outlook_step` — what a step does to the outlook;
* `Worker.outlook_step_congr` — workers with one outlook keep one, whatever else their processes
  hold.
-/

namespace NativeBoundary

/-- Bytes that a worker passes to an entry point. -/
inductive Input
  | null (size : Int32)
  | host (bytes : Bytes) (size : Int32)
  /-- A buffer that it was handed before. -/
  | handed (n : Nat)

/-- A call of an entry point.  A private key is one of the handles of the worker, or null. -/
inductive WorkerCall
  | encapsulate (encapsulationKey seed : Input) (ciphertext secret : Option RawBuffer)
  | decapsulate (key? : Option Nat) (ciphertext : Input) (out : Option RawBuffer)
  | derivePublic (key? : Option Nat) (out : Option RawBuffer)

/-- What a worker does. -/
inductive WorkerOp
  | bind (policy : Policy)
  | unbind (n : Nat)
  | clearSlot
  /-- Asks for the current policy, and whether there is one. -/
  | look
  | register (object : Object)
  | release (n : Nat)
  /-- A call, and how many requests the allocator grants before it refuses one. -/
  | call (granted : Option Nat) (c : WorkerCall)

/-- Whether a step may register something. -/
def WorkerOp.registers : WorkerOp → Bool
  | bind _ | register _ => true
  | _ => false

/-- What a worker sees. -/
inductive Observation
  | bound (refusal? : Option Fault)
  | looked (bound : Bool) (policy? : Option Policy)
  /-- The object that was released; none if there was none. -/
  | released (object? : Option Object)
  | called (code : Int32) (outs : List (Option Bytes))

/-- What a worker keeps for itself. -/
structure Books where
  /-- Its handles, in the order in which it got them. -/
  handles : List Handle := []
  /-- Its live bindings with their policies, each by the number of its handle. -/
  live : List (Nat × Policy) := []
  /-- The buffers that it was handed. -/
  handed : List RawBuffer := []
  /-- What it has seen, latest first. -/
  seen : List Observation := []

/-- A worker that is running, and the process as it finds it. -/
structure Worker extends Books where
  process : Process

/-- A process whose allocator grants that many requests before it refuses one. -/
def Process.granting (p : Process) (granted : Option Nat) : Process :=
  p.setHeap { p.heap with granted }

theorem Process.heap_congr {p q : Process} (hmemory : q.memory = p.memory) : q.heap = p.heap :=
  congrArg Memory.heap hmemory

namespace Worker

/-- The private key that is passed. -/
def pointer (w : Worker) : Option Nat → UInt64
  | none => 0
  | some n => (w.handles[n]?.map Handle.toPointer).getD 0

/-- The buffer that is passed. -/
def input (w : Worker) : Input → RawBuffer
  | .null size => ⟨.null, size⟩
  | .host bytes size => ⟨.host bytes, size⟩
  | .handed n => w.handed[n]?.getD .empty

/-- The call of the entry point. -/
def resolve (w : Worker) : WorkerCall → KemCall
  | .encapsulate encapsulationKey seed ciphertext secret =>
      .encapsulate (w.input encapsulationKey) (w.input seed) ciphertext secret
  | .decapsulate key? ciphertext out => .decapsulate (w.pointer key?) (w.input ciphertext) out
  | .derivePublic key? out => .derivePublic (w.pointer key?) out

/-- One step.  A binding ends once. -/
def step (w : Worker) : WorkerOp → Worker
  | .bind policy =>
      match w.process.bind policy with
      | (.ok b, process) =>
          { w with
            process
            handles := w.handles ++ [b.handle]
            live := (w.handles.length, policy) :: w.live
            seen := .bound none :: w.seen }
      | (.error fault, process) => { w with process, seen := .bound (some fault) :: w.seen }
  | .unbind n =>
      match w.handles[n]? with
      | some handle =>
          if n ∈ w.live.map Prod.fst then
            { w with process := w.process.unbind ⟨handle⟩, live := w.live.filter (·.1 ≠ n) }
          else w
      | none => w
  | .clearSlot => { w with process := w.process.clearSlot }
  | .look =>
      { w with seen := .looked w.process.isBound w.process.currentPolicy.toOption :: w.seen }
  | .register object =>
      let (handle, process) := w.process.register globalRegistry object
      { w with process, handles := w.handles ++ [handle] }
  | .release n =>
      match w.handles[n]? with
      | some handle =>
          let (result, process) := w.process.releaseHandle globalRegistry handle
          { w with process, seen := .released result.toOption :: w.seen }
      | none => w
  | .call granted c =>
      let (reply, process) := (w.resolve c).run (w.process.granting granted)
      let shown := (w.resolve c).shows (w.process.granting granted)
      { w with
        process
        handed := w.handed ++ reply.outs.filterMap id
        seen := .called shown.1 shown.2 :: w.seen }

/-- What an entry point shows in a step. -/
def shown (w : Worker) : WorkerOp → Int32 × List (Option Bytes)
  | .call granted c => (w.resolve c).shows (w.process.granting granted)
  | _ => (Code.success, [])

end Worker

/-- What a worker can tell of the process, by the numbers that it gave to its handles. -/
@[ext]
structure Outlook where
  /-- What is registered under its handles. -/
  objects : List (Option Object)
  /-- Which of its handles stands in the slot. -/
  bound? : Option Nat
  live : List (Nat × Policy)
  /-- The bytes that it was handed. -/
  handed : List Bytes
  seen : List Observation

namespace Outlook

/-- The policy of the worker. -/
def policy? (a : Outlook) : Option Policy :=
  (a.bound?.bind fun n => a.objects[n]?.join).bind Object.policy?

/-- The private key that is passed. -/
def object? (a : Outlook) (key? : Option Nat) : Option Object :=
  key?.bind fun n => a.objects[n]?.join

/-- Whether a handle is passed, and not null. -/
def names (a : Outlook) (key? : Option Nat) : Bool := key?.any (· < a.objects.length)

/-- The bytes that are passed. -/
def bytes (a : Outlook) : Input → Bytes
  | .null _ => []
  | .host bytes size => RawBuffer.bytes ⟨.host bytes, size⟩ {}
  | .handed n => a.handed[n]?.getD []

/-- Whether what is passed counts as empty. -/
def isEmpty (a : Outlook) : Input → Bool
  | .null _ => true
  | .host bytes size => RawBuffer.isEmpty ⟨.host bytes, size⟩
  | .handed n => (a.handed[n]?.getD []).isEmpty

/-- What a step does, if an entry point shows `shown` in it. -/
def step (a : Outlook) (shown : Int32 × List (Option Bytes)) : WorkerOp → Outlook
  | .bind policy =>
      if a.bound?.isSome then { a with seen := .bound (some .alreadyBound) :: a.seen }
      else
        { a with
          objects := a.objects ++ [some (.policy policy)]
          bound? := some a.objects.length
          live := (a.objects.length, policy) :: a.live
          seen := .bound none :: a.seen }
  | .unbind n =>
      if n < a.objects.length ∧ n ∈ a.live.map Prod.fst then
        { a with
          objects := a.objects.set n none
          bound? := if a.bound? = some n then none else a.bound?
          live := a.live.filter (·.1 ≠ n) }
      else a
  | .clearSlot => { a with bound? := none }
  | .look => { a with seen := .looked a.bound?.isSome a.policy? :: a.seen }
  | .register object => { a with objects := a.objects ++ [some object] }
  | .release n =>
      match a.objects[n]? with
      | some object? =>
          { a with objects := a.objects.set n none, seen := .released object? :: a.seen }
      | none => a
  | .call _ _ =>
      { a with
        handed := a.handed ++ shown.2.filterMap id
        seen := .called shown.1 shown.2 :: a.seen }

end Outlook

/-- Which of some handles stands in a slot. -/
def slotAmong (handles : List Handle) (slot : UInt64) : Option Nat :=
  handles.findIdx? (·.toPointer = slot)

/-- What a worker can tell of the process. -/
def Worker.outlook (w : Worker) : Outlook where
  objects := w.handles.map (w.process.lookup? globalRegistry)
  bound? := slotAmong w.handles w.process.slot
  live := w.live
  handed := w.handed.map (RawBuffer.bytes · w.process.heap)
  seen := w.seen

section

variable {handles : List Handle} {handle : Handle} {slot : UInt64} {n : Nat}

theorem Handle.toPointer_inj {h k : Handle} : h.toPointer = k.toPointer ↔ h = k :=
  ⟨fun heq => congrArg Handle.mk heq, congrArg Handle.toPointer⟩

theorem slotAmong_null (hsome : ∀ h ∈ handles, h.toPointer ≠ 0) : slotAmong handles 0 = none := by
  unfold slotAmong
  rw [List.findIdx?_eq_none_iff]
  exact fun h hh => decide_eq_false (hsome h hh)

theorem slotAmong_getElem (hdistinct : handles.Nodup) (hn : handles[n]? = some handle) :
    slotAmong handles handle.toPointer = some n := by
  obtain ⟨hlt, rfl⟩ := List.getElem?_eq_some_iff.mp hn
  unfold slotAmong
  rw [List.findIdx?_eq_some_iff_getElem]
  refine ⟨hlt, decide_eq_true rfl, fun j hj hsame => ?_⟩
  have heq := Handle.toPointer_inj.mp (of_decide_eq_true hsame)
  exact absurd (hdistinct.getElem_inj_iff.mp heq) (Nat.ne_of_lt hj)

theorem slotAmong_append_of_ne (hother : handle.toPointer ≠ slot) :
    slotAmong (handles ++ [handle]) slot = slotAmong handles slot := by
  unfold slotAmong
  rw [List.findIdx?_append, List.findIdx?_singleton, decide_eq_false hother]
  simp

theorem slotAmong_append_self (hnew : handle ∉ handles) :
    slotAmong (handles ++ [handle]) handle.toPointer = some handles.length := by
  have hnone : slotAmong handles handle.toPointer = none := by
    unfold slotAmong
    rw [List.findIdx?_eq_none_iff]
    intro h hh
    refine decide_eq_false fun hsame => hnew ?_
    rw [← Handle.toPointer_inj.mp hsame]
    exact hh
  unfold slotAmong at hnone ⊢
  rw [List.findIdx?_append, List.findIdx?_singleton, hnone]
  simp

end

namespace Worker

variable {w : Worker} {q : Process} {object : Object} {handle : Handle} {n : Nat}

/-- How many handles were given out, to whomever. -/
abbrev issued (w : Worker) : Nat := w.process.registries.issued

/-- The handles of a worker were given to it alone, and its slot holds a binding of its own. -/
structure Owned (w : Worker) : Prop where
  issued : w.process.registries.Issued
  given : ∀ h ∈ w.handles, ∃ n < w.issued, h = Handle.issue n
  distinct : w.handles.Nodup
  slot : w.process.slot = 0 ∨
    ∃ x ∈ w.live, ∃ h, w.handles[x.1]? = some h ∧ w.process.slot = h.toPointer
  /-- What is registered under the handle of a binding is its policy. -/
  live : ∀ x ∈ w.live, ∀ h, w.handles[x.1]? = some h →
    ∀ object, w.process.lookup? globalRegistry h = some object → object = .policy x.2
  numbered : ∀ x ∈ w.live, x.1 < w.handles.length
  /-- The buffers that it was handed are in blocks that were made. -/
  handed : ∀ raw ∈ w.handed, raw.Placed w.process.heap

namespace Owned

/-- None of its handles is null. -/
theorem ne_null (ho : w.Owned) (hroom : w.issued ≤ Handle.room) :
    ∀ h ∈ w.handles, h.toPointer ≠ 0 := by
  intro h hh
  obtain ⟨n, hn, rfl⟩ := ho.given h hh
  exact Handle.issue_ne_null (Nat.lt_of_lt_of_le hn hroom)

/-- The next handle is none of them. -/
theorem ne_next (ho : w.Owned) (hroom : w.issued < Handle.room) :
    Handle.issue w.issued ∉ w.handles := by
  intro hmem
  obtain ⟨n, hn, heq⟩ := ho.given _ hmem
  have hsame := Handle.issue_injective hroom (Nat.lt_trans hn hroom) heq
  omega

/-- The slot is null exactly if it holds none of them. -/
theorem slot_cases (ho : w.Owned) (hroom : w.issued ≤ Handle.room) :
    (w.process.slot = 0 ∧ w.outlook.bound? = none) ∨
      ∃ n h, w.handles[n]? = some h ∧ h.toPointer ≠ 0 ∧ w.process.slot = h.toPointer ∧
        w.outlook.bound? = some n := by
  rcases ho.slot with hnull | ⟨x, -, h, hh, hslot⟩
  · refine .inl ⟨hnull, ?_⟩
    unfold outlook
    simp only [hnull]
    exact slotAmong_null (ho.ne_null hroom)
  · refine .inr ⟨x.1, h, hh, ho.ne_null hroom h (List.mem_of_getElem? hh), hslot, ?_⟩
    unfold outlook
    simp only [hslot]
    exact slotAmong_getElem ho.distinct hh

theorem isBound_eq (ho : w.Owned) (hroom : w.issued ≤ Handle.room) :
    w.process.isBound = w.outlook.bound?.isSome := by
  unfold Process.isBound
  rcases ho.slot_cases hroom with ⟨hnull, hnone⟩ | ⟨n, h, -, hne, hslot, hsome⟩
  · simp [hnull, hnone]
  · simp [hslot, hne, hsome]

/-- The policy that the slot leads to is the one of the outlook. -/
theorem boundPolicy?_eq (ho : w.Owned) (hroom : w.issued ≤ Handle.room) :
    w.process.boundPolicy? = w.outlook.policy? := by
  rw [Process.boundPolicy?_eq]
  unfold Outlook.policy?
  rcases ho.slot_cases hroom with ⟨hnull, hnone⟩ | ⟨n, h, hh, hne, hslot, hsome⟩
  · rw [if_pos hnull, hnone]
    rfl
  · have hobject : w.outlook.objects[n]?.join = w.process.lookup? globalRegistry h := by
      simp [outlook, hh]
    rw [hslot, if_neg hne, hsome, Option.bind_some, hobject]
    rfl

theorem currentPolicy_eq (ho : w.Owned) (hroom : w.issued ≤ Handle.room) :
    w.process.currentPolicy.toOption = w.outlook.policy? := by
  rw [← ho.boundPolicy?_eq hroom]
  rcases w.process.currentPolicy_cases with ⟨policy, hbound, hcurrent⟩ | ⟨hnone, what, hcurrent⟩
  · rw [hbound, hcurrent]
    rfl
  · rw [hnone, hcurrent]
    rfl

/-- Nothing is registered under null. -/
theorem lookup_null (ho : w.Owned) (hroom : w.issued ≤ Handle.room) :
    w.process.lookup? globalRegistry ⟨0⟩ = none := by
  cases hlookup : w.process.lookup? globalRegistry ⟨0⟩ with
  | none => rfl
  | some object =>
      have hsome : (w.process.registries.lookup? globalRegistry ⟨0⟩).isSome = true :=
        congrArg Option.isSome hlookup
      obtain ⟨n, hn, heq⟩ := ho.issued globalRegistry ⟨0⟩ hsome
      have hne := Handle.issue_ne_null (Nat.lt_of_lt_of_le hn hroom)
      rw [← heq] at hne
      exact absurd rfl hne

/-- A private key leads to the object of the outlook. -/
theorem lookup_pointer (ho : w.Owned) (hroom : w.issued ≤ Handle.room) (key? : Option Nat) :
    w.process.lookup? globalRegistry ⟨w.pointer key?⟩ = w.outlook.object? key? := by
  cases key? with
  | none => exact ho.lookup_null hroom
  | some n =>
      cases hn : w.handles[n]? with
      | none => simp [pointer, Outlook.object?, outlook, hn, ho.lookup_null hroom]
      | some h => simp [pointer, Outlook.object?, outlook, hn, Handle.toPointer]

/-- It is null exactly if it is none of the handles. -/
theorem pointer_eq_zero (ho : w.Owned) (hroom : w.issued ≤ Handle.room) (key? : Option Nat) :
    decide (w.pointer key? = 0) = !w.outlook.names key? := by
  cases key? with
  | none => rfl
  | some n =>
      cases hn : w.handles[n]? with
      | none =>
          have hle := List.getElem?_eq_none_iff.mp hn
          simp [pointer, Outlook.names, outlook, hle]
      | some h =>
          have hne := ho.ne_null hroom h (List.mem_of_getElem? hn)
          obtain ⟨hlt, rfl⟩ := List.getElem?_eq_some_iff.mp hn
          simp [pointer, Outlook.names, outlook, hlt, hne]

/-- Input carries the bytes of the outlook. -/
theorem input_bytes (w : Worker) (i : Input) :
    (w.input i).bytes w.process.heap = w.outlook.bytes i := by
  cases i with
  | null size => rfl
  | host bytes size => rfl
  | handed n =>
      cases hn : w.handed[n]? with
      | none =>
          simp [input, Outlook.bytes, outlook, hn]
          rfl
      | some raw => simp [input, Outlook.bytes, outlook, hn]

theorem input_isEmpty (ho : w.Owned) (i : Input) : (w.input i).isEmpty = w.outlook.isEmpty i := by
  cases i with
  | null size => rfl
  | host bytes size => rfl
  | handed n =>
      cases hn : w.handed[n]? with
      | none =>
          simp [input, Outlook.isEmpty, outlook, hn]
          rfl
      | some raw =>
          have hplaced := ho.handed raw (List.mem_of_getElem? hn)
          simp only [input, Outlook.isEmpty, outlook, hn, List.getElem?_map, Option.map_some,
            Option.getD_some]
          rw [Bool.eq_iff_iff, hplaced.isEmpty_iff, List.isEmpty_iff]

end Owned

@[simp] theorem boundPolicy?_granting (p : Process) (granted : Option Nat) :
    (p.granting granted).boundPolicy? = p.boundPolicy? := rfl

@[simp] theorem lookup?_granting (p : Process) (granted : Option Nat) (r : RegistryId)
    (h : Handle) : (p.granting granted).lookup? r h = p.lookup? r h := rfl

@[simp] theorem bytes_granting (p : Process) (granted : Option Nat) (raw : RawBuffer) :
    raw.bytes (p.granting granted).heap = raw.bytes p.heap := rfl

section

variable {w' : Worker}

/-- An entry point shows two workers the same if their outlook is the same. -/
theorem shown_congr (ho : w.Owned) (ho' : w'.Owned) (hroom : w.issued ≤ Handle.room)
    (hroom' : w'.issued ≤ Handle.room) (hsame : w'.outlook = w.outlook) (op : WorkerOp) :
    w'.shown op = w.shown op := by
  cases op with
  | call granted c =>
      refine KemCall.shows_congr ?_ ?_ ?_ rfl
      · cases c <;>
          simp only [resolve, KemCall.checks, boundPolicy?_granting, lookup?_granting,
            bytes_granting, ho.boundPolicy?_eq hroom, ho'.boundPolicy?_eq hroom', ho.input_isEmpty,
            ho'.input_isEmpty, ho.lookup_pointer hroom, ho'.lookup_pointer hroom',
            ho.pointer_eq_zero hroom, ho'.pointer_eq_zero hroom', Owned.input_bytes, hsame]
      · cases c <;>
          simp only [resolve, KemCall.asked?, boundPolicy?_granting, lookup?_granting,
            bytes_granting, ho.boundPolicy?_eq hroom, ho'.boundPolicy?_eq hroom',
            ho.lookup_pointer hroom, ho'.lookup_pointer hroom', Owned.input_bytes, hsame,
            Option.bind_eq_bind, Option.map_bind, Option.pure_def, Option.map_some,
            Function.comp_def]
      · cases c <;> rfl
  | _ => rfl

end

/-- An object is registered, and may be a policy that is bound. -/
structure Adds (w : Worker) (object : Object) (w' : Worker) : Prop where
  registries :
    w'.process.registries = (w.process.registries.register globalRegistry object).2
  memory : w'.process.memory = w.process.memory
  handles : w'.handles = w.handles ++ [Handle.issue w.issued]
  handed : w'.handed = w.handed
  slot : (w'.live = w.live ∧ w'.process.slot = w.process.slot) ∨
    ∃ policy, object = .policy policy ∧ w'.live = (w.handles.length, policy) :: w.live ∧
      w'.process.slot = (Handle.issue w.issued).toPointer

/-- A handle of the worker is released, and may be one of a binding that ends. -/
structure Removes (w : Worker) (n : Nat) (handle : Handle) (w' : Worker) : Prop where
  own : w.handles[n]? = some handle
  registries :
    w'.process.registries = (w.process.registries.release globalRegistry handle).2
  memory : w'.process.memory = w.process.memory
  handles : w'.handles = w.handles
  handed : w'.handed = w.handed
  slot : (w'.live = w.live ∧ w'.process.slot = w.process.slot) ∨
    (w'.live = w.live.filter (·.1 ≠ n) ∧
      w'.process.slot = if w.process.slot = handle.toPointer then 0 else w.process.slot)

/-- Nothing is registered or released, and no block from before changes. -/
structure Stays (w w' : Worker) : Prop where
  registries : w'.process.registries = w.process.registries
  handles : w'.handles = w.handles
  live : w'.live = w.live
  slot : w'.process.slot = w.process.slot ∨ w'.process.slot = 0
  next : w.process.heap.next ≤ w'.process.heap.next
  kept : ∀ id < w.process.heap.next, w'.process.heap.block? id = w.process.heap.block? id
  handed : ∀ raw ∈ w'.handed, raw ∈ w.handed ∨ raw.Placed w'.process.heap

theorem stays_of_memory {w' : Worker} (hregistries : w'.process.registries = w.process.registries)
    (hmemory : w'.process.memory = w.process.memory) (hbooks : w'.handles = w.handles)
    (hlive : w'.live = w.live) (hhanded : w'.handed = w.handed)
    (hslot : w'.process.slot = w.process.slot ∨ w'.process.slot = 0) : w.Stays w' where
  registries := hregistries
  handles := hbooks
  live := hlive
  slot := hslot
  next := by rw [Process.heap_congr hmemory]
  kept := fun id _ => by rw [Process.heap_congr hmemory]
  handed := fun raw hraw => .inl (hhanded ▸ hraw)

theorem stays_call (w : Worker) (granted : Option Nat) (c : WorkerCall) :
    w.Stays (w.step (.call granted c)) := by
  have hbeside := (w.resolve c).beside (w.process.granting granted)
  have hlawful := KemCall.lawful (w.process.granting granted) (w.resolve c)
  constructor
  case registries => exact hbeside.registries
  case handles => rfl
  case live => rfl
  case slot => exact .inl hbeside.slot
  case next => exact (w.resolve c).next_le (w.process.granting granted)
  case kept => exact hlawful.kept
  case handed =>
    intro raw hraw
    rcases List.mem_append.mp hraw with hold | hnew
    · exact .inl hold
    · obtain ⟨out, hout, hsome⟩ := List.mem_filterMap.mp hnew
      have hraw : out = some raw := hsome
      rw [hraw] at hout
      exact .inr ((w.resolve c).placed_outs (w.process.granting granted) raw hout)

theorem step_bind_of_bound (policy : Policy) (hbound : w.process.slot ≠ 0) :
    w.step (.bind policy) =
      { w with
        process := w.process.report .bindingRefused
        seen := .bound (some .alreadyBound) :: w.seen } := by
  rcases w.process.bind_cases policy with ⟨-, hbind⟩ | ⟨hfree, -⟩
  · simp only [step, hbind]
  · exact absurd hfree hbound

theorem step_bind_of_free (policy : Policy) (hfree : w.process.slot = 0) :
    ∃ q, w.process.Binds policy q ∧ q.memory = w.process.memory ∧
      w.step (.bind policy) =
        { w with
          process := q
          handles := w.handles ++ [Handle.issue w.issued]
          live := (w.handles.length, policy) :: w.live
          seen := .bound none :: w.seen } := by
  have hmemory := w.process.memory_bind policy
  rcases w.process.bind_cases policy with ⟨hbound, -⟩ | ⟨-, q, hbind, hbinds⟩
  · exact absurd hfree hbound
  · rw [hbind] at hmemory
    exact ⟨q, hbinds, hmemory, by simp only [step, hbind]⟩

theorem adds_bind (policy : Policy) (hfree : w.process.slot = 0) :
    w.Adds (.policy policy) (w.step (.bind policy)) := by
  obtain ⟨q, hbinds, hmemory, hstep⟩ := step_bind_of_free policy hfree
  rw [hstep]
  exact ⟨hbinds.registries, hmemory, rfl, rfl, .inr ⟨policy, rfl, rfl, hbinds.slot⟩⟩

theorem adds_register (w : Worker) (object : Object) :
    w.Adds object (w.step (.register object)) := ⟨rfl, rfl, rfl, rfl, .inl ⟨rfl, rfl⟩⟩

theorem removes_unbind (hn : w.handles[n]? = some handle) (hlive : n ∈ w.live.map Prod.fst) :
    w.Removes n handle (w.step (.unbind n)) := by
  simp only [step, hn, if_pos hlive]
  exact ⟨hn, w.process.registries_unbind ⟨handle⟩, w.process.memory_unbind ⟨handle⟩, rfl, rfl,
    .inr ⟨rfl, w.process.slot_unbind ⟨handle⟩⟩⟩

theorem removes_release (hn : w.handles[n]? = some handle) :
    w.Removes n handle (w.step (.release n)) := by
  simp only [step, hn]
  exact ⟨hn, w.process.registries_releaseHandle _ _, w.process.memory_releaseHandle _ _, rfl, rfl,
    .inl ⟨rfl, w.process.slot_releaseHandle _ _⟩⟩

/-- A step registers an object, releases a handle of the worker, or does neither. -/
theorem step_cases (w : Worker) (op : WorkerOp) :
    (op.registers = true ∧ ∃ object, w.Adds object (w.step op)) ∨
      (∃ n handle, w.Removes n handle (w.step op)) ∨ w.Stays (w.step op) := by
  have hnone : w.Stays w := stays_of_memory rfl rfl rfl rfl rfl (.inl rfl)
  cases op with
  | bind policy =>
      by_cases hfree : w.process.slot = 0
      · exact .inl ⟨rfl, _, adds_bind policy hfree⟩
      · rw [step_bind_of_bound policy hfree]
        exact .inr (.inr (stays_of_memory rfl rfl rfl rfl rfl (.inl rfl)))
  | unbind n =>
      by_cases hlive : n ∈ w.live.map Prod.fst
      · cases hn : w.handles[n]? with
        | none => exact .inr (.inr (by simpa only [step, hn] using hnone))
        | some handle => exact .inr (.inl ⟨n, handle, removes_unbind hn hlive⟩)
      · refine .inr (.inr ?_)
        simp only [step, if_neg hlive]
        split <;> exact hnone
  | clearSlot => exact .inr (.inr (stays_of_memory rfl rfl rfl rfl rfl (.inr rfl)))
  | look => exact .inr (.inr (stays_of_memory rfl rfl rfl rfl rfl (.inl rfl)))
  | register object => exact .inl ⟨rfl, object, w.adds_register object⟩
  | release n =>
      cases hn : w.handles[n]? with
      | none => exact .inr (.inr (by simpa only [step, hn] using hnone))
      | some handle => exact .inr (.inl ⟨n, handle, removes_release hn⟩)
  | call granted c => exact .inr (.inr (w.stays_call granted c))

variable {w' : Worker}

theorem Adds.issued (hs : w.Adds object w') : w'.issued = w.issued + 1 := by
  unfold Worker.issued
  rw [hs.registries]
  rfl

theorem Adds.lookup (hs : w.Adds object w') (h : Handle) :
    w'.process.lookup? globalRegistry h =
      if h = Handle.issue w.issued then some object
      else w.process.lookup? globalRegistry h := by
  unfold Process.lookup?
  rw [hs.registries, Registries.lookup?_register]
  simp

theorem Removes.issued (hs : w.Removes n handle w') : w'.issued = w.issued := by
  unfold Worker.issued
  rw [hs.registries, Registries.issued_release]

theorem Removes.lookup (hs : w.Removes n handle w') (h : Handle) :
    w'.process.lookup? globalRegistry h =
      if h = handle then none else w.process.lookup? globalRegistry h := by
  unfold Process.lookup?
  rw [hs.registries, Registries.lookup?_release]
  simp

theorem Stays.issued (hs : w.Stays w') : w'.issued = w.issued := by
  unfold Worker.issued
  rw [hs.registries]

theorem Stays.lookup (hs : w.Stays w') (h : Handle) :
    w'.process.lookup? globalRegistry h = w.process.lookup? globalRegistry h := by
  unfold Process.lookup?
  rw [hs.registries]

/-- Handles are only ever given out. -/
theorem issued_le (w : Worker) (op : WorkerOp) : w.issued ≤ (w.step op).issued := by
  rcases w.step_cases op with ⟨-, object, hs⟩ | ⟨n, handle, hs⟩ | hs <;>
    have hissued := hs.issued <;> omega

theorem issued_step_le (w : Worker) (op : WorkerOp) :
    (w.step op).issued ≤ w.issued + if op.registers then 1 else 0 := by
  rcases w.step_cases op with ⟨hregisters, object, hs⟩ | ⟨n, handle, hs⟩ | hs
  · rw [hs.issued, if_pos hregisters]
  · rw [hs.issued]
    exact Nat.le_add_right _ _
  · rw [hs.issued]
    exact Nat.le_add_right _ _

namespace Owned

/-- An object that is registered comes last. -/
theorem objects_of_adds (ho : w.Owned) (hroom : w.issued < Handle.room)
    (hs : w.Adds object w') : w'.outlook.objects = w.outlook.objects ++ [some object] := by
  unfold outlook
  simp only [hs.handles, List.map_append, List.map_cons, List.map_nil, hs.lookup, if_pos]
  congr 1
  refine List.map_congr_left fun h hh => (hs.lookup h).trans (if_neg ?_)
  rintro rfl
  exact ho.ne_next hroom hh

/-- An object that is released is gone, and no other. -/
theorem objects_of_removes (ho : w.Owned) (hs : w.Removes n handle w') :
    w'.outlook.objects = w.outlook.objects.set n none := by
  unfold outlook
  simp only [hs.handles]
  refine List.ext_getElem? fun i => ?_
  rw [List.getElem?_map, List.getElem?_set, List.getElem?_map, List.length_map]
  obtain ⟨hlt, hown⟩ := List.getElem?_eq_some_iff.mp hs.own
  by_cases hi : n = i
  · subst hi
    rw [if_pos rfl, if_pos hlt, hs.own, Option.map_some, hs.lookup, if_pos rfl]
  · rw [if_neg hi]
    cases hget : w.handles[i]? with
    | none => rfl
    | some h =>
        rw [Option.map_some, Option.map_some, hs.lookup, if_neg]
        rintro rfl
        obtain ⟨hlt', hother⟩ := List.getElem?_eq_some_iff.mp hget
        exact hi (ho.distinct.getElem_inj_iff.mp (hown.trans hother.symm))

theorem objects_of_stays (hs : w.Stays w') : w'.outlook.objects = w.outlook.objects := by
  unfold outlook
  simp only [hs.handles]
  exact List.map_congr_left fun h _ => hs.lookup h

/-- A worker owns the handle of an object that it registers. -/
theorem adds (ho : w.Owned) (hroom : w.issued < Handle.room) (hs : w.Adds object w') :
    w'.Owned := by
  have hnew := ho.ne_next hroom
  have hold : ∀ {i h}, i < w.handles.length →
      (w'.handles[i]? = some h ↔ w.handles[i]? = some h) := by
    intro i h hi
    rw [hs.handles, List.getElem?_append_left hi]
  have hlast : w'.handles[w.handles.length]? = some (Handle.issue w.issued) := by
    rw [hs.handles]
    simp
  constructor
  case issued =>
    rw [hs.registries]
    exact ho.issued.register _ _
  case given =>
    rw [hs.handles, hs.issued]
    intro h hh
    rcases List.mem_append.mp hh with hmine | hlast
    · obtain ⟨n, hn, heq⟩ := ho.given h hmine
      exact ⟨n, Nat.lt_succ_of_lt hn, heq⟩
    · exact ⟨w.issued, Nat.lt_succ_self _, List.mem_singleton.mp hlast⟩
  case distinct =>
    rw [hs.handles, ← List.concat_eq_append]
    exact ho.distinct.concat hnew
  case slot =>
    rcases hs.slot with ⟨hlive, hslot⟩ | ⟨policy, -, hlive, hslot⟩
    · rw [hlive, hslot]
      rcases ho.slot with hnull | ⟨x, hx, h, hh, heq⟩
      · exact .inl hnull
      · exact .inr ⟨x, hx, h, (hold (ho.numbered x hx)).mpr hh, heq⟩
    · rw [hlive]
      exact .inr ⟨_, List.mem_cons_self, _, hlast, hslot⟩
  case live =>
    have hmine : ∀ x ∈ w.live, ∀ h, w'.handles[x.1]? = some h →
        ∀ o, w'.process.lookup? globalRegistry h = some o → o = .policy x.2 := by
      intro x hx h hh o hlookup
      have hown := (hold (ho.numbered x hx)).mp hh
      have hother : h ≠ Handle.issue w.issued := by
        rintro rfl
        exact hnew (List.mem_of_getElem? hown)
      rw [hs.lookup, if_neg hother] at hlookup
      exact ho.live x hx h hown o hlookup
    rcases hs.slot with ⟨hlive, -⟩ | ⟨policy, rfl, hlive, -⟩
    · rw [hlive]
      exact hmine
    · rw [hlive]
      intro x hx h hh o hlookup
      rcases List.mem_cons.mp hx with rfl | hx
      · cases hlast.symm.trans hh
        rw [hs.lookup, if_pos rfl] at hlookup
        exact (Option.some.inj hlookup).symm
      · exact hmine x hx h hh o hlookup
  case numbered =>
    rw [hs.handles, List.length_append]
    intro x hx
    rcases hs.slot with ⟨hlive, -⟩ | ⟨policy, -, hlive, -⟩ <;> rw [hlive] at hx
    · exact Nat.lt_add_right _ (ho.numbered x hx)
    · rcases List.mem_cons.mp hx with rfl | hx
      · exact Nat.lt_succ_self _
      · exact Nat.lt_add_right _ (ho.numbered x hx)
  case handed =>
    rw [hs.handed, Process.heap_congr hs.memory]
    exact ho.handed

/-- It owns the other handles still when it releases one, and its slot is cleared with its
binding. -/
theorem removes (ho : w.Owned) (hs : w.Removes n handle w') : w'.Owned := by
  have hsub : ∀ x ∈ w'.live, x ∈ w.live := by
    intro x hx
    rcases hs.slot with ⟨hlive, -⟩ | ⟨hlive, -⟩ <;> rw [hlive] at hx
    · exact hx
    · exact (List.mem_filter.mp hx).1
  constructor
  case issued =>
    rw [hs.registries]
    exact ho.issued.release _ _
  case given =>
    rw [hs.handles, hs.issued]
    exact ho.given
  case distinct =>
    rw [hs.handles]
    exact ho.distinct
  case slot =>
    rw [hs.handles]
    rcases hs.slot with ⟨hlive, hslot⟩ | ⟨hlive, hslot⟩ <;> rw [hlive, hslot]
    · exact ho.slot
    · by_cases hown : w.process.slot = handle.toPointer
      · exact .inl (if_pos hown)
      · rw [if_neg hown]
        rcases ho.slot with hnull | ⟨x, hx, h, hh, heq⟩
        · exact .inl hnull
        · refine .inr ⟨x, List.mem_filter.mpr ⟨hx, decide_eq_true ?_⟩, h, hh, heq⟩
          rintro rfl
          cases hs.own.symm.trans hh
          exact hown heq
  case live =>
    rw [hs.handles]
    intro x hx h hh o hlookup
    rw [hs.lookup] at hlookup
    split at hlookup
    · cases hlookup
    · exact ho.live x (hsub x hx) h hh o hlookup
  case numbered =>
    rw [hs.handles]
    exact fun x hx => ho.numbered x (hsub x hx)
  case handed =>
    rw [hs.handed, Process.heap_congr hs.memory]
    exact ho.handed

/-- Whatever else it does leaves it what it owns. -/
theorem stays (ho : w.Owned) (hs : w.Stays w') : w'.Owned := by
  constructor
  case issued =>
    rw [hs.registries]
    exact ho.issued
  case given =>
    rw [hs.handles, hs.issued]
    exact ho.given
  case distinct =>
    rw [hs.handles]
    exact ho.distinct
  case slot =>
    rw [hs.handles, hs.live]
    rcases hs.slot with hsame | hnull
    · rw [hsame]
      exact ho.slot
    · exact .inl hnull
  case live =>
    rw [hs.handles, hs.live]
    intro x hx h hh o hlookup
    rw [hs.lookup] at hlookup
    exact ho.live x hx h hh o hlookup
  case numbered =>
    rw [hs.handles, hs.live]
    exact ho.numbered
  case handed =>
    intro raw hraw
    rcases hs.handed raw hraw with hold | hnew
    · exact (ho.handed raw hold).mono hs.next
    · exact hnew

/-- A step keeps a worker to what it owns. -/
theorem step (ho : w.Owned) (op : WorkerOp) (hroom : (w.step op).issued ≤ Handle.room) :
    (w.step op).Owned := by
  rcases w.step_cases op with ⟨-, object, hs⟩ | ⟨n, handle, hs⟩ | hs
  · rw [hs.issued] at hroom
    exact ho.adds hroom hs
  · exact ho.removes hs
  · exact ho.stays hs

end Owned

theorem handed_congr {w' : Worker} (hhanded : w'.handed = w.handed)
    (hmemory : w'.process.memory = w.process.memory) : w'.outlook.handed = w.outlook.handed := by
  unfold outlook
  rw [hhanded, Process.heap_congr hmemory]

namespace Owned

theorem length_objects (w : Worker) : w.outlook.objects.length = w.handles.length :=
  List.length_map _

/-- Which handle stands in the slot does not change when another one is added. -/
theorem bound?_of_adds (ho : w.Owned) (hroom : w.issued < Handle.room) (hs : w.Adds object w')
    (hslot : w'.process.slot = w.process.slot) : w'.outlook.bound? = w.outlook.bound? := by
  unfold outlook
  simp only [hs.handles, hslot]
  refine slotAmong_append_of_ne fun hsame => ?_
  rcases ho.slot with hnull | ⟨x, -, h, hh, heq⟩
  · exact Handle.issue_ne_null hroom (hsame.trans hnull)
  · have hown := Handle.toPointer_inj.mp (hsame.trans heq)
    exact ho.ne_next hroom (hown ▸ List.mem_of_getElem? hh)

/-- The slot holds a handle exactly if the outlook says so. -/
theorem slot_eq_iff (ho : w.Owned) (hroom : w.issued ≤ Handle.room)
    (hn : w.handles[n]? = some handle) :
    w.process.slot = handle.toPointer ↔ w.outlook.bound? = some n := by
  constructor
  · intro hslot
    unfold outlook
    simp only [hslot]
    exact slotAmong_getElem ho.distinct hn
  · intro hbound
    rcases ho.slot_cases hroom with ⟨-, hnone⟩ | ⟨m, h, hh, -, hslot, hsome⟩
    · cases hnone.symm.trans hbound
    · cases hsome.symm.trans hbound
      cases hn.symm.trans hh
      exact hslot

theorem outlook_bind (ho : w.Owned) (policy : Policy)
    (hroom : (w.step (.bind policy)).issued ≤ Handle.room) :
    (w.step (.bind policy)).outlook = w.outlook.step (w.shown (.bind policy)) (.bind policy) := by
  have hisSome := ho.isBound_eq (Nat.le_trans (w.issued_le (.bind policy)) hroom)
  by_cases hfree : w.process.slot = 0
  · have hs := adds_bind policy hfree
    rw [hs.issued] at hroom
    have hnone : ¬ w.outlook.bound?.isSome = true := by
      rw [← hisSome]
      simp [Process.isBound, hfree]
    obtain ⟨q, hbinds, -, hstep⟩ := step_bind_of_free policy hfree
    rw [Outlook.step, if_neg hnone, length_objects]
    refine Outlook.ext (ho.objects_of_adds hroom hs) ?_ ?_ (handed_congr hs.handed hs.memory) ?_ <;>
      simp only [hstep, outlook, hbinds.slot]
    exact slotAmong_append_self (ho.ne_next hroom)
  · rw [step_bind_of_bound policy hfree]
    have hsome : w.outlook.bound?.isSome = true := by
      rw [← hisSome]
      simp [Process.isBound, hfree]
    rw [Outlook.step, if_pos hsome]
    rfl

theorem outlook_unbind (ho : w.Owned) (hroom : w.issued ≤ Handle.room) (n : Nat) :
    (w.step (.unbind n)).outlook = w.outlook.step (w.shown (.unbind n)) (.unbind n) := by
  rw [Outlook.step, length_objects]
  cases hn : w.handles[n]? with
  | none =>
      have hle := List.getElem?_eq_none_iff.mp hn
      rw [if_neg fun h => Nat.not_lt_of_le hle h.1]
      simp only [Worker.step, hn]
  | some handle =>
      obtain ⟨hlt, -⟩ := List.getElem?_eq_some_iff.mp hn
      by_cases hlive : n ∈ w.live.map Prod.fst
      · have hs := removes_unbind hn hlive
        have hstep : w.step (.unbind n) = { w with
            process := w.process.unbind ⟨handle⟩, live := w.live.filter (·.1 ≠ n) } := by
          simp only [Worker.step, hn, if_pos hlive]
        have hobjects := ho.objects_of_removes hs
        have hhanded := handed_congr hs.handed hs.memory
        rw [hstep] at hobjects hhanded ⊢
        rw [if_pos ⟨hlt, hlive⟩]
        refine Outlook.ext hobjects ?_ rfl hhanded rfl
        change slotAmong w.handles (w.process.unbind ⟨handle⟩).slot =
          if w.outlook.bound? = some n then none else w.outlook.bound?
        rw [Process.slot_unbind]
        by_cases hown : w.process.slot = handle.toPointer
        · rw [if_pos hown, if_pos ((ho.slot_eq_iff hroom hn).mp hown)]
          exact slotAmong_null (ho.ne_null hroom)
        · rw [if_neg hown, if_neg (mt (ho.slot_eq_iff hroom hn).mpr hown)]
          rfl
      · rw [if_neg fun h => hlive h.2]
        simp only [Worker.step, hn, if_neg hlive]

theorem outlook_register (ho : w.Owned) (object : Object) (hroom : w.issued < Handle.room) :
    (w.step (.register object)).outlook =
      w.outlook.step (w.shown (.register object)) (.register object) := by
  have hs := w.adds_register object
  exact Outlook.ext (ho.objects_of_adds hroom hs) (ho.bound?_of_adds hroom hs rfl) rfl rfl rfl

/-- What a release gives is what was registered. -/
theorem toOption_releaseHandle (p : Process) (r : RegistryId) (h : Handle) :
    (p.releaseHandle r h).1.toOption = p.lookup? r h := by
  unfold Process.releaseHandle Registries.release Process.lookup?
  cases p.registries.lookup? r h <;> rfl

theorem outlook_release (ho : w.Owned) (n : Nat) :
    (w.step (.release n)).outlook = w.outlook.step (w.shown (.release n)) (.release n) := by
  have hobject : w.outlook.objects[n]? = w.handles[n]?.map (w.process.lookup? globalRegistry) :=
    List.getElem?_map
  rw [Outlook.step, hobject]
  cases hn : w.handles[n]? with
  | none => simp only [Worker.step, hn, Option.map_none]
  | some handle =>
      have hs := removes_release hn
      refine Outlook.ext (ho.objects_of_removes hs) ?_ ?_ (handed_congr hs.handed hs.memory) ?_ <;>
        simp only [Worker.step, hn, outlook, Process.slot_releaseHandle, toOption_releaseHandle,
          Option.map_some]

theorem outlook_call (ho : w.Owned) (granted : Option Nat) (c : WorkerCall) :
    (w.step (.call granted c)).outlook =
      w.outlook.step (w.shown (.call granted c)) (.call granted c) := by
  have hs := w.stays_call granted c
  have hbeside := (w.resolve c).beside (w.process.granting granted)
  refine Outlook.ext (objects_of_stays hs) (congrArg (slotAmong w.handles) hbeside.slot) rfl ?_ rfl
  -- the buffers from before are in blocks from before
  have hold : ∀ raw ∈ w.handed,
      raw.bytes (w.step (.call granted c)).process.heap = raw.bytes w.process.heap :=
    fun raw hraw => (ho.handed raw hraw).bytes_congr hs.kept
  change (w.handed ++ _).map _ = w.handed.map _ ++ List.filterMap id (List.map _ _)
  rw [List.map_append, List.map_congr_left hold, List.map_filterMap, List.filterMap_map]
  rfl

end Owned

/-- What a step does to the outlook of a worker. -/
theorem Owned.outlook_step (ho : w.Owned) (op : WorkerOp)
    (hroom : (w.step op).issued ≤ Handle.room) :
    (w.step op).outlook = w.outlook.step (w.shown op) op := by
  have hbefore := Nat.le_trans (w.issued_le op) hroom
  cases op with
  | bind policy => exact ho.outlook_bind policy hroom
  | unbind n => exact ho.outlook_unbind hbefore n
  | clearSlot => exact Outlook.ext rfl (slotAmong_null (ho.ne_null hbefore)) rfl rfl rfl
  | look =>
      refine Outlook.ext rfl rfl rfl rfl ?_
      change Observation.looked _ _ :: w.seen = _
      rw [ho.isBound_eq hbefore, ho.currentPolicy_eq hbefore]
      rfl
  | register object => exact ho.outlook_register object hroom
  | release n => exact ho.outlook_release n
  | call granted c => exact ho.outlook_call granted c

/-- Workers with the same outlook keep the same one, whatever else is in their processes. -/
theorem outlook_step_congr (ho : w.Owned) (ho' : w'.Owned) (hsame : w'.outlook = w.outlook)
    (op : WorkerOp) (hroom : (w.step op).issued ≤ Handle.room)
    (hroom' : (w'.step op).issued ≤ Handle.room) :
    (w'.step op).outlook = (w.step op).outlook := by
  have hbefore := Nat.le_trans (w.issued_le op) hroom
  have hbefore' := Nat.le_trans (w'.issued_le op) hroom'
  rw [ho.outlook_step op hroom, ho'.outlook_step op hroom', hsame,
    shown_congr ho ho' hbefore hbefore' hsame op]

end Worker

end NativeBoundary

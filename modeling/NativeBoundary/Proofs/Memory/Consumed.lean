import Mathlib.Data.List.TakeWhile
import NativeBoundary.Proofs.Memory.Frees

/-!
# What consuming a raw value releases

A raw buffer or batch that comes back from native code is consumed in one of several ways: it is
copied out and released, or released without a copy, or taken over and released later.  This file
compares them, by what the trace of the heap says since: which blocks were to be freed
(`Heap.releasedSince`), and what a block held when it was freed (`Heap.lastSince`).

**Buffers.**  Copying a buffer out leaves an empty one alone; releasing it without a copy looks at
its pointer only.  So the two release the same blocks, except for a buffer that leads to a block and
whose size is not positive (`RawBuffer.consumed_alike_iff`).

**Batches.**  The lengths of a batch are read one by one.  `RawBatch.known` is what they add up to
before the first negative one, which is all that can be known of the data.  An accepted batch has
these bytes wiped before its data are freed, at once or later.  A rejected batch is freed as it
stands (`RawBatch.clear_when_freed_iff`).
-/

namespace NativeBoundary

namespace HeapEvent

/-- The block that was to be freed, live or not. -/
def target? : HeapEvent → Option BlockId
  | freed id _ _ | misfreed id => some id
  | allocated _ _ | refused _ => none

/-- What the block `id` held, if it was freed. -/
def last? (id : BlockId) : HeapEvent → Option Block
  | freed j last _ => if j = id then some last else none
  | _ => none

end HeapEvent

namespace Heap

variable {h h' h'' : Heap} {id j : BlockId} {b : Block}

/-- What happened since an earlier heap, latest first. -/
def since (h' h : Heap) : List HeapEvent := h'.trace.take (h'.trace.length - h.trace.length)

/-- The blocks that were to be freed since. -/
def releasedSince (h' h : Heap) : List BlockId := (h'.since h).filterMap HeapEvent.target?

/-- What a block held when it was freed since. -/
def lastSince (h' h : Heap) (id : BlockId) : List Block :=
  (h'.since h).filterMap (HeapEvent.last? id)

/-- A block was freed, once, and its first `n` bytes were zero. -/
def ClearWhenFreed (h h' : Heap) (id : BlockId) (n : Nat) : Prop :=
  ∃ last, h'.lastSince h id = [last] ∧ last.Clear n

theorem since_eq {events : List HeapEvent} (ht : h'.trace = events ++ h.trace) :
    h'.since h = events := by
  unfold since
  rw [ht, List.length_append, Nat.add_sub_cancel, List.take_left]

@[simp] theorem since_self (h : Heap) : h.since h = [] := since_eq rfl

@[simp] theorem releasedSince_self (h : Heap) : h.releasedSince h = [] := by
  rw [releasedSince, since_self, List.filterMap_nil]

theorem clearWhenFreed_iff {n : Nat} (hlast : h'.lastSince h id = [b]) :
    h.ClearWhenFreed h' id n ↔ b.Clear n := by
  unfold ClearWhenFreed
  rw [hlast]
  constructor
  · rintro ⟨last, heq, hclear⟩
    cases heq
    exact hclear
  · intro hclear
    exact ⟨b, rfl, hclear⟩

/-- A free is recorded as one event, and for a live block with what it held. -/
theorem trace_free (h : Heap) (id : BlockId) (holding : Holding) :
    ∃ event, (h.free id holding).trace = event :: h.trace ∧ event.target? = some id ∧
      event.last? id = h.block? id ∧ ∀ j, j ≠ id → event.last? j = none := by
  cases hb : h.block? id with
  | none => exact ⟨.misfreed id, trace_free_of_dead holding hb, rfl, rfl, fun _ _ => rfl⟩
  | some last =>
      refine ⟨.freed id last holding, trace_free_of_live holding hb, rfl, ?_, fun j hj => ?_⟩
      · simp [HeapEvent.last?]
      · simp [HeapEvent.last?, Ne.symm hj]

theorem releasedSince_free (h : Heap) (id : BlockId) (holding : Holding) :
    (h.free id holding).releasedSince h = [id] := by
  obtain ⟨event, ht, htarget, -⟩ := h.trace_free id holding
  have hone : (h.free id holding).since h = [event] := since_eq ht
  rw [releasedSince, hone, List.filterMap_cons, htarget, List.filterMap_nil]

theorem lastSince_free (hb : h.block? id = some b) (holding : Holding) :
    (h.free id holding).lastSince h id = [b] := by
  obtain ⟨event, ht, -, hlast, -⟩ := h.trace_free id holding
  have hone : (h.free id holding).since h = [event] := since_eq ht
  rw [lastSince, hone, List.filterMap_cons, hlast, hb, List.filterMap_nil]

/-- A release is one free; wiping is not recorded. -/
theorem releasedSince_release (h : Heap) (id : BlockId) (length : Nat) (wiped : Bool) :
    (h.release id length wiped).releasedSince h = [id] := by
  cases wiped with
  | false => exact h.releasedSince_free id _
  | true => exact (h.wipe id 0 length).releasedSince_free id _

/-- A block that is released to be wiped is clear when it is freed. -/
theorem lastSince_release (hb : h.block? id = some b) (length : Nat) :
    (h.release id length true).lastSince h id = [b.wipe 0 length] := by
  have hwiped : (h.wipe id 0 length).block? id = some (b.wipe 0 length) := by
    rw [wipe, block?_update, if_pos rfl, hb]
    rfl
  exact lastSince_free hwiped (.payload length true)

theorem suffix_release (h : Heap) (id : BlockId) (length : Nat) (wiped : Bool) :
    h.trace <:+ (h.release id length wiped).trace := by
  cases wiped with
  | false =>
      obtain ⟨event, ht, -⟩ := h.trace_free id (.payload length false)
      exact ⟨[event], ht.symm⟩
  | true =>
      obtain ⟨event, ht, -⟩ := (h.wipe id 0 length).trace_free id (.payload length true)
      exact ⟨[event], ht.symm⟩

/-- Whatever is freed after a block is gone says nothing of that block. -/
theorem lastSince_free_after (hsuffix : h.trace <:+ h'.trace) (hgone : h'.block? id = none)
    (j : BlockId) (holding : Holding) :
    (h'.free j holding).lastSince h id = h'.lastSince h id := by
  obtain ⟨events, hevents⟩ := hsuffix
  obtain ⟨event, ht, -, hself, hother⟩ := h'.trace_free j holding
  have hnone : event.last? id = none := by
    by_cases hj : id = j
    · subst hj
      rw [hself, hgone]
    · exact hother id hj
  have htrace : (h'.free j holding).trace = (event :: events) ++ h.trace := by
    rw [ht, ← hevents, List.cons_append]
  rw [lastSince, lastSince, since_eq htrace, since_eq hevents.symm, List.filterMap_cons, hnone]

end Heap

theorem OwnedBuffer.releasedSince_drop (b : OwnedBuffer) (h : Heap) :
    (b.drop h).releasedSince h = b.block?.toList := by
  unfold drop
  cases b.block? with
  | none => exact h.releasedSince_self
  | some id => exact h.releasedSince_release id b.length b.mustWipe

namespace RawBuffer

variable {raw : RawBuffer} {h : Heap}

theorem releasedSince_discard (raw : RawBuffer) (h : Heap) :
    (raw.discard h).releasedSince h = raw.data.block?.toList := by
  unfold discard
  rw [OwnedBuffer.releasedSince_drop, OwnedBuffer.block?_adopt]

theorem take_of_isEmpty (hempty : raw.isEmpty = true) : raw.take h = ([], h) := by
  unfold take
  rw [if_pos hempty]

theorem heap_take_of_not_isEmpty (hbytes : raw.isEmpty = false) :
    (raw.take h).2 = raw.discard h := by
  unfold take discard
  rw [if_neg (by rw [hbytes]; exact Bool.false_ne_true)]

/-- A buffer that leads to a block is empty by its size alone. -/
theorem isEmpty_iff_of_block {id : BlockId} (hblock : raw.data.block? = some id) :
    raw.isEmpty = true ↔ raw.size ≤ 0 := by
  unfold isEmpty
  cases hdata : raw.data with
  | null =>
      rw [hdata] at hblock
      cases hblock
  | native block offset => simp [Pointer.isNull]
  | host bytes => simp [Pointer.isNull]

/-- Copying out and discarding release the same blocks exactly when the buffer does not lead to a
block with a size that is not positive.  Copying out leaves every empty buffer alone, and of a
buffer that carries bytes both free the block and leave the same heap. -/
theorem consumed_alike_iff (raw : RawBuffer) (h : Heap) :
    (raw.isEmpty = true → raw.take h = ([], h)) ∧
    (raw.isEmpty = false → (raw.take h).2 = raw.discard h) ∧
    (raw.discard h).releasedSince h = raw.data.block?.toList ∧
    ((raw.take h).2.releasedSince h = (raw.discard h).releasedSince h ↔
      ¬ (raw.data.block?.isSome ∧ raw.size ≤ 0)) := by
  refine ⟨take_of_isEmpty, heap_take_of_not_isEmpty, raw.releasedSince_discard h, ?_⟩
  rw [releasedSince_discard]
  cases hblock : raw.data.block? with
  | none =>
      have htake : (raw.take h).2.releasedSince h = [] := by
        cases hempty : raw.isEmpty with
        | true => rw [take_of_isEmpty hempty, Heap.releasedSince_self]
        | false => rw [heap_take_of_not_isEmpty hempty, releasedSince_discard, hblock]; rfl
      simp [htake]
  | some id =>
      cases hempty : raw.isEmpty with
      | true =>
          have hsize := (isEmpty_iff_of_block hblock).mp hempty
          rw [take_of_isEmpty hempty, Heap.releasedSince_self]
          simp [hsize]
      | false =>
          have hsize : ¬ raw.size ≤ 0 := by
            rw [← isEmpty_iff_of_block hblock, hempty]
            exact Bool.false_ne_true
          rw [heap_take_of_not_isEmpty hempty, releasedSince_discard, hblock]
          simp [hsize]

/-- Discarding a buffer of no bytes frees the block that it leads to. -/
theorem discard_releases_empty :
    ¬ ∀ (raw : RawBuffer) (h : Heap) (id : BlockId),
      id ∈ (raw.discard h).releasedSince h ↔
        raw.isEmpty = false ∧ raw.data.block? = some id := by
  intro hall
  have hone := hall ⟨.native 0 0, 0⟩ (({} : Heap).allocate 1).2 0
  exact absurd (hone.mp (by decide)).1 (by decide)

end RawBuffer

namespace RawBatch

/-- The lengths in the size table of a batch. -/
def lengths (raw : RawBatch) (h : Heap) : List Int32 :=
  Bytes.toInt32s (raw.sizes.read h (4 * raw.length))

/-- What the lengths before the first negative one add up to. -/
def known (raw : RawBatch) (h : Heap) : Nat :=
  totalOf (((raw.lengths h).takeWhile (0 ≤ ·)).map fun n => n.toInt.toNat)

/-- Every length is a length. -/
def Measured (raw : RawBatch) (h : Heap) : Prop := ∀ n ∈ raw.lengths h, 0 ≤ n

end RawBatch

namespace OwnedBatch

variable {raw : RawBatch} {h h' : Heap} {id : BlockId} {b : Block}

theorem lastSince_dropSizes (owner : OwnedBatch) (hsuffix : h.trace <:+ h'.trace)
    (hgone : h'.block? id = none) :
    (owner.dropSizes h').lastSince h id = h'.lastSince h id := by
  unfold dropSizes
  split
  · exact Heap.lastSince_free_after hsuffix hgone _ _
  · rfl

/-- The data of a secret batch are wiped as far as the batch goes. -/
theorem lastSince_drop {owner : OwnedBatch} (hdata : owner.data? = some id)
    (hsecret : owner.secrecy = .secret) (hb : h.block? id = some b) :
    (owner.drop h).lastSince h id = [b.wipe 0 owner.total] := by
  unfold drop
  rw [hdata, hsecret]
  simp only [decide_true]
  have hgone : (h.release id owner.total true).block? id = none := by
    rw [Heap.block?_release, if_pos rfl]
  rw [lastSince_dropSizes owner (h.suffix_release id owner.total true) hgone,
    Heap.lastSince_release hb]

/-- The data of a rejected batch are freed as they stand. -/
theorem lastSince_reject (hdata : raw.data = .native id 0) (hb : h.block? id = some b) :
    (freeRejected raw.sizes (freeRejected raw.data h)).lastSince h id = [b] := by
  have hfree : freeRejected raw.data h = h.free id .rejected := by
    rw [hdata]
    rfl
  obtain ⟨event, ht, -⟩ := h.trace_free id .rejected
  have hgone : (h.free id .rejected).block? id = none := by
    rw [Heap.block?_free, if_pos rfl]
  rw [hfree]
  unfold freeRejected
  split
  · rw [Heap.lastSince_free_after ⟨[event], ht.symm⟩ hgone, Heap.lastSince_free hb]
  · exact Heap.lastSince_free hb .rejected

end OwnedBatch

namespace RawBatch

variable {raw : RawBatch} {h : Heap} {id : BlockId} {b : Block}

/-- A batch of no byte strings has no lengths. -/
theorem lengths_eq_nil (hlength : raw.length = 0) (h : Heap) : raw.lengths h = [] := by
  rw [lengths, hlength, Nat.mul_zero, Pointer.read_zero]
  rfl

theorem known_eq_zero (hlength : raw.length = 0) (h : Heap) : raw.known h = 0 := by
  rw [known, lengths_eq_nil hlength h]
  rfl

/-- If every length is a length, all of them are known. -/
theorem known_of_measured (hmeasured : raw.Measured h) :
    raw.known h = totalOf ((raw.lengths h).map fun n => n.toInt.toNat) := by
  unfold known
  rw [List.takeWhile_eq_self_iff.mpr fun n hn => decide_eq_true (hmeasured n hn)]

theorem measured_iff : raw.Measured h ↔ (raw.lengths h).any (· < 0) = false := by
  rw [List.any_eq_false]
  unfold Measured
  simp only [decide_eq_true_eq, Int32.not_lt]

/-- An accepted batch has lengths only, and its total is all that is known. -/
theorem measured_of_inspect {total : Nat} (hok : OwnedBatch.inspect raw h = .ok total) :
    raw.Measured h ∧ total = raw.known h := by
  unfold OwnedBatch.inspect at hok
  split at hok
  · cases hok
  · split at hok
    · rename_i hzero
      cases hok
      have hlength : raw.length = 0 := by
        rw [length, hzero]
        rfl
      refine ⟨fun n hn => ?_, (known_eq_zero hlength h).symm⟩
      rw [lengths_eq_nil hlength h] at hn
      cases hn
    · split at hok
      · cases hok
      · simp only at hok
        split at hok
        · cases hok
        · rename_i hany
          have hmeasured : raw.Measured h := measured_iff.mpr (eq_false_of_ne_true hany)
          split at hok
          · cases hok
          · cases hok
            exact ⟨hmeasured, (known_of_measured hmeasured).symm⟩

/-- A batch that has both tables is rejected for its count, and then nothing is known of its data,
or for a length. -/
theorem not_measured_of_inspect {reason : Malformation} (hdata : raw.data.isNull = false)
    (hsizes : raw.sizes.isNull = false) (herror : OwnedBatch.inspect raw h = .error reason) :
    raw.known h = 0 ∨ ¬ raw.Measured h := by
  unfold OwnedBatch.inspect at herror
  split at herror
  · rename_i hnegative
    refine .inl (known_eq_zero ?_ h)
    rw [Int32.lt_iff_toInt_lt, Int32.toInt_zero] at hnegative
    unfold length
    omega
  · rw [hsizes, hdata] at herror
    split at herror
    · cases herror
    · simp only [Bool.false_eq_true, if_false, Bool.and_false] at herror
      split at herror
      · rename_i hany
        refine .inr fun hmeasured => ?_
        exact absurd ((measured_iff.mp hmeasured).symm.trans hany) Bool.false_ne_true
      · cases herror

/-- The owner of an accepted batch wipes all that is known of its data, whenever it is dropped. -/
theorem clear_of_adopted {owner : OwnedBatch} {h' later : Heap} (hdata : raw.data = .native id 0)
    (hadopt : OwnedBatch.adopt raw h = (.ok owner, h')) (hb : later.block? id = some b) :
    later.ClearWhenFreed (owner.drop later) id (raw.known h) := by
  obtain ⟨-, hinspect, howner⟩ := OwnedBatch.adopt_eq hadopt
  obtain ⟨-, htotal⟩ := measured_of_inspect hinspect
  have hblock : owner.data? = some id := by
    rw [howner, hdata]
    rfl
  have hsecret : owner.secrecy = .secret := by rw [howner]
  rw [← htotal, Heap.clearWhenFreed_iff (OwnedBatch.lastSince_drop hblock hsecret hb)]
  exact b.clear_wipe owner.total

/-- A rejected batch frees its data as they stand. -/
theorem clear_of_rejected {reason : Malformation} {h' : Heap} (hdata : raw.data = .native id 0)
    (hadopt : OwnedBatch.adopt raw h = (.error reason, h')) (hb : h.block? id = some b) (n : Nat) :
    h.ClearWhenFreed h' id n ↔ b.Clear n := by
  obtain ⟨-, rfl⟩ := OwnedBatch.adopt_error hadopt
  exact Heap.clearWhenFreed_iff (OwnedBatch.lastSince_reject hdata hb)

/-- Discarding a batch leaves its data clear exactly when it holds lengths only, or the data were
clear before. -/
theorem clear_discard_iff (hdata : raw.data = .native id 0) (hsizes : raw.sizes.isNull = false)
    (hb : h.block? id = some b) :
    h.ClearWhenFreed (raw.discard h).2 id (raw.known h) ↔
      raw.Measured h ∨ b.Clear (raw.known h) := by
  unfold discard
  split <;> rename_i hadopt
  · obtain ⟨rfl, hinspect, -⟩ := OwnedBatch.adopt_eq hadopt
    have hmeasured := (measured_of_inspect hinspect).1
    exact iff_of_true (clear_of_adopted hdata hadopt hb) (.inl hmeasured)
  · rename_i reason h'
    rw [clear_of_rejected hdata hadopt hb]
    have hinspect := (OwnedBatch.adopt_error hadopt).1
    have hnull : raw.data.isNull = false := by
      rw [hdata]
      rfl
    rcases not_measured_of_inspect hnull hsizes hinspect with hnone | hnot
    · -- nothing is known, so nothing has to be wiped
      have hclear : b.Clear (raw.known h) := by
        rw [hnone]
        exact fun i hi => absurd hi (Nat.not_lt_zero i)
      exact iff_of_true hclear (.inr hclear)
    · exact (or_iff_right hnot).symm

/-- However a batch with both tables is consumed, its data are freed clear of what is known of them
exactly when every length is a length, or when they were clear already: accepted data are wiped,
even if their owner is dropped much later, and rejected data are freed as they stand. -/
theorem clear_when_freed_iff (hdata : raw.data = .native id 0) (hsizes : raw.sizes.isNull = false)
    (hb : h.block? id = some b) :
    (h.ClearWhenFreed (raw.discard h).2 id (raw.known h) ↔
      raw.Measured h ∨ b.Clear (raw.known h)) ∧
    (h.ClearWhenFreed (raw.take h).2 id (raw.known h) ↔
      raw.Measured h ∨ b.Clear (raw.known h)) ∧
    (∀ owner h', OwnedBatch.adopt raw h = (.ok owner, h') →
      ∀ (later : Heap) held, later.block? id = some held →
        later.ClearWhenFreed (owner.drop later) id (raw.known h)) ∧
    (∀ reason h', OwnedBatch.adopt raw h = (.error reason, h') →
      (h.ClearWhenFreed h' id (raw.known h) ↔ b.Clear (raw.known h))) := by
  have hdiscard := clear_discard_iff hdata hsizes hb
  have htake : (raw.take h).2 = (raw.discard h).2 := Memory.heap_take_eq_discard raw h
  refine ⟨hdiscard, ?_, fun owner h' hadopt later held hheld => ?_, fun reason h' hadopt => ?_⟩
  · rw [htake]
    exact hdiscard
  · exact clear_of_adopted hdata hadopt hheld
  · exact clear_of_rejected hdata hadopt hb _

/-- A heap with a data block of two bytes and the size table `[2, -1]`. -/
def misshapenHeap : Heap :=
  ((({} : Heap).request ⟨2, [1, 2]⟩).2.request ⟨8, Bytes.ofInt32 2 ++ Bytes.ofInt32 (-1)⟩).2

/-- The batch with these tables; its second length is negative. -/
def misshapen : RawBatch := ⟨.native 0 0, .native 1 0, 2⟩

theorem clear_when_freed_iff_misshapen :
    misshapen.data = .native 0 0 ∧ misshapen.sizes.isNull = false ∧
      misshapenHeap.block? 0 = some ⟨2, [1, 2]⟩ ∧
      (misshapenHeap.ClearWhenFreed (misshapen.discard misshapenHeap).2 0
          (misshapen.known misshapenHeap) ↔
        misshapen.Measured misshapenHeap ∨
          (⟨2, [1, 2]⟩ : Block).Clear (misshapen.known misshapenHeap)) :=
  ⟨rfl, rfl, by decide, (clear_when_freed_iff (show misshapen.data = .native 0 0 from rfl) rfl
    (show misshapenHeap.block? 0 = some ⟨2, [1, 2]⟩ by decide)).1⟩

/-- What is known of the data of a rejected batch is not wiped. -/
theorem rejected_not_wiped :
    ¬ ∀ (raw : RawBatch) (h : Heap) (id : BlockId) (b : Block), raw.data = .native id 0 →
      raw.sizes.isNull = false → h.block? id = some b → raw.known h ≤ b.size →
      h.ClearWhenFreed (raw.discard h).2 id (raw.known h) := by
  intro hall
  obtain ⟨last, hlast, hclear⟩ := hall misshapen misshapenHeap 0 ⟨2, [1, 2]⟩ rfl rfl (by decide)
    (by decide)
  have hheld : (misshapen.discard misshapenHeap).2.lastSince misshapenHeap 0 = [⟨2, [1, 2]⟩] := by
    decide
  rw [hheld] at hlast
  cases hlast
  exact absurd (hclear 0 (by decide)) (by decide)

end RawBatch

end NativeBoundary

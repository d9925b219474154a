import NativeBoundary.Memory.Batch

/-!
# Conservation of native blocks

Every number that the allocator has given out stands for a block that is live, or for one that
was freed exactly once; and nothing was ever freed that was not live.  This file states that law
as `Heap.Sound` and shows that each primitive of the heap keeps it, together with what the
primitive does to the count of live blocks:

* `Heap.liveCount_request` — a granted request makes one block live;
* `Heap.liveCount_update` — reading, writing and wiping make and free nothing;
* `Heap.liveCount_free` — freeing a live block takes away that block and no other.

Freeing is the only primitive with a condition: the block has to be live.  Who may rely on that
condition is the subject of the ledgers built on this file.

A stretch of work on the heap is summed up as `Heap.Change`: the blocks it freed and the blocks
it left behind.  Changes compose, and `OwnedBuffer` and `OwnedBatch` are described by them here,
operation by operation.
-/

namespace NativeBoundary

/-- The block that an event frees. -/
def HeapEvent.freed? : HeapEvent → Option BlockId
  | freed id _ _ => some id
  | _ => none

namespace Heap

/-- How often a block is live: once, or not at all. -/
def liveCount (h : Heap) (id : BlockId) : Nat := if (h.block? id).isSome then 1 else 0

/-- The blocks that were freed, latest first. -/
def freed (h : Heap) : List BlockId := h.trace.filterMap HeapEvent.freed?

/-- The conservation law.  A block number below the next one is live or was freed once, a number
that was not given out yet is neither, and no free ever missed. -/
structure Sound (h : Heap) : Prop where
  balance : ∀ id, h.liveCount id + h.freed.count id = if id < h.next then 1 else 0
  proper : ∀ id, .misfreed id ∉ h.trace

variable {h h' : Heap} {id : BlockId}

/-- A new heap has nothing to account for. -/
theorem sound_empty : Sound {} where
  balance := by intro id; rfl
  proper := by intro id hm; cases hm

theorem liveCount_pos_iff : 0 < h.liveCount id ↔ (h.block? id).isSome := by
  unfold liveCount
  split <;> simp_all

theorem liveCount_le_one (h : Heap) (id : BlockId) : h.liveCount id ≤ 1 := by
  unfold liveCount
  split <;> omega

/-- A live block carries a number that was given out. -/
theorem Sound.lt_next (hs : h.Sound) (hl : (h.block? id).isSome) : id < h.next := by
  have hb := hs.balance id
  have hpos := liveCount_pos_iff.mpr hl
  by_cases hid : id < h.next
  · exact hid
  · rw [if_neg hid] at hb
    omega

/-- No block is live and freed. -/
theorem Sound.not_live_of_freed (hs : h.Sound) (hf : id ∈ h.freed) : h.liveCount id = 0 := by
  have hb := hs.balance id
  have hpos : 0 < h.freed.count id := List.count_pos_iff.mpr hf
  split at hb <;> omega

/-- A granted request gives out the next number and says so in the trace. -/
theorem request_granted {content : Block} (hr : h.request content = (some id, h')) :
    id = h.next ∧ h'.next = h.next + 1 ∧
      h'.trace = .allocated id content.size :: h.trace := by
  unfold request at hr
  repeat' split at hr
  all_goals cases hr
  exact ⟨rfl, rfl, rfl⟩

/-- A refused request gives out no number. -/
theorem request_refused {content : Block} (hr : h.request content = (none, h')) :
    h'.next = h.next ∧ h'.trace = .refused content.size :: h.trace := by
  unfold request at hr
  repeat' split at hr
  all_goals cases hr
  all_goals exact ⟨rfl, rfl⟩

/-- A granted request makes one block live, and only that one. -/
theorem liveCount_request {content : Block} (hs : h.Sound)
    (hr : h.request content = (some id, h')) (j : BlockId) :
    h'.liveCount j = h.liveCount j + [id].count j := by
  obtain ⟨hid, -, -⟩ := request_granted hr
  have hfresh : h.block? id = none := by
    cases hb : h.block? id with
    | none => rfl
    | some b =>
        have hlt : id < h.next := hs.lt_next (by simp [hb])
        exact absurd (hid ▸ hlt) (Nat.lt_irrefl _)
  unfold liveCount
  rw [block?_request hr j]
  by_cases hj : j = id
  · subst hj
    simp [hfresh]
  · have hne : id ≠ j := fun e => hj e.symm
    simp [hj, hne]

/-- A refused request changes no block. -/
theorem liveCount_request_refused {content : Block} (hr : h.request content = (none, h'))
    (j : BlockId) : h'.liveCount j = h.liveCount j := by
  unfold liveCount
  rw [block?_request_none hr j]

/-- A request frees nothing. -/
theorem freed_request {content : Block} {answer : Option BlockId}
    (hr : h.request content = (answer, h')) : h'.freed = h.freed := by
  unfold freed
  cases answer with
  | none => rw [(request_refused hr).2, List.filterMap_cons]; rfl
  | some id => rw [(request_granted hr).2.2, List.filterMap_cons]; rfl

/-- Requests keep the conservation law, granted or not. -/
theorem Sound.request {content : Block} {answer : Option BlockId} (hs : h.Sound)
    (hr : h.request content = (answer, h')) : h'.Sound := by
  constructor
  · intro j
    have hb := hs.balance j
    rw [freed_request hr]
    cases answer with
    | none => rw [liveCount_request_refused hr j, (request_refused hr).1, hb]
    | some id =>
        obtain ⟨hid, hnext, -⟩ := request_granted hr
        rw [liveCount_request hs hr j, hnext, List.count_singleton]
        grind
  · intro j hm
    cases answer with
    | none =>
        rw [(request_refused hr).2] at hm
        exact hs.proper j (by simpa using hm)
    | some id =>
        rw [(request_granted hr).2.2] at hm
        exact hs.proper j (by simpa using hm)

@[simp] theorem liveCount_update (h : Heap) (id j : BlockId) (f : Block → Block) :
    (h.update id f).liveCount j = h.liveCount j := by
  unfold liveCount
  rw [block?_update]
  split <;> simp

/-- Changing what a block holds keeps the conservation law. -/
theorem Sound.update (hs : h.Sound) (id : BlockId) (f : Block → Block) :
    (h.update id f).Sound where
  balance := by
    intro j
    rw [liveCount_update]
    exact hs.balance j
  proper := hs.proper

/-- Freeing a live block takes away that block and no other. -/
theorem liveCount_free (hl : (h.block? id).isSome) (holding : Holding) (j : BlockId) :
    (h.free id holding).liveCount j + [id].count j = h.liveCount j := by
  unfold liveCount
  rw [block?_free]
  by_cases hj : j = id
  · subst hj
    simp [hl]
  · have hne : id ≠ j := fun e => hj e.symm
    simp [hj, hne]

/-- Freeing a live block is recorded as such. -/
theorem freed_free (hl : (h.block? id).isSome) (holding : Holding) :
    (h.free id holding).freed = id :: h.freed := by
  obtain ⟨last, hb⟩ := Option.isSome_iff_exists.mp hl
  simp [freed, trace_free_of_live holding hb, HeapEvent.freed?]

@[simp] theorem next_free (h : Heap) (id : BlockId) (holding : Holding) :
    (h.free id holding).next = h.next := by
  unfold free
  split <;> rfl

/-- Freeing a live block keeps the conservation law. -/
theorem Sound.free (hs : h.Sound) (hl : (h.block? id).isSome) (holding : Holding) :
    (h.free id holding).Sound := by
  constructor
  · intro j
    have hb := hs.balance j
    have hc := liveCount_free hl holding j
    rw [freed_free hl, next_free, List.count_cons]
    simp only [List.count_cons, List.count_nil] at hc
    omega
  · intro j hm
    obtain ⟨last, hb⟩ := Option.isSome_iff_exists.mp hl
    rw [trace_free_of_live holding hb] at hm
    exact hs.proper j (by simpa using hm)

/-- A released block is no longer live; every other block is as it was. -/
theorem block?_release (h : Heap) (id j : BlockId) (length : Nat) (wiped : Bool) :
    (h.release id length wiped).block? j = if j = id then none else h.block? j := by
  unfold release
  rw [block?_free]
  by_cases hj : j = id
  · rw [if_pos hj, if_pos hj]
  · rw [if_neg hj, if_neg hj]
    split
    · rw [wipe, block?_update, if_neg hj]
    · rfl

@[simp] theorem next_release (h : Heap) (id : BlockId) (length : Nat) (wiped : Bool) :
    (h.release id length wiped).next = h.next := by
  unfold release
  rw [next_free]
  split <;> rfl

theorem live_nodup (h : Heap) : h.live.Nodup := List.nodup_range.filter _

theorem mem_live_iff : id ∈ h.live ↔ id < h.next ∧ (h.block? id).isSome := by
  unfold live
  rw [List.mem_filter, List.mem_range]
  rfl

/-- A block that was made comes last. -/
theorem live_request {content : Block} (hr : h.request content = (some id, h')) :
    h'.live = h.live ++ [id] := by
  unfold request at hr
  repeat' split at hr
  all_goals cases hr
  unfold live
  rw [List.range_succ, List.filter_append]
  congr 1
  · refine List.filter_congr fun j hj => ?_
    have hne : j ≠ h.next := Nat.ne_of_lt (List.mem_range.mp hj)
    simp [Table.contains, Table.get?_insert_of_ne _ _ hne]
  · simp [Table.contains]

theorem live_refused {content : Block} (hr : h.request content = (none, h')) :
    h'.live = h.live := by
  unfold request at hr
  repeat' split at hr
  all_goals cases hr
  all_goals rfl

@[simp] theorem live_update (h : Heap) (id : BlockId) (f : Block → Block) :
    (h.update id f).live = h.live := by
  refine List.filter_congr fun j _ => ?_
  change ((h.update id f).block? j).isSome = (h.block? j).isSome
  rw [block?_update]
  split <;> simp

/-- A block that is freed is taken out. -/
theorem live_free (h : Heap) (id : BlockId) (holding : Holding) :
    (h.free id holding).live = h.live.filter (· ≠ id) := by
  unfold live
  rw [next_free, List.filter_filter]
  refine List.filter_congr fun j _ => ?_
  change ((h.free id holding).block? j).isSome = _
  rw [block?_free]
  by_cases hj : j = id
  · simp [hj]
  · simp [hj, block?, Table.contains]

theorem live_release (h : Heap) (id : BlockId) (length : Nat) (wiped : Bool) :
    (h.release id length wiped).live = h.live.filter (· ≠ id) := by
  unfold release
  rw [live_free]
  split
  · rw [wipe, live_update]
  · rfl

/-- The size of a live block. -/
def size? (h : Heap) (id : BlockId) : Option Nat := (h.block? id).map Block.size

/-- Changes of content leave every size alone. -/
theorem size?_update (h : Heap) (id j : BlockId) {f : Block → Block}
    (hf : ∀ b, (f b).size = b.size) : (h.update id f).size? j = h.size? j := by
  unfold size?
  rw [block?_update]
  split
  · cases h.block? j <;> simp [hf]
  · rfl

@[simp] theorem size?_write (h : Heap) (id j : BlockId) (offset : Nat) (data : Bytes) :
    (h.write id offset data).size? j = h.size? j :=
  size?_update h id j fun b => Block.size_write b offset data

@[simp] theorem size?_wipe (h : Heap) (id j : BlockId) (offset n : Nat) :
    (h.wipe id offset n).size? j = h.size? j :=
  size?_update h id j fun b => Block.size_wipe b offset n

@[simp] theorem size?_noteReturned (h : Heap) (region id : BlockId) (index : Nat) :
    (h.noteReturned region index).size? id = h.size? id := rfl

/-- A freed block has no size any more; every other block keeps its own. -/
theorem size?_free (h : Heap) (id j : BlockId) (holding : Holding) :
    (h.free id holding).size? j = if j = id then none else h.size? j := by
  unfold size?
  rw [block?_free]
  split <;> rfl

/-- A stretch of work on the heap that may free or write the blocks `lost` and leaves the blocks
`gained` behind.  A block that is written counts as lost and gained again; every other block that
was made before is as it was. -/
structure Change (h : Heap) (lost : List BlockId) (h' : Heap) (gained : List BlockId) :
    Prop where
  sound : h'.Sound
  count : ∀ id, h'.liveCount id + lost.count id = h.liveCount id + gained.count id
  next : h.next ≤ h'.next
  kept : ∀ id, id < h.next → id ∉ lost → h'.block? id = h.block? id

/-- Doing nothing. -/
theorem Change.refl (hs : h.Sound) : Change h [] h [] where
  sound := hs
  count := fun _ => rfl
  next := Nat.le_refl _
  kept := fun _ _ _ => rfl

/-- Two stretches of work, one after the other. -/
theorem Change.trans {h'' : Heap} {lost lost' gained gained' : List BlockId}
    (first : Change h lost h' gained) (second : Change h' lost' h'' gained') :
    Change h (lost ++ lost') h'' (gained ++ gained') where
  sound := second.sound
  count := by
    intro id
    have h1 := first.count id
    have h2 := second.count id
    simp only [List.count_append]
    omega
  next := Nat.le_trans first.next second.next
  kept := by
    intro id hid hlost
    rw [List.mem_append, not_or] at hlost
    rw [second.kept id (Nat.lt_of_lt_of_le hid first.next) hlost.2]
    exact first.kept id hid hlost.1

/-- The same work with other books: what is struck out on both sides was made during the work, or
stands among the lost blocks still. -/
theorem Change.rebook {lost lost' gained gained' : List BlockId}
    (hc : Change h lost h' gained)
    (hcount : ∀ id, lost.count id + gained'.count id = lost'.count id + gained.count id)
    (hlost : ∀ id ∈ lost, id < h.next → id ∈ lost') : Change h lost' h' gained' where
  sound := hc.sound
  count := by
    intro id
    have h1 := hc.count id
    have h2 := hcount id
    omega
  next := hc.next
  kept := fun id hid hn => hc.kept id hid fun hm => hn (hlost id hm hid)

/-- What a stretch of work leaves behind without having lost anything is new. -/
theorem Change.fresh {gained : List BlockId} (hc : Change h [] h' gained) (id : BlockId)
    (hm : id ∈ gained) : h.next ≤ id ∧ id < h'.next := by
  have hpos : 0 < gained.count id := List.count_pos_iff.mpr hm
  have hcount := hc.count id
  have hone := h'.liveCount_le_one id
  rw [List.count_nil] at hcount
  constructor
  · refine Nat.le_of_not_lt fun hold => ?_
    have hkept := hc.kept id hold List.not_mem_nil
    have hsame : h'.liveCount id = h.liveCount id := by
      unfold liveCount
      rw [hkept]
    omega
  · exact hc.sound.lt_next (liveCount_pos_iff.mp (by omega))

theorem Sound.change_request {content : Block} (hs : h.Sound)
    (hr : h.request content = (some id, h')) : Change h [] h' [id] where
  sound := hs.request hr
  count := fun j => liveCount_request hs hr j
  next := by
    rw [(request_granted hr).2.1]
    exact Nat.le_succ _
  kept := by
    intro j hj _
    have hne : j ≠ id := by
      rw [(request_granted hr).1]
      exact Nat.ne_of_lt hj
    rw [block?_request hr, if_neg hne]

theorem Sound.change_refused {content : Block} (hs : h.Sound)
    (hr : h.request content = (none, h')) : Change h [] h' [] where
  sound := hs.request hr
  count := fun j => liveCount_request_refused hr j
  next := Nat.le_of_eq (request_refused hr).1.symm
  kept := fun j _ _ => block?_request_none hr j

theorem Sound.change_update (hs : h.Sound) (id : BlockId) (f : Block → Block) :
    Change h [id] (h.update id f) [id] where
  sound := hs.update id f
  count := by
    intro j
    rw [liveCount_update]
  next := Nat.le_refl _
  kept := by
    intro j _ hj
    rw [block?_update, if_neg (by simpa using hj)]

/-- A place that comes back to its pool is nothing to the allocator. -/
theorem Change.noteReturned {lost gained : List BlockId} (hc : Change h lost h' gained)
    (region : BlockId) (index : Nat) : Change h lost (h'.noteReturned region index) gained :=
  ⟨⟨hc.sound.balance, hc.sound.proper⟩, hc.count, hc.next, hc.kept⟩

/-- Writing into a block that was made a moment ago changes no block from before. -/
theorem Change.write {lost gained : List BlockId} (hc : Change h lost h' gained)
    (hid : h.next ≤ id) (offset : Nat) (data : Bytes) :
    Change h lost (h'.write id offset data) gained := by
  have hwrite := hc.trans (hc.sound.change_update id (·.write offset data))
  refine hwrite.rebook (fun j => ?_) fun j hj hlt => ?_
  · simp only [List.count_append]
    omega
  · rcases List.mem_append.mp hj with hj | hj
    · exact hj
    · rw [List.mem_singleton.mp hj] at hlt
      exact absurd hlt (Nat.not_lt.mpr hid)

theorem Sound.change_free (hs : h.Sound) (hl : (h.block? id).isSome) (holding : Holding) :
    Change h [id] (h.free id holding) [] where
  sound := hs.free hl holding
  count := fun j => liveCount_free hl holding j
  next := Nat.le_of_eq (next_free h id holding).symm
  kept := by
    intro j _ hj
    rw [block?_free, if_neg (by simpa using hj)]

/-- Releasing a live block, wiped or not, loses that block and no other. -/
theorem Sound.change_release (hs : h.Sound) (hl : (h.block? id).isSome) (length : Nat)
    (wiped : Bool) : Change h [id] (h.release id length wiped) [] := by
  cases wiped with
  | false => exact hs.change_free hl _
  | true =>
      have hwipe := hs.change_update id (·.wipe 0 length)
      have hl' : ((h.wipe id 0 length).block? id).isSome := by simpa [wipe] using hl
      have hfree := hwipe.sound.change_free hl' (.payload length true)
      refine (hwipe.trans hfree).rebook (fun j => ?_) fun j hj _ => ?_
      · simp only [List.count_append, List.count_nil]
        omega
      · simpa using hj

end Heap

end NativeBoundary

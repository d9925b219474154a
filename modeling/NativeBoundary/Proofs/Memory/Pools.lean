import Mathlib.Data.List.Perm.Subperm
import NativeBoundary.Proofs.Memory.Accounts

/-!
# Trades of pools

Every operation on pools as a trade.  A region is made with one user and is given back with the
last one.  A block that is handed out takes its place from the queue and makes one more user; a
block that comes back puts its place at the end of the queue.

* `Memory.trade_createPool`, `Memory.trade_sharePool`, `Memory.trade_dropPool` — regions;
* `Memory.trade_acquire`, `Memory.trade_writeBlock`, `Memory.trade_releaseBlock` — blocks.
-/

namespace NativeBoundary

namespace Memory

variable {m m' : Memory} {id : PoolId}

section

variable {p : Pool}

/-- A pool that appears with a region of its own, one user and all of its blocks free. -/
theorem trade_newPool (hm : ∀ j, m'.pool? j = if j = id then some p else m.pool? j)
    (hc : m.heap.Sound → m.heap.Change [] m'.heap [id])
    (hsize : m'.heap.size? id = some (p.count * p.blockSize))
    (hsound : p.Sound) (hone : p.users = 1) (hfree : p.free = List.range p.count) :
    m.Trade [] m' [.pool id] := by
  intro others ha
  have hfresh := (hc ha.sound).fresh id (by simp)
  have hnone : m.pool? id = none := by
    cases hp : m.pool? id with
    | none => rfl
    | some q =>
        have hlive := ha.sound.lt_next (ha.region_live hp)
        exact absurd hlive (Nat.not_lt.mpr hfresh.1)
  have hp : m'.pool? id = some p := by rw [hm, if_pos rfl]
  have ht : m.Trade [] m' [.pool id] := by
    refine trade_pool id (fun j hj => by rw [hm, if_neg hj]) (fun _ ha => hc ha.sound)
      (by simp) (fun j => ?_) (fun j hj => ?_) (fun j i _ => rfl)
      (fun hlt _ => absurd hlt (Nat.not_lt.mpr hfresh.1))
      (fun others ha => ⟨?_, fun i => ?_, fun hq => ?_⟩)
    · have hregions : m'.regions j = m.regions j + [id].count j := by
        unfold regions
        rw [hm]
        by_cases hj : j = id
        · subst hj
          simp [hnone]
        · have hne : id ≠ j := fun e => hj e.symm
          simp [hj, hne]
      rw [hregions]
      simp [Holder.blocks]
    · have hne : id ≠ j := fun e => hj e.symm
      simp [Holder.pools, hne]
    · have hold := (ha.pools id).users
      simp only [users, hnone, List.nil_append] at hold
      simp only [users, hp, poolsOf_append, poolsOf_cons, poolsOf_nil, Holder.pools,
        List.append_nil, List.count_append, List.count_singleton, BEq.rfl, if_true, hone]
      omega
    · have hold := (ha.pools id).places i
      simp only [vacant, capacity, hnone, List.nil_append] at hold
      simp only [vacant, capacity, hp, hfree, placesOf_append, placesOf_cons, placesOf_nil,
        Holder.places, List.nil_append, List.count_range]
      omega
    · rw [hp] at hq
      cases hq
      exact ⟨hsound, hsize⟩
  exact ht others ha

/-- A pool that is made has a possible shape, a cleared region and all of its blocks free. -/
theorem createPool_eq {count blockSize : Nat} (hc : m.createPool count blockSize = (some id, m')) :
    isPoolShape count blockSize = true ∧
      ∃ heap, m.heap.allocateCleared (count * blockSize) = (some id, heap) ∧
        m' = ⟨heap, m.pools.insert id
          { blockSize, count, free := List.range count, inUse := 0, users := 1 }⟩ := by
  unfold createPool at hc
  split at hc
  · rename_i hshape
    split at hc
    · cases hc
    · rename_i heap hregion
      cases hc
      exact ⟨hshape, heap, hregion, rfl⟩
  · cases hc

/-- A new pool has one user. -/
theorem trade_createPool {count blockSize : Nat}
    (hc : m.createPool count blockSize = (some id, m')) : m.Trade [] m' [.pool id] := by
  obtain ⟨-, heap, hregion, rfl⟩ := createPool_eq hc
  refine trade_newPool (fun j => Table.get?_insert m.pools id j _)
    (fun hs => hs.change_request hregion) ?_ ⟨Nat.one_pos, by simp⟩ rfl rfl
  change heap.size? id = _
  rw [Heap.size?, Heap.block?_granted hregion]
  rfl

/-- A pool that cannot be had leaves nothing behind. -/
theorem trade_createPool_none {count blockSize : Nat}
    (hc : m.createPool count blockSize = (none, m')) : m.Trade [] m' [] := by
  unfold createPool at hc
  split at hc
  · split at hc
    · rename_i heap hr
      cases hc
      exact trade_heap (fun hs _ => hs.change_refused hr) (fun _ => rfl) (fun _ => rfl)
    · cases hc
  · cases hc
    exact .refl _ _

/-- Work that does not touch the region of a pool, on the books of that pool. -/
theorem change_none (hs : m.heap.Sound) (id : BlockId) : m.heap.Change [id] m.heap [id] :=
  (Heap.Change.refl hs).rebook (fun _ => by simp) (by simp)

/-- Sharing a pool makes one more user. -/
theorem trade_sharePool (m : Memory) (id : PoolId) :
    m.Trade [.pool id] (m.sharePool id) [.pool id, .pool id] := by
  refine trade_of_pool id (by simp [Holder.pools]) fun p hp => ?_
  have hshare : ∀ j, (m.sharePool id).pool? j =
      if j = id then some { p with users := p.users + 1 } else m.pool? j := by
    intro j
    unfold sharePool Table.modify
    rw [show m.pools.get? id = some p from hp]
    exact Table.get?_insert m.pools id j _
  refine trade_record hp hshare (fun hs => change_none hs id) rfl (fun _ => rfl) (fun j => ?_)
    (fun _ _ => rfl) ⟨rfl, rfl⟩ (fun others ha => ?_)
  · simp only [poolsOf_cons, poolsOf_nil, Holder.pools, List.append_nil, List.count_append,
      List.count_singleton, beq_iff_eq]
    grind
  · obtain ⟨hused, hcomplete⟩ := ((ha.pools id).pool hp).1
    exact ⟨Nat.lt_succ_of_lt hused, hcomplete⟩

/-- The last user of a pool gives its region back. -/
theorem trade_lastUser (hp : m.pool? id = some p) (hlast : p.users ≤ 1)
    (hm : ∀ j, m'.pool? j = if j = id then none else m.pool? j)
    (hc : m.heap.Sound → (m.heap.block? id).isSome → m.heap.Change [id] m'.heap []) :
    m.Trade [.pool id] m' [] := by
  have hnone : m'.pool? id = none := by rw [hm, if_pos rfl]
  have hnobody : ∀ others, m.Accounts ([.pool id] ++ others) → id ∉ poolsOf others := by
    intro others ha
    have husers := (ha.pools id).users
    simp only [users, hp, poolsOf_append, poolsOf_cons, poolsOf_nil, Holder.pools,
      List.append_nil, List.count_append, List.count_singleton, BEq.rfl, if_true] at husers
    exact List.count_eq_zero.mp (by omega)
  refine trade_pool id (fun j hj => by rw [hm, if_neg hj])
    (fun _ ha => hc ha.sound (ha.region_live hp))
    (fun j hj => ⟨List.mem_singleton.mp hj, by simp [hp]⟩) (fun j => ?_) (fun j hj => ?_)
    (fun _ _ _ => rfl) (fun _ hq => ?_) (fun others ha => ⟨?_, fun i => ?_, fun hq => ?_⟩)
  · have hregions : m'.regions j + [id].count j = m.regions j := by
      unfold regions
      rw [hm]
      by_cases hj : j = id
      · subst hj
        simp [hp]
      · have hne : id ≠ j := fun e => hj e.symm
        simp [hj, hne]
    simp only [blocksOf_cons, blocksOf_nil, Holder.blocks, List.append_nil, List.count_nil]
    omega
  · have hne : id ≠ j := fun e => hj e.symm
    simp [Holder.pools, hne]
  · rw [hnone] at hq
    cases hq
  · simp [users, hnone, List.count_eq_zero.mpr (hnobody others ha)]
  · have hfree : (placesOf others).count (id, i) = 0 :=
      List.count_eq_zero.mpr fun hmem => hnobody others ha (pool_of_placesOf others hmem)
    simp [vacant, capacity, hnone, hfree]
  · rw [hnone] at hq
    cases hq

/-- One user fewer; with the last one the region is given back. -/
theorem trade_dropPool (m : Memory) (id : PoolId) : m.Trade [.pool id] (m.dropPool id) [] := by
  refine trade_of_pool id (by simp [Holder.pools]) fun p hp => ?_
  unfold dropPool
  rw [hp]
  simp only
  split
  · rename_i hlast
    exact trade_lastUser hp hlast (fun j => Table.get?_erase m.pools id j)
      fun hs hl => hs.change_release hl _ true
  · rename_i hmore
    refine trade_record hp (fun j => Table.get?_insert m.pools id j _)
      (fun hs => change_none hs id) rfl (fun _ => rfl) (fun j => ?_) (fun _ _ => rfl) ⟨rfl, rfl⟩
      (fun others ha => ?_)
    · simp only [poolsOf_cons, poolsOf_nil, Holder.pools, List.append_nil, List.count_nil,
        List.count_singleton, beq_iff_eq]
      grind
    · obtain ⟨-, hcomplete⟩ := ((ha.pools id).pool hp).1
      exact ⟨Nat.sub_pos_of_lt (Nat.lt_of_not_le hmore), hcomplete⟩

end

section

variable {b b' : PoolBlock} {data : Bytes}

/-- What handing out a block does: the front of the queue is gone, and one more block is in use. -/
theorem acquire_some (hc : m.acquire id = (some b, m')) :
    ∃ p free, m.pool? id = some p ∧ p.free = b.index :: free ∧
      b = { pool := id, index := b.index, length := 0 } ∧
      m' = { m with
        pools := m.pools.insert id
          { p with free, inUse := p.inUse + 1, users := p.users + 1 } } := by
  unfold acquire at hc
  split at hc
  · cases hc
  · rename_i p hp
    split at hc
    · cases hc
    · rename_i index free hfree
      cases hc
      exact ⟨p, free, hp, hfree, rfl, rfl⟩

theorem acquire_none (hc : m.acquire id = (none, m')) : m' = m := by
  unfold acquire at hc
  repeat' split at hc
  all_goals cases hc
  all_goals rfl

/-- A block that is handed out takes its place from the front of the queue. -/
theorem trade_acquire (hc : m.acquire id = (some b, m')) :
    m.Trade [.pool id] m' [.pool id, .block b] := by
  obtain ⟨p, free, hp, hfree, hb, rfl⟩ := acquire_some hc
  rw [hb]
  refine trade_record hp (fun j => Table.get?_insert m.pools id j _)
    (fun hs => change_none hs id) rfl (fun _ => rfl) (fun j => ?_) (fun j i => ?_) ⟨rfl, rfl⟩
    (fun others ha => ?_)
  · simp only [poolsOf_cons, poolsOf_nil, Holder.pools, List.append_nil, List.count_append,
      List.count_singleton, beq_iff_eq]
    grind
  · simp only [placesOf_cons, placesOf_nil, Holder.places, List.append_nil, List.nil_append,
      List.count_nil, hfree, List.count_cons, beq_iff_eq, Prod.mk.injEq]
    grind
  · obtain ⟨hused, hcomplete⟩ := ((ha.pools id).pool hp).1
    rw [hfree, List.length_cons] at hcomplete
    exact ⟨Nat.lt_succ_of_lt hused, by simp only; omega⟩

/-- A pool whose region was rewritten has the same books. -/
theorem trade_region {old new : List Holder} {p : Pool} {h' : Heap} (hp : m.pool? id = some p)
    (hc : m.heap.Sound → m.heap.Change [id] h' [id])
    (hregion : h'.size? id = m.heap.size? id) (hs : SameStakes old new) :
    m.Trade old { m with heap := h' } new := by
  refine trade_record hp (fun j => ?_) hc hregion hs.blocks (fun j => ?_)
    (fun j i => ?_) ⟨rfl, rfl⟩ (fun others ha => ((ha.pools id).pool hp).1)
  · by_cases hj : j = id
    · rw [if_pos hj, hj]
      exact hp
    · rw [if_neg hj]
      rfl
  · rw [hs.pools j]
  · rw [hs.places (j, i)]

/-- A write clears what the block had in use, and puts its own bytes there. -/
theorem writeBlock_eq (hc : m.writeBlock b data = (some b', m')) :
    ∃ p, m.pool? b.pool = some p ∧ data.length ≤ p.blockSize ∧
      b' = { b with length := data.length } ∧
      m' = ⟨(m.heap.wipe b.pool (blockOffset p b.index) b.length).write b.pool
        (blockOffset p b.index) data, m.pools⟩ := by
  unfold writeBlock at hc
  split at hc
  · cases hc
  · rename_i p hp
    split at hc
    · cases hc
    · rename_i hfits
      cases hc
      exact ⟨p, hp, Nat.le_of_not_lt hfits, rfl, rfl⟩

/-- A block that is written stays where it is. -/
theorem trade_writeBlock (hc : m.writeBlock b data = (some b', m')) :
    m.Trade [.block b] m' [.block b'] := by
  obtain ⟨p, hp, -, rfl, rfl⟩ := writeBlock_eq hc
  refine trade_region hp (fun hs => ?_) (by simp) ⟨fun _ => rfl, fun _ => rfl, fun _ => rfl⟩
  have hwipe := hs.change_update b.pool (·.wipe (blockOffset p b.index) b.length)
  have hwrite := hwipe.sound.change_update b.pool (·.write (blockOffset p b.index) data)
  exact (hwipe.trans hwrite).rebook (fun j => by simp only [List.count_append, Nat.add_assoc])
    (by simp)

theorem writeBlock_none (hc : m.writeBlock b data = (none, m')) : m' = m := by
  unfold writeBlock at hc
  repeat' split at hc
  all_goals cases hc
  all_goals rfl

/-- A block for some bytes is handed out first and written then. -/
theorem acquireWith_some (hc : m.acquireWith id data = (some b, m')) :
    ∃ fresh middle, m.acquire id = (some fresh, middle) ∧
      middle.writeBlock fresh data = (some b, m') := by
  unfold acquireWith at hc
  split at hc
  · cases hc
  · split at hc
    · cases hc
    · split at hc
      · cases hc
      · rename_i fresh middle hacquire
        exact ⟨fresh, middle, hacquire, hc⟩

/-- A block that is handed out and written. -/
theorem trade_acquireWith (hc : m.acquireWith id data = (some b, m')) :
    m.Trade [.pool id] m' [.pool id, .block b] := by
  obtain ⟨fresh, middle, hacquire, hwritten⟩ := acquireWith_some hc
  have hwrite := (trade_writeBlock hwritten).frame [.pool id]
  have hswap : SameStakes [.pool id, .block fresh] ([.block fresh] ++ [.pool id]) :=
    .of_perm (List.Perm.swap _ _ _)
  exact (trade_acquire hacquire).trans (hwrite.congr hswap (.of_perm (List.Perm.swap _ _ _)))

/-- A write into a block of a pool that lives is refused only when it does not fit. -/
theorem writeBlock_isSome {p : Pool} (hp : m.pool? b.pool = some p)
    (hfits : data.length ≤ p.blockSize) : (m.writeBlock b data).1.isSome := by
  unfold writeBlock
  rw [hp]
  simp [Nat.not_lt.mpr hfits]

/-- A pool that has no block for the bytes is as it was. -/
theorem acquireWith_none (hc : m.acquireWith id data = (none, m')) : m' = m := by
  unfold acquireWith at hc
  split at hc
  · cases hc
    rfl
  · rename_i p hp
    split at hc
    · cases hc
      rfl
    · rename_i hfits
      split at hc
      · rename_i hacquire
        cases hc
        exact acquire_none hacquire
      · rename_i fresh middle hacquire
        obtain ⟨q, free, hq, -, hfresh, hmiddle⟩ := acquire_some hacquire
        rw [hp] at hq
        cases hq
        have hrecord : middle.pool? fresh.pool =
            some { p with free, inUse := p.inUse + 1, users := p.users + 1 } := by
          rw [hmiddle, hfresh]
          exact Table.get?_insert_self _ _ _
        have hsome := writeBlock_isSome hrecord (Nat.le_of_not_lt hfits)
        rw [hc] at hsome
        cases hsome

/-- The places of a pool that are free or taken are places of that pool, none of them twice. -/
theorem free_lt_count {holders : List Holder} {p : Pool} (index : Nat)
    (ha : m.Accounts holders) (hp : m.pool? id = some p)
    (hm : (id, index) ∈ placesOf holders) : p.free.length < p.count := by
  have hcount : ∀ i, p.free.count i + (placesOf holders).count (id, i) =
      if i < p.count then 1 else 0 := by
    intro i
    have h := (ha.pools id).places i
    simpa [vacant, capacity, hp] using h
  have htaken : 0 < (placesOf holders).count (id, index) := List.count_pos_iff.mpr hm
  have hnodup : (index :: p.free).Nodup := by
    rw [List.nodup_iff_count]
    intro i
    have h := hcount i
    rw [List.count_cons]
    by_cases hi : index = i
    · subst hi
      simp only [BEq.rfl, if_true]
      split at h <;> omega
    · simp only [beq_iff_eq, hi, if_false]
      split at h <;> omega
  have hsub : index :: p.free ⊆ List.range p.count := by
    intro i hi
    rw [List.mem_range]
    have h := hcount i
    have hpos : 0 < p.free.count i + (placesOf holders).count (id, i) := by
      rcases List.mem_cons.mp hi with heq | hfree
      · subst heq
        omega
      · have := List.count_pos_iff.mpr hfree
        omega
    split at h
    · assumption
    · omega
  have hlength := (List.subperm_of_subset hnodup hsub).length_le
  rw [List.length_cons, List.length_range] at hlength
  exact hlength

/-- A block that comes back puts its place at the end of the queue.  Its user is still counted. -/
theorem trade_takeBack {p : Pool} (hp : m.pool? b.pool = some p) :
    m.Trade [.block b] (m.takeBack p b) [.pool b.pool] := by
  intro others ha
  have hfree := free_lt_count b.index ha hp (by simp [Holder.places])
  have hrecord := m.pool?_takeBack p b
  rw [Pool.putBack_of_room hfree] at hrecord
  have hback : m.Trade [.block b] (m.takeBack p b) [.pool b.pool] := by
    refine trade_record hp hrecord
      (fun hs => (hs.change_update b.pool _).noteReturned b.pool b.index) (by simp [takeBack])
      (fun _ => rfl) (fun j => rfl) (fun j i => ?_) ⟨rfl, rfl⟩ (fun others ha => ?_)
    · simp only [placesOf_cons, placesOf_nil, Holder.places, List.append_nil, List.count_nil,
        List.count_append, List.count_cons, beq_iff_eq, Prod.mk.injEq]
      grind
    · obtain ⟨hused, hcomplete⟩ := ((ha.pools b.pool).pool hp).1
      refine ⟨hused, ?_⟩
      simp only [List.length_append, List.length_cons, List.length_nil]
      omega
  exact hback others ha

/-- A block that comes back is free again, and its pool has one user fewer. -/
theorem trade_releaseBlock (m : Memory) (b : PoolBlock) :
    m.Trade [.block b] (m.releaseBlock b) [] := by
  refine trade_of_pool b.pool (by simp [Holder.pools]) fun p hp => ?_
  rw [releaseBlock_of_pool hp]
  exact (trade_takeBack hp).trans (trade_dropPool _ b.pool)

end

end Memory

end NativeBoundary

import Mathlib.Data.List.Range
import NativeBoundary.Proofs.Process.Operations

/-!
# Places in a pool

A pool keeps its count twice: the queue says which places are free, and a counter says how many
are not.  The two are changed at different moments, by whoever takes or gives back a block, through
any of the pool values, scopes and bridges that share the pool.  They agree nevertheless: at every
moment of every run each place of a pool is in the queue or in the hands of one holder, never both
and never twice, and the counter is the number of blocks in somebody's hands.

So a block can be had exactly while the queue is not empty, the queue has room for every block that
comes back, and the bytes of two blocks that are held never overlap.

* `Memory.Accounts.places_perm` — free and held places, once each;
* `Ledger.Partitioned` — what holds of a pool at one moment;
* `Ledger.pools_partitioned` — it holds of every pool after every run.
-/

namespace NativeBoundary

/-- The place of a block. -/
def PoolBlock.place (b : PoolBlock) : PoolId × Nat := (b.pool, b.index)

/-- The block of a pool that a copy of a scope is. -/
def ScopeCopy.poolBlocks : ScopeCopy → List PoolBlock
  | pooled b => [b]
  | heap _ => []
  | batch _ => []

/-- The blocks of pools that a holder holds. -/
def Holder.poolBlocks : Holder → List PoolBlock
  | block b => [b]
  | scope s => s.copies.flatMap ScopeCopy.poolBlocks
  | buffer _ | batch _ | pool _ | bridge _ | rawBuffer _ | rawBatch _ => []

/-- The blocks of pools that some holders hold together. -/
def poolBlocksOf (holders : List Holder) : List PoolBlock := holders.flatMap Holder.poolBlocks

/-- The blocks of one pool that some holders hold together. -/
def heldIn (id : PoolId) (holders : List Holder) : List PoolBlock :=
  (poolBlocksOf holders).filter (·.pool = id)

section

variable (x : Holder) (xs ys : List Holder)

@[simp] theorem poolBlocksOf_nil : poolBlocksOf [] = [] := rfl

@[simp] theorem poolBlocksOf_cons : poolBlocksOf (x :: xs) = x.poolBlocks ++ poolBlocksOf xs := rfl

@[simp] theorem poolBlocksOf_append :
    poolBlocksOf (xs ++ ys) = poolBlocksOf xs ++ poolBlocksOf ys :=
  List.flatMap_append

/-- The places that a holder takes are those of its blocks. -/
theorem Holder.map_place : x.poolBlocks.map PoolBlock.place = x.places := by
  cases x with
  | block b => rfl
  | scope s =>
      rw [Holder.poolBlocks, List.map_flatMap]
      refine List.flatMap_congr fun copy _ => ?_
      cases copy <;> rfl
  | buffer b | batch b | pool id | bridge b | rawBuffer raw | rawBatch raw => rfl

theorem map_place_poolBlocksOf : (poolBlocksOf xs).map PoolBlock.place = placesOf xs := by
  rw [poolBlocksOf, List.map_flatMap]
  exact List.flatMap_congr fun x _ => x.map_place

theorem place_mem {b : PoolBlock} (hb : b ∈ poolBlocksOf xs) : (b.pool, b.index) ∈ placesOf xs := by
  rw [← map_place_poolBlocksOf]
  exact List.mem_map_of_mem (f := PoolBlock.place) hb

theorem mem_heldIn {id : PoolId} {b : PoolBlock} :
    b ∈ heldIn id xs ↔ b ∈ poolBlocksOf xs ∧ b.pool = id := by
  simp [heldIn]

/-- A place of a pool is taken as often as a block with its index is held. -/
theorem count_heldIn (id : PoolId) (i : Nat) :
    ((heldIn id xs).map PoolBlock.index).count i = (placesOf xs).count (id, i) := by
  rw [← map_place_poolBlocksOf, List.count, List.count, List.countP_map, List.countP_map, heldIn,
    List.countP_filter]
  refine List.countP_congr fun b _ => ?_
  simp [PoolBlock.place, and_comm]

end

namespace Memory

variable {m m' : Memory} {id : PoolId} {p : Pool} {holders : List Holder} {b : PoolBlock}
  {data : Bytes}

/-- Free and held places together are all the places of a pool. -/
theorem Accounts.places_perm (ha : m.Accounts holders) (hp : m.pool? id = some p) :
    (p.free ++ (heldIn id holders).map PoolBlock.index).Perm (List.range p.count) := by
  refine List.perm_iff_count.mpr fun i => ?_
  have hplaces := (ha.pools id).places i
  simp only [vacant, capacity, hp] at hplaces
  rw [List.count_append, count_heldIn, hplaces, List.count_range]

/-- No place is free and held, free twice or held twice. -/
theorem Accounts.places_nodup (ha : m.Accounts holders) (hp : m.pool? id = some p) :
    (p.free ++ (heldIn id holders).map PoolBlock.index).Nodup :=
  (ha.places_perm hp).nodup_iff.mpr List.nodup_range

/-- The counter of a pool is the number of its blocks that are held. -/
theorem Accounts.inUse_eq (ha : m.Accounts holders) (hp : m.pool? id = some p) :
    p.inUse = (heldIn id holders).length ∧ p.inUse ≤ p.count ∧ p.available = p.free.length := by
  have hlength := (ha.places_perm hp).length_eq
  have hcomplete := ((ha.pools id).pool hp).1.complete
  rw [List.length_append, List.length_map, List.length_range] at hlength
  unfold Pool.available
  omega

/-- The pool of a block that is held is there, and the block is one of its blocks. -/
theorem Accounts.index_lt (ha : m.Accounts holders) (hb : b ∈ poolBlocksOf holders) :
    ∃ p, m.pool? b.pool = some p ∧ b.index < p.count := by
  obtain ⟨p, hp⟩ := ha.pool_live (pool_of_placesOf holders (place_mem holders hb))
  refine ⟨p, hp, List.mem_range.mp ?_⟩
  refine (ha.places_perm hp).mem_iff.mp (List.mem_append_right _ ?_)
  exact List.mem_map_of_mem ((mem_heldIn holders).mpr ⟨hb, rfl⟩)

/-- A place that is free is held by nobody. -/
theorem Accounts.not_held_of_free (ha : m.Accounts holders) (hp : m.pool? id = some p) {i : Nat}
    (hi : i ∈ p.free) : (id, i) ∉ placesOf holders := by
  intro hm
  rw [← List.count_pos_iff, ← count_heldIn, List.count_pos_iff] at hm
  exact (List.nodup_append.mp (ha.places_nodup hp)).2.2 i hi i hm rfl

theorem acquire_isSome_iff (hp : m.pool? id = some p) :
    (m.acquire id).1.isSome ↔ 0 < p.free.length := by
  unfold acquire
  rw [hp]
  cases hfree : p.free <;> simp [hfree]

theorem acquireWith_isSome_iff (hp : m.pool? id = some p) (data : Bytes) :
    (m.acquireWith id data).1.isSome ↔ 0 < p.free.length ∧ data.length ≤ p.blockSize := by
  have hfree := acquire_isSome_iff hp
  unfold acquireWith
  rw [hp]
  simp only
  by_cases hfits : data.length ≤ p.blockSize
  · rw [if_neg (Nat.not_lt.mpr hfits), and_iff_left hfits, ← hfree]
    split
    · rename_i hacquire
      rw [hacquire]
    · rename_i b m' hacquire
      rw [hacquire]
      obtain ⟨q, free, hq, -, hb, rfl⟩ := acquire_some hacquire
      rw [hp] at hq
      cases hq
      have hrecord : ({ m with pools := m.pools.insert id { p with
          free, inUse := p.inUse + 1, users := p.users + 1 } } : Memory).pool? b.pool =
          some { p with free, inUse := p.inUse + 1, users := p.users + 1 } := by
        rw [hb]
        exact Table.get?_insert_self _ _ _
      simp [writeBlock_isSome hrecord hfits]
  · rw [if_pos (Nat.not_le.mp hfits)]
    simp [hfits]

/-- A block of a pool lies inside the region. -/
theorem blockOffset_le (p : Pool) {i : Nat} (hi : i < p.count) :
    blockOffset p i + p.blockSize ≤ p.count * p.blockSize := by
  unfold blockOffset
  rw [← Nat.succ_mul]
  exact Nat.mul_le_mul_right _ hi

/-- Different blocks of a pool do not overlap. -/
theorem blockOffset_apart (p : Pool) {i j : Nat} (hij : i ≠ j) :
    blockOffset p i + p.blockSize ≤ blockOffset p j ∨
      blockOffset p j + p.blockSize ≤ blockOffset p i := by
  unfold blockOffset
  rw [← Nat.succ_mul, ← Nat.succ_mul]
  rcases Nat.lt_or_gt_of_ne hij with hlt | hlt
  · exact .inl (Nat.mul_le_mul_right _ hlt)
  · exact .inr (Nat.mul_le_mul_right _ hlt)

end Memory

namespace Memory

variable {m m' : Memory} {others : List Holder} {count blockSize : Nat} {id : PoolId}

theorem Spares.nobody (hs : m.Spares others m') : m.Spares [] m' where
  next := hs.next
  kept := fun _ hid => by cases hid
  shape := hs.shape

theorem Spares.refl (m : Memory) : m.Spares [] m where
  next := Nat.le_refl _
  kept := fun _ hid => by cases hid
  shape := fun _ hp => ⟨_, hp, rfl, rfl⟩

/-- A pool is made as it was asked for, with all of its blocks free. -/
theorem createPool_some (hc : m.createPool count blockSize = (some id, m')) :
    isPoolShape count blockSize = true ∧
      m'.pool? id = some { blockSize, count, free := List.range count, inUse := 0, users := 1 } := by
  obtain ⟨hshape, heap, -, rfl⟩ := createPool_eq hc
  exact ⟨hshape, Table.get?_insert_self _ _ _⟩

theorem Operation.memory_createPool (p : Process) (count blockSize : Nat) :
    ((createPool count blockSize).effect p).process.memory =
      (p.memory.createPool count blockSize).2 := by
  simp only [effect]
  split <;> rename_i hc <;> rw [hc] <;> rfl

end Memory

namespace Ledger

variable {s : Ledger}

/-- One operation leaves the shape of every pool alone. -/
theorem Balanced.spares_work (hb : s.Balanced) (op : Process.Operation) :
    s.memory.Spares [] (s.work op).memory := by
  have htrade := op.trade s.process
  unfold Ledger.work Ledger.perform
  cases howner : op.owner? with
  | none =>
      rw [howner] at htrade
      exact (htrade s.holders hb).2.nobody
  | some x =>
      rw [howner] at htrade
      simp only
      split
      · rename_i hx
        have hsplit : s.memory.Accounts ([x] ++ s.holders.erase x) :=
          hb.congr (.of_perm (List.perm_cons_erase hx))
        exact (htrade _ hsplit).2.nobody
      · exact .refl _

/-- So does a run. -/
theorem Balanced.spares_run (hb : s.Balanced) (ops : List Process.Operation) :
    s.memory.Spares [] (ops.foldl Ledger.work s).memory := by
  induction ops generalizing s with
  | nil => exact .refl _
  | cons op ops ih => exact (hb.spares_work op).trans (ih (hb.work op))

theorem history_append (ops later : List Process.Operation) :
    history (ops ++ later) = later.foldl Ledger.work (history ops) :=
  List.foldl_append

/-- A pool has the shape that it was made with, for as long as it lives. -/
theorem shape_of_created {ops later : List Process.Operation} {count blockSize : Nat} {id : PoolId}
    {p : Pool} (hnew : ((history ops).memory.createPool count blockSize).1 = some id)
    (hp : (history (ops ++ .memory (.createPool count blockSize) :: later)).memory.pool? id =
      some p) : p.count = count ∧ p.blockSize = blockSize := by
  obtain ⟨m, hcreate⟩ : ∃ m, (history ops).memory.createPool count blockSize = (some id, m) :=
    ⟨_, Prod.ext hnew rfl⟩
  have hmemory : ((history ops).work (.memory (.createPool count blockSize))).memory = m := by
    refine (Memory.Operation.memory_createPool (history ops).process count blockSize).trans ?_
    exact congrArg Prod.snd hcreate
  have hmade := (Memory.createPool_some hcreate).2
  rw [← hmemory] at hmade
  have hbalanced := (balanced_history ops).work (.memory (.createPool count blockSize))
  rw [history_append, List.foldl_cons] at hp
  obtain ⟨q, hq, hcount, hsize⟩ := (hbalanced.spares_run later).shape
    (hbalanced.sound.lt_next (hbalanced.region_live hmade)) hp
  rw [hmade] at hq
  cases hq
  exact ⟨hcount, hsize⟩

/-- The blocks of a pool that are held. -/
def held (s : Ledger) (id : PoolId) : List PoolBlock := heldIn id s.holders

/-- What holds of a pool at one moment. -/
structure Partitioned (s : Ledger) (id : PoolId) (p : Pool) : Prop where
  /-- Each place of the pool is in the queue or in the hands of one holder, and it is there once. -/
  places : (p.free ++ (s.held id).map PoolBlock.index).Perm (List.range p.count)
  nodup : (p.free ++ (s.held id).map PoolBlock.index).Nodup
  /-- The counter is the number of blocks that are held. -/
  inUse : p.inUse = (s.held id).length
  bounded : p.inUse ≤ p.count
  available : p.available = p.free.length
  /-- A block can be had exactly while some are available. -/
  acquires : (s.memory.acquire id).1.isSome ↔ 0 < p.available
  acquiresWith : ∀ data, (s.memory.acquireWith id data).1.isSome ↔
    0 < p.available ∧ data.length ≤ p.blockSize
  /-- A refusal changes nothing. -/
  refuses : (s.memory.acquire id).1 = none → (s.memory.acquire id).2 = s.memory
  refusesWith : ∀ data, (s.memory.acquireWith id data).1 = none →
    (s.memory.acquireWith id data).2 = s.memory
  /-- The queue has room for a block that comes back. -/
  room : ∀ b ∈ s.held id, (p.putBack b.index).free = p.free ++ [b.index]
  /-- The bytes of a block that is held lie in the region, apart from those of any other. -/
  region : s.memory.heap.size? id = some (p.count * p.blockSize)
  inside : ∀ b ∈ s.held id, Memory.blockOffset p b.index + p.blockSize ≤ p.count * p.blockSize
  apart : (s.held id).Pairwise fun b c =>
    Memory.blockOffset p b.index + p.blockSize ≤ Memory.blockOffset p c.index ∨
      Memory.blockOffset p c.index + p.blockSize ≤ Memory.blockOffset p b.index

/-- Balanced books partition every pool. -/
theorem Balanced.partitioned (hb : s.Balanced) {id : PoolId} {p : Pool}
    (hp : s.memory.pool? id = some p) : s.Partitioned id p := by
  obtain ⟨hused, hbounded, havailable⟩ := hb.inUse_eq hp
  have hnodup := hb.places_nodup hp
  have hlt : ∀ b ∈ s.held id, b.index < p.count := by
    intro b hheld
    obtain ⟨hmem, rfl⟩ := (mem_heldIn s.holders).mp hheld
    obtain ⟨q, hq, hindex⟩ := hb.index_lt hmem
    rw [hp] at hq
    cases hq
    exact hindex
  refine ⟨hb.places_perm hp, hnodup, hused, hbounded, havailable, ?_, fun data => ?_,
    fun hnone => ?_, fun data hnone => ?_, fun b hheld => ?_, ((hb.pools id).pool hp).2,
    fun b hheld => Memory.blockOffset_le p (hlt b hheld), ?_⟩
  · rw [havailable]
    exact Memory.acquire_isSome_iff hp
  · rw [havailable]
    exact Memory.acquireWith_isSome_iff hp data
  · exact Memory.acquire_none (Prod.ext hnone rfl)
  · exact Memory.acquireWith_none (Prod.ext hnone rfl)
  · -- the block that comes back is not in the queue, so the queue is not full
    obtain ⟨hmem, rfl⟩ := (mem_heldIn s.holders).mp hheld
    have hroom := Memory.free_lt_count b.index hb hp (place_mem s.holders hmem)
    rw [Pool.putBack_of_room hroom]
  · have hindices := (List.nodup_append.mp hnodup).2.1
    exact (List.pairwise_map.mp hindices).imp fun hne => Memory.blockOffset_apart p hne

/-- Every pool is partitioned after every run, and keeps the count and the block size that it was
made with. -/
theorem pools_partitioned (ops : List Process.Operation) :
    (∀ id p, (history ops).memory.pool? id = some p → (history ops).Partitioned id p) ∧
    ∀ count blockSize id, ((history ops).memory.createPool count blockSize).1 = some id →
      ∀ later p,
        (history (ops ++ .memory (.createPool count blockSize) :: later)).memory.pool? id = some p →
          p.count = count ∧ p.blockSize = blockSize :=
  ⟨fun _ _ hp => (balanced_history ops).partitioned hp, fun _ _ _ hnew _ _ hp =>
    shape_of_created hnew hp⟩

/-- A pool of two blocks that a pool value, another one and a scope share.  The scope has a copy
in one block; the other was handed out and came back. -/
def sharedPool : List Process.Operation :=
  [.memory (.createPool 2 8), .memory (.sharePool 0), .memory (.acquire 0),
    .memory (.openScope .ownedCopy (some 0) false),
    .memory (.input { strategy := .ownedCopy, pool? := some 0 } [7, 7] .secret),
    .memory (.dropBlock { pool := 0, index := 0, length := 0 })]

theorem pools_partitioned_shared :
    (history sharedPool).held 0 = [{ pool := 0, index := 1, length := 2 }] ∧
      (history sharedPool).Partitioned 0
        { blockSize := 8, count := 2, free := [0], inUse := 1, users := 4 } :=
  ⟨by decide, (pools_partitioned sharedPool).1 0 _ (by decide)⟩

end Ledger

end NativeBoundary

import NativeBoundary.Proofs.Memory.Contents

/-!
# Pools stay clean

Every operation on pools and their blocks keeps pools clean and leaves the blocks in other hands
alone (`Memory.Tends`).  Taking a block finds it zero; a write wipes what the block had in use
before it puts its own bytes there; a block that comes back is wiped over its whole size; and a
region is wiped throughout before it is freed.

Native code writes into a block through the raw buffer that shows it, inside of the bytes that this
raw buffer describes (`Memory.fill`).

* `Memory.tends_createPool`, `Memory.tends_sharePool`, `Memory.tends_dropPool` — regions;
* `Memory.tends_acquire`, `Memory.tends_writeBlock`, `Memory.tends_releaseBlock`,
  `Memory.tends_fill` — blocks;
* `Memory.read_writeBlock`, `Memory.inspectBlock_writeBlock`, `Memory.inspectBlock_releaseBlock` —
  what a write leaves in its own block, and what a write and a release leave in others.
-/

namespace NativeBoundary

/-- Native code writes through a raw buffer, inside of the bytes that it describes. -/
def RawBuffer.overwrite (raw : RawBuffer) (offset : Nat) (data : Bytes) (h : Heap) : Heap :=
  match raw.data with
  | .native id start =>
      if offset + data.length ≤ raw.length then h.write id (start + offset) data else h
  | _ => h

namespace Memory

variable {m m' : Memory} {id : PoolId} {p p' : Pool} {b b' : PoolBlock} {data : Bytes}
  {q : Pool} {old new others : List Holder}

/-- Native code writes into a block of a pool. -/
def fill (m : Memory) (b : PoolBlock) (offset : Nat) (data : Bytes) : Memory :=
  { m with heap := (m.blockRaw b).overwrite offset data m.heap }

/-- Somebody who refers to a pool may take for granted that the pool is there. -/
theorem tends_of_pool (id : PoolId) (hid : id ∈ poolsOf old)
    (ht : ∀ p, m.pool? id = some p → m.Tends old m' new) : m.Tends old m' new := by
  intro others ha hclean
  obtain ⟨p, hp⟩ : ∃ p, m.pool? id = some p := ha.pool_live (by simp [hid])
  exact ht p hp others ha hclean

/-- A new record with the same queue. -/
theorem tends_users (ht : m.Trade old { m with pools := m.pools.insert id p' } new)
    (hp : m.pool? id = some p) (hsize : p'.blockSize = p.blockSize) (hfree : p'.free = p.free)
    (hnew : poolBlocksOf new = []) : m.Tends old { m with pools := m.pools.insert id p' } new := by
  refine tends_record ht hp (fun j => Table.get?_insert m.pools id j _) hsize rfl
    (fun _ _ _ _ _ => .inl rfl) (fun i hi => .inl (hfree ▸ hi)) fun _ _ _ b hb => ?_
  rw [hnew] at hb
  cases hb

theorem tends_sharePool (m : Memory) (id : PoolId) :
    m.Tends [.pool id] (m.sharePool id) [.pool id, .pool id] := by
  refine tends_of_pool id (by simp [Holder.pools]) fun p hp => ?_
  have ht := trade_sharePool m id
  unfold sharePool Table.modify at ht ⊢
  rw [show m.pools.get? id = some p from hp] at ht ⊢
  exact tends_users ht hp rfl rfl rfl

/-- A region is wiped throughout before it is freed. -/
theorem ended_release (hlive : m.heap.size? id = some (p.count * p.blockSize))
    (hm' : m'.heap = m.heap.release id (p.count * p.blockSize) true) : m'.Ended id p := by
  obtain ⟨b, hb, hsize⟩ := Option.map_eq_some_iff.mp hlive
  have hwiped : (m.heap.wipe id 0 (p.count * p.blockSize)).block? id =
      some (b.wipe 0 (p.count * p.blockSize)) := by
    rw [Heap.wipe, Heap.block?_update, if_pos rfl, hb]
    rfl
  refine ⟨b.wipe 0 (p.count * p.blockSize), ?_, ?_, b.clear_wipe _⟩
  · rw [hm', Heap.release, if_pos rfl, Heap.trace_free_of_live _ hwiped]
    exact List.mem_cons_self
  · rw [Block.size_wipe, hsize]

/-- With its last user a pool is gone. -/
theorem tends_lastUser (hp : m.pool? id = some p)
    (ht : m.Trade old { heap := m.heap.release id (p.count * p.blockSize) true
                        pools := m.pools.erase id } new)
    (hheld : ∀ b ∈ poolBlocksOf new, b ∈ poolBlocksOf old) :
    m.Tends old { heap := m.heap.release id (p.count * p.blockSize) true
                  pools := m.pools.erase id } new := by
  intro others ha hclean
  obtain ⟨ha', hspares⟩ := ht others ha
  have hpool : ∀ {j q}, (m.pools.erase id).get? j = some q → j ≠ id ∧ m.pool? j = some q := by
    intro j q hq
    rw [Table.get?_erase] at hq
    split at hq
    · cases hq
    · rename_i hj
      exact ⟨hj, hq⟩
  have hbytes : ∀ {j}, j ≠ id → ∀ k,
      (m.heap.release id (p.count * p.blockSize) true).byteAt j k = m.heap.byteAt j k :=
    fun hj k => Heap.byteAt_congr (by rw [Heap.block?_release, if_neg hj]) k
  have hmem : ∀ b ∈ poolBlocksOf (new ++ others), b ∈ poolBlocksOf (old ++ others) := by
    intro b hb
    rw [poolBlocksOf_append, List.mem_append] at hb ⊢
    exact hb.imp_left (hheld b)
  refine ⟨ha', hspares, ⟨fun {j q} hq => ?_, fun {j q} hq i hi k hk => ?_, fun b hb {q} hq => ?_,
    fun b hb {q} hq k hlow hk => ?_⟩, Heap.suffix_release _ _ _ _, fun x hx {q} hq k hk => ?_,
    fun {j q} hq hgone => ?_⟩
  · exact hclean.shape (hpool hq).2
  · obtain ⟨hj, hq⟩ := hpool hq
    exact (hbytes hj _).trans (hclean.free hq i hi k hk)
  · exact hclean.fits b (hmem b hb) (hpool hq).2
  · obtain ⟨hj, hq⟩ := hpool hq
    exact (hbytes hj _).trans (hclean.tail b (hmem b hb) hq k hlow hk)
  · -- the pool of a block in other hands lives on, so it is another one
    have hrefers : x.1 ∈ poolsOf (new ++ others) := by
      rw [poolsOf_append]
      exact List.mem_append_right _ (pool_of_placesOf others hx)
    obtain ⟨q', hq'⟩ := ha'.pool_live hrefers
    exact hbytes (hpool hq').1 _
  · have hj : j = id := by
      by_contra hne
      have hsame : (m.pools.erase id).get? j = some q := (Table.get?_erase_of_ne _ hne).trans hq
      rw [show (m.pools.erase id).get? j = none from hgone] at hsame
      cases hsame
    subst hj
    rw [hp] at hq
    cases hq
    exact ended_release ((ha.pools j).pool hp).2 rfl

theorem tends_dropPool (m : Memory) (id : PoolId) : m.Tends [.pool id] (m.dropPool id) [] := by
  refine tends_of_pool id (by simp [Holder.pools]) fun p hp => ?_
  have ht := trade_dropPool m id
  unfold dropPool at ht ⊢
  rw [hp] at ht ⊢
  simp only at ht ⊢
  split at ht <;> rename_i hlast
  · rw [if_pos hlast]
    exact tends_lastUser hp ht fun b hb => by cases hb
  · rw [if_neg hlast]
    exact tends_users ht hp rfl rfl rfl

/-- A new pool is zero throughout. -/
theorem tends_newPool (ht : m.Trade [] m' [.pool id]) (hfresh : m.pool? id = none)
    (hm : ∀ j, m'.pool? j = if j = id then some p else m.pool? j)
    (htrace : m.heap.trace <:+ m'.heap.trace) (hshape : isPoolShape p.count p.blockSize = true)
    (hkept : ∀ j, j ≠ id → ∀ k, m'.heap.byteAt j k = m.heap.byteAt j k)
    (hzero : ∀ k, m'.heap.byteAt id k = 0) : m.Tends [] m' [.pool id] := by
  intro others ha hclean
  obtain ⟨ha', hspares⟩ := ht others ha
  have hother : ∀ {j q}, m.pool? j = some q → j ≠ id := by
    rintro j q hq rfl
    rw [hfresh] at hq
    cases hq
  -- a pool is the new one, or an old one with its bytes
  have hcases : ∀ {j q}, m'.pool? j = some q → j = id ∧ q = p ∨ j ≠ id ∧ m.pool? j = some q := by
    intro j q hq
    rw [hm] at hq
    split at hq <;> rename_i hj
    · exact .inl ⟨hj, (Option.some.inj hq).symm⟩
    · exact .inr ⟨hj, hq⟩
  refine ⟨ha', hspares, ⟨fun {j q} hq => ?_, fun {j q} hq i hi k hk => ?_, fun b hb {q} hq => ?_,
    fun b hb {q} hq k hlow hk => ?_⟩, htrace, fun x _ q hq k _ => hkept _ (hother hq) _,
    fun {j q} hq hgone => ?_⟩
  · rcases hcases hq with ⟨-, rfl⟩ | ⟨-, hq⟩
    · exact hshape
    · exact hclean.shape hq
  · rcases hcases hq with ⟨rfl, -⟩ | ⟨hj, hq⟩
    · exact hzero _
    · exact (hkept j hj _).trans (hclean.free hq i hi k hk)
  · rcases hcases hq with ⟨hj, -⟩ | ⟨-, hq⟩
    · obtain ⟨q₀, hq₀, -⟩ := ha.index_lt hb
      exact absurd hj (hother hq₀)
    · exact hclean.fits b hb hq
  · rcases hcases hq with ⟨hj, -⟩ | ⟨hj, hq⟩
    · rw [hj]
      exact hzero _
    · exact (hkept _ hj _).trans (hclean.tail b hb hq k hlow hk)
  · rw [hm, if_neg (hother hq), hq] at hgone
    cases hgone

theorem tends_createPool {count blockSize : Nat}
    (hc : m.createPool count blockSize = (some id, m')) : m.Tends [] m' [.pool id] := by
  intro others ha hclean
  have ht := trade_createPool hc
  obtain ⟨hshape, heap, hregion, rfl⟩ := createPool_eq hc
  have hfresh : m.pool? id = none := by
    cases hp : m.pool? id with
    | none => rfl
    | some q =>
        have hlt := ha.sound.lt_next (ha.region_live hp)
        exact absurd hlt (Nat.not_lt.mpr (Nat.le_of_eq (Heap.request_granted hregion).1.symm))
  have hzero : ∀ k, heap.byteAt id k = 0 := by
    intro k
    rw [Heap.byteAt, Heap.block?_granted hregion]
    rfl
  refine tends_newPool ht hfresh (fun j => Table.get?_insert m.pools id j _)
    (Heap.confined_request hregion).trace hshape (fun j hj k => ?_) hzero others ha hclean
  exact Heap.byteAt_congr (by rw [Heap.block?_request hregion, if_neg hj]) k

theorem tends_createPool_none {count blockSize : Nat}
    (hc : m.createPool count blockSize = (none, m')) : m.Tends [] m' [] := by
  have htries := m.tries_createPool count blockSize
  rw [hc] at htries
  exact tends_heap (trade_createPool_none hc) (htries.2 rfl) htries.1.confined fun b hb => hb

/-- A block that is handed out is zero. -/
theorem tends_acquire (hc : m.acquire id = (some b, m')) :
    m.Tends [.pool id] m' [.pool id, .block b] := by
  have ht := trade_acquire hc
  obtain ⟨p, free, hp, hfree, hb, rfl⟩ := acquire_some hc
  refine tends_record ht hp (fun j => Table.get?_insert m.pools id j _) rfl rfl
    (fun _ _ _ _ _ => .inl rfl) (fun i hi => .inl (hfree ▸ List.mem_cons_of_mem _ hi))
    fun others _ hclean c hm q hq => ?_
  have hcb : c = b := by simpa [Holder.poolBlocks] using hm
  have hpool : b.pool = id := congrArg PoolBlock.pool hb
  have hlength : b.length = 0 := congrArg PoolBlock.length hb
  rw [hcb, hpool] at hq
  have hself := Table.get?_insert_self m.pools id
    { p with free, inUse := p.inUse + 1, users := p.users + 1 }
  rw [show (m.pools.insert id _).get? id = some q from hq] at hself
  cases hself
  rw [hcb, hpool]
  refine ⟨hlength ▸ Nat.zero_le _, fun k _ hk => ?_⟩
  exact hclean.free hp b.index (hfree ▸ List.mem_cons_self) k hk

/-- A byte of a block is in the place that the block takes. -/
theorem within_place {j : BlockId} {k : Nat} (hin : j = b.pool ∧ blockOffset p b.index ≤ k ∧
    k < blockOffset p b.index + p.blockSize) :
    j = b.pool ∧ ∃ i n, (b.pool, i) ∈ placesOf [.block b] ∧ n < p.blockSize ∧
      k = blockOffset p i + n := by
  obtain ⟨hj, hlow, hhigh⟩ := hin
  refine ⟨hj, b.index, k - blockOffset p b.index, by simp [Holder.places], ?_, ?_⟩
  · omega
  · omega

/-- What a write leaves in the region of a block: its bytes, zeros behind them where the block was
in use, and everything else as it was. -/
theorem byteAt_writeBlock (hp : m.pool? b.pool = some p) (hlive : (m.heap.block? b.pool).isSome)
    (hc : m.writeBlock b data = (some b', m')) (j : BlockId) (k : Nat) :
    m'.heap.byteAt j k =
      if j = b.pool ∧ blockOffset p b.index ≤ k ∧ k < blockOffset p b.index + data.length then
        data.getD (k - blockOffset p b.index) 0
      else if j = b.pool ∧ blockOffset p b.index ≤ k ∧ k < blockOffset p b.index + b.length then 0
      else m.heap.byteAt j k := by
  obtain ⟨q, hq, -, -, rfl⟩ := writeBlock_eq hc
  rw [hp] at hq
  cases hq
  have hwiped : ((m.heap.wipe b.pool (blockOffset p b.index) b.length).block? b.pool).isSome := by
    simpa [Heap.wipe] using hlive
  rw [Heap.byteAt_write hwiped, Heap.byteAt_wipe]

theorem writeBlock_some (hc : m.writeBlock b data = (some b', m')) :
    ∃ p, m.pool? b.pool = some p ∧ data.length ≤ p.blockSize ∧
      b' = { b with length := data.length } ∧ m'.pools = m.pools ∧
      m'.heap.trace = m.heap.trace := by
  obtain ⟨p, hp, hfits, hb', rfl⟩ := writeBlock_eq hc
  exact ⟨p, hp, hfits, hb', rfl, rfl⟩

/-- A write clears what the block had in use, and puts its own bytes there. -/
theorem tends_writeBlock (hc : m.writeBlock b data = (some b', m')) :
    m.Tends [.block b] m' [.block b'] := by
  have ht := trade_writeBlock hc
  obtain ⟨p, hp, hfits, hb', hpools, htrace⟩ := writeBlock_some hc
  have hpool : ∀ j, m'.pool? j = m.pool? j := fun j => by rw [pool?, hpools, pool?]
  refine tends_record ht hp (fun j => ?_) rfl htrace (fun others ha hclean j k => ?_)
    (fun i hi => .inl hi) fun others ha hclean c hm q hq => ?_
  · rw [hpool]
    split
    · rename_i hj
      rw [hj, hp]
    · rfl
  · have hold := hclean.fits b (by simp [Holder.poolBlocks]) hp
    rw [byteAt_writeBlock hp (ha.region_live hp) hc]
    by_cases hin : j = b.pool ∧ blockOffset p b.index ≤ k ∧
        k < blockOffset p b.index + p.blockSize
    · exact .inr (within_place hin)
    · left
      rw [if_neg fun hdata => hin ⟨hdata.1, hdata.2.1, by omega⟩,
        if_neg fun hused => hin ⟨hused.1, hused.2.1, by omega⟩]
  · have hcb : c = b' := by simpa [Holder.poolBlocks] using hm
    subst hcb hb'
    rw [hpool, hp] at hq
    cases hq
    refine ⟨hfits, fun k hlow hk => ?_⟩
    rw [byteAt_writeBlock hp (ha.region_live hp) hc, if_neg (by simp only at hlow ⊢; omega)]
    split
    · rfl
    · rename_i hnot
      refine hclean.tail b (by simp [Holder.poolBlocks]) hp k ?_ hk
      simp only [true_and, not_and] at hnot
      omega

/-- A block that is handed out and written. -/
theorem tends_acquireWith (hc : m.acquireWith id data = (some b, m')) :
    m.Tends [.pool id] m' [.pool id, .block b] := by
  obtain ⟨fresh, middle, hacquire, hwritten⟩ := acquireWith_some hc
  have hwrite := (tends_writeBlock hwritten).frame [.pool id]
  have hswap : SameHoldings [.pool id, .block fresh] ([.block fresh] ++ [.pool id]) :=
    .of_perm (List.Perm.swap _ _ _)
  exact (tends_acquire hacquire).trans (hwrite.congr hswap (.of_perm (List.Perm.swap _ _ _)))

/-- What taking a block back leaves in the region: zeros all over the block. -/
theorem byteAt_takeBack (m : Memory) (p : Pool) (b : PoolBlock) (j : BlockId) (k : Nat) :
    (m.takeBack p b).heap.byteAt j k =
      if j = b.pool ∧ blockOffset p b.index ≤ k ∧ k < blockOffset p b.index + p.blockSize then 0
      else m.heap.byteAt j k :=
  Heap.byteAt_wipe m.heap b.pool j (blockOffset p b.index) p.blockSize k

/-- A block that comes back is wiped over its whole size. -/
theorem tends_releaseBlock (m : Memory) (b : PoolBlock) :
    m.Tends [.block b] (m.releaseBlock b) [] := by
  refine tends_of_pool b.pool (by simp [Holder.pools]) fun p hp => ?_
  rw [releaseBlock_of_pool hp]
  refine Tends.trans ?_ (tends_dropPool _ b.pool)
  refine tends_record (trade_takeBack hp) hp (m.pool?_takeBack p b) rfl rfl
    (fun others ha hclean j k => ?_) (fun i hi => ?_) fun _ _ _ c hm => by cases hm
  · rw [byteAt_takeBack]
    by_cases hin : j = b.pool ∧ blockOffset p b.index ≤ k ∧
        k < blockOffset p b.index + p.blockSize
    · exact .inr (within_place hin)
    · left
      rw [if_neg hin]
  · have hcases : i ∈ p.free ∨ i = b.index := by
      unfold Pool.putBack at hi
      simp only at hi
      split at hi
      · simpa using hi
      · exact .inl hi
    refine hcases.imp id fun heq k hk => ?_
    rw [byteAt_takeBack, if_pos ⟨rfl, by rw [heq]; omega, by rw [heq]; omega⟩]

/-- The raw buffer of a block that has bytes in use. -/
theorem blockRaw_eq (hp : m.pool? b.pool = some p) (hused : b.length ≠ 0) :
    m.blockRaw b = ⟨.native b.pool (blockOffset p b.index), Int32.ofNat b.length⟩ := by
  unfold blockRaw
  rw [hp]
  exact if_neg hused

/-- It describes exactly these bytes. -/
theorem length_blockRaw (hp : m.pool? b.pool = some p) (hused : b.length ≠ 0)
    (hlimit : b.length ≤ nativeSizeLimit) : (m.blockRaw b).length = b.length := by
  rw [blockRaw_eq hp hused]
  exact RawBuffer.length_of_size rfl hlimit

/-- What native code writes into a block stays inside of what the block has in use. -/
theorem heap_fill (hp : m.pool? b.pool = some p) (hlimit : b.length ≤ nativeSizeLimit)
    (offset : Nat) (data : Bytes) :
    (m.fill b offset data).heap = m.heap ∨ offset + data.length ≤ b.length ∧
      (m.fill b offset data).heap =
        m.heap.write b.pool (blockOffset p b.index + offset) data := by
  unfold fill RawBuffer.overwrite
  by_cases hused : b.length = 0
  · left
    unfold blockRaw
    rw [hp]
    simp [hused, RawBuffer.empty]
  · have hlength := length_blockRaw hp hused hlimit
    rw [blockRaw_eq hp hused] at hlength ⊢
    simp only [hlength]
    by_cases hin : offset + data.length ≤ b.length
    · exact .inr ⟨hin, if_pos hin⟩
    · exact .inl (if_neg hin)

/-- Native code writes inside of what the block has in use. -/
theorem tends_fill (m : Memory) (b : PoolBlock) (offset : Nat) (data : Bytes) :
    m.Tends [.block b] (m.fill b offset data) [.block b] := by
  refine tends_of_pool b.pool (by simp [Holder.pools]) fun p hp others ha hclean => ?_
  have hmem : b ∈ poolBlocksOf ([.block b] ++ others) := by simp [Holder.poolBlocks]
  have hfits := hclean.fits b hmem hp
  have hlimit := Nat.le_trans hfits (hclean.limit hp)
  rcases heap_fill hp hlimit offset data with hheap | ⟨hin, hheap⟩
  · have hsame : m.fill b offset data = m := by
      change { m with heap := (m.fill b offset data).heap } = m
      rw [hheap]
    rw [hsame]
    exact Tends.refl m _ others ha hclean
  · have hfill : m.fill b offset data =
        { m with heap := m.heap.write b.pool (blockOffset p b.index + offset) data } := by
      change { m with heap := (m.fill b offset data).heap } = _
      rw [hheap]
    rw [hfill]
    have ht : m.Trade [.block b]
        { m with heap := m.heap.write b.pool (blockOffset p b.index + offset) data } [.block b] :=
      trade_region hp (fun hs => hs.change_update b.pool _) (by simp) (.refl _)
    have hbytes : ∀ j k, (m.heap.write b.pool (blockOffset p b.index + offset) data).byteAt j k =
        if j = b.pool ∧ blockOffset p b.index + offset ≤ k ∧
          k < blockOffset p b.index + offset + data.length then
          data.getD (k - (blockOffset p b.index + offset)) 0
        else m.heap.byteAt j k :=
      fun j k => Heap.byteAt_write (ha.region_live hp) j _ data k
    refine tends_record ht hp (fun j => ?_) rfl rfl (fun _ _ _ j k => ?_) (fun i hi => .inl hi)
      (fun _ _ _ c hm q hq => ?_) others ha hclean
    · by_cases hj : j = b.pool
      · rw [if_pos hj, hj]
        exact hp
      · rw [if_neg hj]
        rfl
    · rw [hbytes]
      split
      · rename_i hwritten
        obtain ⟨hj, hlow, hhigh⟩ := hwritten
        refine .inr ⟨hj, b.index, k - blockOffset p b.index, by simp [Holder.places], ?_, ?_⟩ <;>
          omega
      · exact .inl rfl
    · have hcb : c = b := by simpa [Holder.poolBlocks] using hm
      subst hcb
      rw [show m.pool? c.pool = some q from hq] at hp
      cases hp
      refine ⟨hfits, fun k hlow hk => ?_⟩
      rw [hbytes, if_neg fun hwritten => by omega]
      exact hclean.tail c hmem hq k hlow hk

theorem inspectBlock_eq (hp : m.pool? id = some p) {i : Nat} (hi : i < p.count) :
    m.inspectBlock id i = some (m.heap.read id (blockOffset p i) p.blockSize) := by
  unfold inspectBlock
  rw [hp]
  exact if_pos hi

/-- A place with the same bytes is inspected alike. -/
theorem inspectBlock_congr {i : Nat}
    (hpool : ∀ q, m'.pool? id = some q → ∃ p, m.pool? id = some p ∧ q.count = p.count ∧
      q.blockSize = p.blockSize ∧ ∀ k < p.blockSize,
        m'.heap.byteAt id (blockOffset p i + k) = m.heap.byteAt id (blockOffset p i + k))
    (hlives : (m.pool? id).isSome → (m'.pool? id).isSome) :
    m'.inspectBlock id i = m.inspectBlock id i := by
  unfold inspectBlock
  cases hq : m'.pool? id with
  | none =>
      cases hp : m.pool? id with
      | none => rfl
      | some p =>
          rw [hq, hp] at hlives
          cases hlives rfl
  | some q =>
      obtain ⟨p, hp, hcount, hsize, hbytes⟩ := hpool q hq
      rw [hp]
      simp only [hcount, hsize, blockOffset_congr hsize]
      rw [Heap.read_of_bytes hbytes]

/-- A write leaves exactly its bytes. -/
theorem read_writeBlock (hp : m.pool? b.pool = some p) (hlive : (m.heap.block? b.pool).isSome)
    (hc : m.writeBlock b data = (some b', m')) : m'.blockBytes b' = data := by
  obtain ⟨p', hp', -, rfl, hpools, -⟩ := writeBlock_some hc
  rw [hp] at hp'
  cases hp'
  have hpool : m'.pool? b.pool = some p := by rw [pool?, hpools, ← pool?, hp]
  unfold blockBytes
  simp only [hpool]
  refine Heap.read_of_data fun k hk => ?_
  rw [byteAt_writeBlock hp hlive hc, if_pos ⟨rfl, by omega, by omega⟩, Nat.add_sub_cancel_left]

/-- A write is refused only when its bytes do not fit. -/
theorem writeBlock_eq_none_iff (hp : m.pool? b.pool = some p) :
    (m.writeBlock b data).1 = none ↔ p.blockSize < data.length := by
  unfold writeBlock
  rw [hp]
  by_cases hfits : data.length > p.blockSize <;> simp [hfits]

/-- A write changes no other block. -/
theorem inspectBlock_writeBlock (hp : m.pool? b.pool = some p)
    (hlive : (m.heap.block? b.pool).isSome) (hfits : b.length ≤ p.blockSize) {j : PoolId} {i : Nat}
    (hother : (j, i) ≠ (b.pool, b.index)) :
    (m.writeBlock b data).2.inspectBlock j i = m.inspectBlock j i := by
  rcases hc : m.writeBlock b data with ⟨_ | b', m'⟩
  · rw [writeBlock_none hc]
  · obtain ⟨p', hp', hdata, -, hpools, -⟩ := writeBlock_some hc
    rw [hp] at hp'
    cases hp'
    have hpool : m'.pool? j = m.pool? j := by rw [pool?, hpools, pool?]
    refine inspectBlock_congr (fun q hq => ?_) fun hsome => hpool ▸ hsome
    rw [hpool] at hq
    refine ⟨q, hq, rfl, rfl, fun k hk => ?_⟩
    rw [byteAt_writeBlock hp hlive hc]
    by_cases hj : j = b.pool
    · subst hj
      rw [hp] at hq
      cases hq
      have hi : i ≠ b.index := fun heq => hother (by rw [heq])
      rcases blockOffset_apart p hi with happart | happart
      · rw [if_neg fun h => by omega, if_neg fun h => by omega]
      · rw [if_neg fun h => by omega, if_neg fun h => by omega]
    · rw [if_neg fun h => hj h.1, if_neg fun h => hj h.1]

/-- What a drop leaves of the pools that are still there. -/
theorem dropPool_leaves {j : PoolId} (hq : (m.dropPool id).pool? j = some q) :
    (∃ p, m.pool? j = some p ∧ q.count = p.count ∧ q.blockSize = p.blockSize) ∧
      (m.dropPool id).heap.block? j = m.heap.block? j := by
  unfold dropPool at hq ⊢
  cases hp : m.pool? id with
  | none =>
      rw [hp] at hq
      exact ⟨⟨q, hq, rfl, rfl⟩, rfl⟩
  | some p =>
      rw [hp] at hq
      simp only at hq ⊢
      split at hq <;> rename_i hlast
      · rw [if_pos hlast]
        have herase : (m.pools.erase id).get? j = some q := hq
        rw [Table.get?_erase] at herase
        split at herase
        · cases herase
        · rename_i hj
          exact ⟨⟨q, herase, rfl, rfl⟩, by rw [Heap.block?_release, if_neg hj]⟩
      · rw [if_neg hlast]
        have hinsert : (m.pools.insert id { p with users := p.users - 1 }).get? j = some q := hq
        rw [Table.get?_insert] at hinsert
        split at hinsert
        · rename_i hj
          cases hinsert
          exact ⟨⟨p, hj ▸ hp, rfl, rfl⟩, rfl⟩
        · exact ⟨⟨q, hinsert, rfl, rfl⟩, rfl⟩

/-- A release changes no other block of a pool that is still there. -/
theorem inspectBlock_releaseBlock (hp : m.pool? b.pool = some p) {j : PoolId} {i : Nat}
    (hother : (j, i) ≠ (b.pool, b.index)) (hlives : ((m.releaseBlock b).pool? j).isSome) :
    (m.releaseBlock b).inspectBlock j i = m.inspectBlock j i := by
  refine inspectBlock_congr (fun q hq => ?_) fun _ => hlives
  rw [releaseBlock_of_pool hp] at hq ⊢
  obtain ⟨⟨q₁, hq₁, hcount, hsize⟩, hblock⟩ := dropPool_leaves hq
  rw [pool?_takeBack] at hq₁
  split at hq₁ <;> rename_i hj
  · subst hj
    cases hq₁
    have hi : i ≠ b.index := fun heq => hother (by rw [heq])
    refine ⟨p, hp, hcount, hsize, fun k hk => ?_⟩
    rw [Heap.byteAt_congr hblock, byteAt_takeBack]
    rcases blockOffset_apart p hi with happart | happart <;> rw [if_neg fun h => by omega]
  · refine ⟨q₁, hq₁, hcount, hsize, fun k hk => ?_⟩
    rw [Heap.byteAt_congr hblock, byteAt_takeBack, if_neg fun h => hj h.1]

end Memory

end NativeBoundary

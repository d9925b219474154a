import NativeBoundary.Proofs.Memory.Attempts
import NativeBoundary.Proofs.Memory.Places

/-!
# What the blocks of a pool hold

The blocks of a pool lie side by side in one region, so what a block holds is not protected by an
allocation of its own: it is safe because nobody writes beyond the bytes of its own block.  And a
write wipes only the bytes that the block had in use, so that nothing of an earlier use is left
because everything behind those bytes is zero already.  Neither fact can be seen in one operation
alone.

`Memory.Clean m holders` is the invariant behind them: free blocks are zero, and so is every block
that is held, from its length on.  `Memory.Tends m old m' new` is a trade that keeps it, and that
leaves the blocks in other hands as they are, byte by byte; when it ends a pool, the region was
zero when it was freed.

* `Heap.byteAt_write`, `Heap.byteAt_wipe`, `Heap.read_eq_map` — the view of memory byte by byte;
* `Memory.Tends.trans`, `Memory.Tends.frame`, `Memory.Tends.congr` — how such trades compose;
* `Memory.tends_heap` — work that touches no region;
* `Memory.tends_record` — work on the record of a pool and on places of its own.
-/

namespace NativeBoundary

/-- What is read from a block are its bytes. -/
theorem Block.read_eq_map (b : Block) (offset n : Nat) :
    b.read offset n = (List.range n).map fun k => b.byteAt (offset + k) := by
  refine List.ext_getElem? fun k => ?_
  by_cases hk : k < n
  · rw [List.getElem?_map, List.getElem?_range hk, Option.map_some, byteAt,
      List.getD_eq_getElem?_getD]
    unfold read
    by_cases hlead : offset + k < b.lead.length
    · rw [List.getElem?_append_left (by simp; omega), List.getElem?_take_of_lt hk,
        List.getElem?_drop, List.getElem?_eq_getElem hlead]
      rfl
    · rw [List.getElem?_append_right (by simp; omega), Bytes.zeros, List.getElem?_replicate,
        if_pos (by simp; omega), List.getElem?_eq_none (by omega)]
      rfl
  · rw [List.getElem?_eq_none (by simp; omega), List.getElem?_eq_none (by simp; omega)]

namespace Heap

variable {h h' : Heap} {id : BlockId}

/-- A byte of a block; a block that is not live has none but zeros. -/
def byteAt (h : Heap) (id : BlockId) (k : Nat) : UInt8 := ((h.block? id).map (·.byteAt k)).getD 0

theorem byteAt_congr (hb : h'.block? id = h.block? id) (k : Nat) :
    h'.byteAt id k = h.byteAt id k := by
  rw [byteAt, hb, byteAt]

theorem read_eq_map (h : Heap) (id : BlockId) (offset n : Nat) :
    h.read id offset n = (List.range n).map fun k => h.byteAt id (offset + k) := by
  unfold read byteAt
  cases h.block? id with
  | some b => exact b.read_eq_map offset n
  | none => simp [Bytes.zeros]

/-- Equal bytes are read alike. -/
theorem read_of_bytes {offset n : Nat}
    (hbytes : ∀ k < n, h'.byteAt id (offset + k) = h.byteAt id (offset + k)) :
    h'.read id offset n = h.read id offset n := by
  rw [read_eq_map, read_eq_map]
  exact List.map_congr_left fun k hk => hbytes k (List.mem_range.mp hk)

/-- Zeros are read as zeros. -/
theorem read_of_zero {offset n : Nat} (hzero : ∀ k < n, h.byteAt id (offset + k) = 0) :
    h.read id offset n = Bytes.zeros n := by
  rw [read_eq_map, List.map_congr_left fun k hk => hzero k (List.mem_range.mp hk)]
  simp [Bytes.zeros]

/-- Data that stand in a block byte by byte are read from it. -/
theorem read_of_data {offset : Nat} {data : Bytes}
    (hdata : ∀ k < data.length, h.byteAt id (offset + k) = data.getD k 0) :
    h.read id offset data.length = data := by
  rw [read_eq_map]
  refine List.ext_getElem (by simp) fun k hk hk' => ?_
  rw [List.getElem_map, List.getElem_range, hdata k hk', List.getD_eq_getElem?_getD,
    List.getElem?_eq_getElem hk', Option.getD_some]

/-- What is read in one go may be read in two. -/
theorem read_append (h : Heap) (id : BlockId) (offset n k : Nat) :
    h.read id offset (n + k) = h.read id offset n ++ h.read id (offset + n) k := by
  rw [read_eq_map, read_eq_map, read_eq_map, List.range_add, List.map_append, List.map_map]
  refine congrArg _ (List.map_congr_left fun i _ => ?_)
  rw [Function.comp_apply, Nat.add_assoc]

/-- Wiping clears the bytes it names and leaves the others. -/
theorem byteAt_wipe (h : Heap) (id j : BlockId) (offset n k : Nat) :
    (h.wipe id offset n).byteAt j k =
      if j = id ∧ offset ≤ k ∧ k < offset + n then 0 else h.byteAt j k := by
  unfold byteAt wipe
  rw [block?_update]
  by_cases hj : j = id
  · cases hb : h.block? j with
    | none => simp [hj]
    | some b => simp [hj, Block.byteAt_wipe]
  · simp [hj]

/-- Writing changes the bytes it covers, in a live block, and leaves the others. -/
theorem byteAt_write (hl : (h.block? id).isSome) (j : BlockId) (offset : Nat) (data : Bytes)
    (k : Nat) :
    (h.write id offset data).byteAt j k =
      if j = id ∧ offset ≤ k ∧ k < offset + data.length then data.getD (k - offset) 0
      else h.byteAt j k := by
  unfold byteAt write
  rw [block?_update]
  by_cases hj : j = id
  · obtain ⟨b, hb⟩ := Option.isSome_iff_exists.mp hl
    simp [hj, hb, Block.byteAt_write]
  · simp [hj]

end Heap

namespace Memory

variable {m m' m'' : Memory} {id : PoolId} {p p' : Pool} {old new mid xs ys others : List Holder}

/-- Where a block starts depends on the block size alone. -/
theorem blockOffset_congr (hsize : p'.blockSize = p.blockSize) (i : Nat) :
    blockOffset p' i = blockOffset p i := by
  rw [blockOffset, blockOffset, hsize]

/-- What can be asked for is bounded: blocks fit the size field, and the region has a length. -/
theorem isPoolShape_le {count blockSize : Nat} (hs : isPoolShape count blockSize = true) :
    blockSize ≤ nativeSizeLimit ∧ count * blockSize ≤ largestLength := by
  simp only [isPoolShape, Bool.and_eq_true, decide_eq_true_eq] at hs
  exact ⟨hs.1.2, hs.2⟩

/-- No block of a pool carries bytes beyond those in use: free blocks are zero, and blocks that are
held are zero from their length on. -/
structure Clean (m : Memory) (holders : List Holder) : Prop where
  shape : ∀ {id p}, m.pool? id = some p → isPoolShape p.count p.blockSize = true
  free : ∀ {id p}, m.pool? id = some p → ∀ i ∈ p.free, ∀ k < p.blockSize,
    m.heap.byteAt id (blockOffset p i + k) = 0
  fits : ∀ b ∈ poolBlocksOf holders, ∀ {p}, m.pool? b.pool = some p → b.length ≤ p.blockSize
  tail : ∀ b ∈ poolBlocksOf holders, ∀ {p}, m.pool? b.pool = some p → ∀ k, b.length ≤ k →
    k < p.blockSize → m.heap.byteAt b.pool (blockOffset p b.index + k) = 0

/-- New memory has no pools. -/
theorem clean_empty : Clean {} [] where
  shape := fun hp => by cases hp
  free := fun hp => by cases hp
  fits := fun _ hb => by cases hb
  tail := fun _ hb => by cases hb

theorem Clean.limit (hc : m.Clean xs) (hp : m.pool? id = some p) : p.blockSize ≤ nativeSizeLimit :=
  (isPoolShape_le (hc.shape hp)).1

/-- Fewer holders have fewer blocks. -/
theorem Clean.mono (hc : m.Clean xs) (hsub : ∀ b ∈ poolBlocksOf ys, b ∈ poolBlocksOf xs) :
    m.Clean ys where
  shape := hc.shape
  free := hc.free
  fits := fun b hb => hc.fits b (hsub b hb)
  tail := fun b hb => hc.tail b (hsub b hb)

/-- A region was freed, once it was zero throughout. -/
def Ended (m : Memory) (id : PoolId) (p : Pool) : Prop :=
  ∃ last, .freed id last (.payload (p.count * p.blockSize) true) ∈ m.heap.trace ∧
    last.size = p.count * p.blockSize ∧ last.Clear (p.count * p.blockSize)

/-- What a trade does that keeps pools clean, whoever else there is. -/
structure Tended (m : Memory) (others : List Holder) (m' : Memory) (after : List Holder) :
    Prop where
  accounts : m'.Accounts after
  spares : m.Spares others m'
  clean : m'.Clean after
  trace : m.heap.trace <:+ m'.heap.trace
  /-- Blocks in other hands hold what they held. -/
  places : ∀ x ∈ placesOf others, ∀ {p}, m.pool? x.1 = some p → ∀ k < p.blockSize,
    m'.heap.byteAt x.1 (blockOffset p x.2 + k) = m.heap.byteAt x.1 (blockOffset p x.2 + k)
  ends : ∀ {id p}, m.pool? id = some p → m'.pool? id = none → m'.Ended id p

/-- A trade that keeps pools clean. -/
def Tends (m : Memory) (old : List Holder) (m' : Memory) (new : List Holder) : Prop :=
  ∀ others, m.Accounts (old ++ others) → m.Clean (old ++ others) →
    m.Tended others m' (new ++ others)

/-- Two lists of holders with the same stakes in memory and the same blocks of pools. -/
structure SameHoldings (xs ys : List Holder) : Prop where
  stakes : SameStakes xs ys
  held : ∀ b, b ∈ poolBlocksOf xs ↔ b ∈ poolBlocksOf ys

theorem SameHoldings.refl (xs : List Holder) : SameHoldings xs xs := ⟨.refl xs, fun _ => .rfl⟩

theorem SameHoldings.symm (hs : SameHoldings xs ys) : SameHoldings ys xs :=
  ⟨hs.stakes.symm, fun b => (hs.held b).symm⟩

theorem SameHoldings.trans {zs : List Holder} (hs : SameHoldings xs ys)
    (ht : SameHoldings ys zs) : SameHoldings xs zs :=
  ⟨hs.stakes.trans ht.stakes, fun b => (hs.held b).trans (ht.held b)⟩

theorem SameHoldings.of_perm (hp : xs.Perm ys) : SameHoldings xs ys :=
  ⟨.of_perm hp, fun _ => (hp.flatMap_right Holder.poolBlocks).mem_iff⟩

/-- Two parts change places. -/
theorem SameHoldings.swap (xs ys rest : List Holder) :
    SameHoldings (xs ++ (ys ++ rest)) (ys ++ (xs ++ rest)) :=
  .of_perm (List.perm_append_comm_assoc xs ys rest)

theorem SameHoldings.append_right (hs : SameHoldings xs ys) (others : List Holder) :
    SameHoldings (xs ++ others) (ys ++ others) := by
  refine ⟨hs.stakes.append_right others, fun b => ?_⟩
  simp only [poolBlocksOf_append, List.mem_append, hs.held b]

theorem SameHoldings.append_left (hs : SameHoldings xs ys) (others : List Holder) :
    SameHoldings (others ++ xs) (others ++ ys) := by
  refine ⟨hs.stakes.append_left others, fun b => ?_⟩
  simp only [poolBlocksOf_append, List.mem_append, hs.held b]

theorem Clean.congr (hc : m.Clean xs) (hs : SameHoldings xs ys) : m.Clean ys :=
  hc.mono fun b hb => (hs.held b).mpr hb

/-- A pool that lives on has the shape that it had. -/
theorem Spares.same_shape {holders : List Holder} (hs : m.Spares others m')
    (ha : m.Accounts holders) (hp : m.pool? id = some p) (hp' : m'.pool? id = some p') :
    p'.count = p.count ∧ p'.blockSize = p.blockSize := by
  obtain ⟨q, hq, hcount, hsize⟩ := hs.shape (ha.sound.lt_next (ha.region_live hp)) hp'
  rw [hp] at hq
  cases hq
  exact ⟨hcount, hsize⟩

theorem Tended.refl {holders : List Holder} (ha : m.Accounts holders) (hc : m.Clean holders) :
    m.Tended others m holders := by
  refine ⟨ha, ⟨Nat.le_refl _, fun _ _ => rfl, fun _ hp => ⟨_, hp, rfl, rfl⟩⟩, hc,
    List.suffix_refl _, fun _ _ _ _ _ _ => rfl, fun hp hnone => ?_⟩
  rw [hp] at hnone
  cases hnone

theorem Tends.refl (m : Memory) (xs : List Holder) : m.Tends xs m xs := fun _ ha hc => .refl ha hc

/-- Work after work, beside holders who are there afterwards. -/
theorem Tended.trans {holders after later : List Holder} (ha : m.Accounts holders)
    (first : m.Tended others m' after) (second : m'.Tended others m'' later)
    (hothers : ∀ id ∈ poolsOf others, id ∈ poolsOf after) : m.Tended others m'' later := by
  refine ⟨second.accounts, first.spares.trans second.spares, second.clean,
    first.trace.trans second.trace, fun x hx p hp k hk => ?_, fun {id p} hp hgone => ?_⟩
  · -- the pool of a block in other hands lives on
    obtain ⟨p', hp'⟩ := first.accounts.pool_live (hothers _ (pool_of_placesOf others hx))
    obtain ⟨-, hsize⟩ := first.spares.same_shape ha hp hp'
    have hsame := second.places x hx hp' k (hsize ▸ hk)
    rw [blockOffset_congr hsize] at hsame
    exact hsame.trans (first.places x hx hp k hk)
  · cases hp' : m'.pool? id with
    | none =>
        obtain ⟨last, hfreed, hlast⟩ := first.ends hp hp'
        exact ⟨last, second.trace.subset hfreed, hlast⟩
    | some p' =>
        obtain ⟨hcount, hsize⟩ := first.spares.same_shape ha hp hp'
        have hended := second.ends hp' hgone
        unfold Ended at hended ⊢
        rw [hcount, hsize] at hended
        exact hended

/-- Fewer others are left alone as well. -/
theorem Tended.mono {after : List Holder} (ht : m.Tended (xs ++ ys) m' after) :
    m.Tended ys m' after :=
  { ht with
    spares := ht.spares.mono
    places := fun x hx => ht.places x (by simp [hx]) }

/-- Two trades, one after the other. -/
theorem Tends.trans (first : m.Tends old m' mid) (second : m'.Tends mid m'' new) :
    m.Tends old m'' new := by
  intro others ha hclean
  have hfirst := first others ha hclean
  have hsecond := second others hfirst.accounts hfirst.clean
  refine hfirst.trans ha hsecond fun id hid => ?_
  rw [poolsOf_append]
  exact List.mem_append_right _ hid

/-- An operation leaves bystanders as they are. -/
theorem Tends.frame (ht : m.Tends old m' new) (xs : List Holder) :
    m.Tends (old ++ xs) m' (new ++ xs) := by
  intro others ha hclean
  rw [List.append_assoc] at ha hclean
  have hdone := ht (xs ++ others) ha hclean
  rw [← List.append_assoc] at hdone
  exact hdone.mono

/-- Only holdings matter. -/
theorem Tends.congr (ht : m.Tends old m' new) (hold : SameHoldings xs old)
    (hnew : SameHoldings new ys) : m.Tends xs m' ys := by
  intro others ha hclean
  have hdone := ht others (ha.congr (hold.append_right others).stakes)
    (hclean.congr (hold.append_right others))
  exact { hdone with
    accounts := hdone.accounts.congr (hnew.append_right others).stakes
    clean := hdone.clean.congr (hnew.append_right others) }

/-- Work on the heap alone, which changes no block from before but those of the holders that it
concerns. -/
theorem tends_heap (ht : m.Trade old m' new) (hpools : m'.pools = m.pools)
    (hc : m.heap.Confined (blocksOf old) m'.heap)
    (hheld : ∀ b ∈ poolBlocksOf new, b ∈ poolBlocksOf old) : m.Tends old m' new := by
  intro others ha hclean
  obtain ⟨ha', hspares⟩ := ht others ha
  have hpool : ∀ id, m'.pool? id = m.pool? id := fun id => by rw [pool?, hpools, pool?]
  -- the region of a pool is in nobody's hands, so it is not one of the blocks that may change
  have hbytes : ∀ {id p}, m.pool? id = some p → ∀ k, m'.heap.byteAt id k = m.heap.byteAt id k := by
    intro id p hp k
    have hlive := ha.region_live hp
    refine Heap.byteAt_congr (hc.kept id (ha.sound.lt_next hlive) fun hm => ?_) k
    rw [ha.pool?_of_held (by simp [hm])] at hp
    cases hp
  have hmem : ∀ b ∈ poolBlocksOf (new ++ others), b ∈ poolBlocksOf (old ++ others) := by
    intro b hb
    rw [poolBlocksOf_append, List.mem_append] at hb ⊢
    exact hb.imp_left (hheld b)
  refine ⟨ha', hspares, ⟨fun {id p} hp => ?_, fun {id p} hp i hi k hk => ?_, fun b hb {p} hp => ?_,
    fun b hb {p} hp k hlow hk => ?_⟩, hc.trace, fun x _ p hp k _ => hbytes hp _,
    fun {id p} hp hgone => ?_⟩
  · exact hclean.shape (hpool id ▸ hp)
  · rw [hpool] at hp
    rw [hbytes hp]
    exact hclean.free hp i hi k hk
  · rw [hpool] at hp
    exact hclean.fits b (hmem b hb) hp
  · rw [hpool] at hp
    rw [hbytes hp]
    exact hclean.tail b (hmem b hb) hp k hlow hk
  · rw [hpool, hp] at hgone
    cases hgone

/-- The places of a holder are none of the places of others. -/
theorem Accounts.places_apart {i : Nat} (ha : m.Accounts (old ++ others))
    (hold : (id, i) ∈ placesOf old) : (id, i) ∉ placesOf others := by
  intro hothers
  have hmem : (id, i) ∈ placesOf (old ++ others) := by simp [hold]
  obtain ⟨p, hp⟩ := ha.pool_live (pool_of_placesOf (old ++ others) hmem)
  have hcount := (ha.pools id).places i
  have hone := List.count_pos_iff.mpr hold
  have htwo := List.count_pos_iff.mpr hothers
  simp only [capacity, placesOf_append, List.count_append] at hcount
  rw [show m.pool? id = some p from hp] at hcount
  simp only at hcount
  split at hcount <;> omega

/-- A byte of one place is not a byte of another. -/
theorem blockOffset_ne (p : Pool) {i j k n : Nat} (hij : i ≠ j) (hk : k < p.blockSize)
    (hn : n < p.blockSize) : blockOffset p i + k ≠ blockOffset p j + n := by
  rcases blockOffset_apart p hij with h | h <;> omega

/-- Work on the record of a pool and on places of its own.  What is left to show is that places
which became free are zero, and so are the tails of blocks that are held now. -/
theorem tends_record (ht : m.Trade old m' new) (hp : m.pool? id = some p)
    (hm : ∀ j, m'.pool? j = if j = id then some p' else m.pool? j)
    (hsize : p'.blockSize = p.blockSize) (htrace : m'.heap.trace = m.heap.trace)
    (hbytes : ∀ others, m.Accounts (old ++ others) → m.Clean (old ++ others) → ∀ j k,
      m'.heap.byteAt j k = m.heap.byteAt j k ∨ j = id ∧ ∃ i n, (id, i) ∈ placesOf old ∧
        n < p.blockSize ∧ k = blockOffset p i + n)
    (hfree : ∀ i ∈ p'.free, i ∈ p.free ∨
      ∀ k < p.blockSize, m'.heap.byteAt id (blockOffset p i + k) = 0)
    (hnew : ∀ others, m.Accounts (old ++ others) → m.Clean (old ++ others) →
      ∀ b ∈ poolBlocksOf new, ∀ q, m'.pool? b.pool = some q → b.length ≤ q.blockSize ∧
        ∀ k, b.length ≤ k → k < q.blockSize →
          m'.heap.byteAt b.pool (blockOffset q b.index + k) = 0) :
    m.Tends old m' new := by
  intro others ha hclean
  obtain ⟨ha', hspares⟩ := ht others ha
  have hp' : m'.pool? id = some p' := by rw [hm, if_pos rfl]
  have hsame : ∀ {j q}, m'.pool? j = some q → ∃ q₀, m.pool? j = some q₀ ∧
      q.blockSize = q₀.blockSize ∧ (j ≠ id → q = q₀) := by
    intro j q hq
    rw [hm] at hq
    split at hq
    · rename_i hj
      cases hq
      exact ⟨p, hj ▸ hp, hsize, fun hne => absurd hj hne⟩
    · exact ⟨q, hq, rfl, fun _ => rfl⟩
  -- only places of the holders that the work concerns were written
  have hkept : ∀ {j q i k}, m.pool? j = some q → (j, i) ∉ placesOf old → k < q.blockSize →
      m'.heap.byteAt j (blockOffset q i + k) = m.heap.byteAt j (blockOffset q i + k) := by
    intro j q i k hq hnot hk
    rcases hbytes others ha hclean j (blockOffset q i + k) with heq | ⟨rfl, i', n, hi', hn, hoff⟩
    · exact heq
    · rw [hp] at hq
      cases hq
      have hne : i ≠ i' := fun heq => hnot (heq ▸ hi')
      exact absurd hoff (blockOffset_ne p hne hk hn)
  have hplaces : ∀ x ∈ placesOf others, ∀ {q}, m.pool? x.1 = some q → ∀ k < q.blockSize,
      m'.heap.byteAt x.1 (blockOffset q x.2 + k) = m.heap.byteAt x.1 (blockOffset q x.2 + k) :=
    fun x hx q hq k hk => hkept hq (fun hold => ha.places_apart hold hx) hk
  refine ⟨ha', hspares, ⟨fun {j q} hq => ?_, fun {j q} hq i hi k hk => ?_, fun b hb {q} hq => ?_,
    fun b hb {q} hq k hlow hk => ?_⟩, htrace ▸ List.suffix_refl _, hplaces,
    fun {j q} hq hgone => ?_⟩
  · obtain ⟨q₀, hq₀, -⟩ := hsame hq
    obtain ⟨hcount, hqsize⟩ := hspares.same_shape ha hq₀ hq
    rw [hcount, hqsize]
    exact hclean.shape hq₀
  · obtain ⟨q₀, hq₀, hqsize, hother⟩ := hsame hq
    rw [blockOffset_congr hqsize]
    rw [hqsize] at hk
    have hold : i ∈ q₀.free → m'.heap.byteAt j (blockOffset q₀ i + k) = 0 := by
      intro hi₀
      rw [hkept hq₀ (fun hm => ha.not_held_of_free hq₀ hi₀ (by simp [hm])) hk]
      exact hclean.free hq₀ i hi₀ k hk
    by_cases hj : j = id
    · subst hj
      rw [hp] at hq₀
      rw [hp'] at hq
      cases hq₀
      cases hq
      exact (hfree i hi).elim hold fun hzero => hzero k hk
    · exact hold (hother hj ▸ hi)
  · rw [poolBlocksOf_append] at hb
    rcases List.mem_append.mp hb with hb | hb
    · exact (hnew others ha hclean b hb q hq).1
    · obtain ⟨q₀, hq₀, hqsize, -⟩ := hsame hq
      exact hqsize ▸ hclean.fits b (by simp [hb]) hq₀
  · rw [poolBlocksOf_append] at hb
    rcases List.mem_append.mp hb with hb | hb
    · exact (hnew others ha hclean b hb q hq).2 k hlow hk
    · obtain ⟨q₀, hq₀, hqsize, -⟩ := hsame hq
      rw [blockOffset_congr hqsize]
      rw [hqsize] at hk
      rw [hplaces _ (place_mem others hb) hq₀ k hk]
      exact hclean.tail b (by simp [hb]) hq₀ k hlow hk
  · rw [hm] at hgone
    split at hgone
    · cases hgone
    · rw [hq] at hgone
      cases hgone

end Memory

end NativeBoundary

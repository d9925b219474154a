import NativeBoundary.Proofs.Memory.Holders

/-!
# Accounts of native memory

`Memory.Accounts m holders` says that the books of `m` agree with a list of holders: every live
block is held once, by one of them or by a pool that is in use; every pool counts as many users
as holders refer to it; and every place in a pool is either free or taken by one of them.

An operation on memory is described by `Memory.Trade m old m' new`: whoever else holds memory, if
the books of `m` agree with `old` and the others, then the books of `m'` agree with `new` and the
others, and nothing that the others hold has changed.  Trades compose (`Memory.Trade.trans`), and
they may be stated for the smallest list of holders that an operation needs
(`Memory.Trade.frame`).

There are two kinds of work.  Some operations work on the heap alone, and their trade follows from
what they do to the heap (`Memory.trade_heap`).  The others work on one pool, and for them the
books of that pool are all that has to be shown (`Memory.trade_pool`).
-/

namespace NativeBoundary

/-- The books of one pool: somebody uses it, and its blocks are free or handed out. -/
structure Pool.Sound (p : Pool) : Prop where
  used : 0 < p.users
  complete : p.inUse + p.free.length = p.count

namespace Memory

variable {m m' m'' : Memory} {id : PoolId}

/-- How many users a pool has; one that is gone has none. -/
def users (m : Memory) (id : PoolId) : Nat :=
  match m.pool? id with
  | some p => p.users
  | none => 0

/-- How often a block is the region of a pool: once, or not at all. -/
def regions (m : Memory) (id : PoolId) : Nat := if (m.pool? id).isSome then 1 else 0

/-- How often a place stands in the queue of its pool. -/
def vacant (m : Memory) (place : PoolId × Nat) : Nat :=
  match m.pool? place.1 with
  | some p => p.free.count place.2
  | none => 0

/-- How often a place exists: once, or not at all. -/
def capacity (m : Memory) (place : PoolId × Nat) : Nat :=
  match m.pool? place.1 with
  | some p => if place.2 < p.count then 1 else 0
  | none => 0

/-- The books of one pool agree with a list of holders. -/
structure PoolAccounts (m : Memory) (holders : List Holder) (id : PoolId) : Prop where
  users : m.users id = (poolsOf holders).count id
  places : ∀ i, m.vacant (id, i) + (placesOf holders).count (id, i) = m.capacity (id, i)
  pool : ∀ {p}, m.pool? id = some p →
    p.Sound ∧ m.heap.size? id = some (p.count * p.blockSize)

/-- The books of memory agree with a list of holders. -/
structure Accounts (m : Memory) (holders : List Holder) : Prop where
  sound : m.heap.Sound
  blocks : ∀ id, m.heap.liveCount id = (blocksOf holders).count id + m.regions id
  pools : ∀ id, m.PoolAccounts holders id

/-- Two lists of holders with the same stakes in memory. -/
structure SameStakes (xs ys : List Holder) : Prop where
  blocks : ∀ id, (blocksOf xs).count id = (blocksOf ys).count id
  pools : ∀ id, (poolsOf xs).count id = (poolsOf ys).count id
  places : ∀ place, (placesOf xs).count place = (placesOf ys).count place

/-- What an operation leaves alone: blocks in other hands, and the shape of pools. -/
structure Spares (m : Memory) (others : List Holder) (m' : Memory) : Prop where
  next : m.heap.next ≤ m'.heap.next
  kept : ∀ id ∈ blocksOf others, m'.heap.block? id = m.heap.block? id
  shape : ∀ {id p'}, id < m.heap.next → m'.pool? id = some p' →
    ∃ p, m.pool? id = some p ∧ p'.count = p.count ∧ p'.blockSize = p.blockSize

/-- An operation that turns the holders `old` into the holders `new`, whoever else there is. -/
def Trade (m : Memory) (old : List Holder) (m' : Memory) (new : List Holder) : Prop :=
  ∀ others, m.Accounts (old ++ others) → m'.Accounts (new ++ others) ∧ m.Spares others m'

section

variable {holders xs ys : List Holder}

theorem SameStakes.refl (xs : List Holder) : SameStakes xs xs :=
  ⟨fun _ => rfl, fun _ => rfl, fun _ => rfl⟩

theorem SameStakes.symm (hs : SameStakes xs ys) : SameStakes ys xs :=
  ⟨fun id => (hs.blocks id).symm, fun id => (hs.pools id).symm, fun x => (hs.places x).symm⟩

theorem SameStakes.trans {zs : List Holder} (hs : SameStakes xs ys) (ht : SameStakes ys zs) :
    SameStakes xs zs :=
  ⟨fun id => (hs.blocks id).trans (ht.blocks id), fun id => (hs.pools id).trans (ht.pools id),
    fun place => (hs.places place).trans (ht.places place)⟩

theorem SameStakes.append_left (hs : SameStakes xs ys) (others : List Holder) :
    SameStakes (others ++ xs) (others ++ ys) := by
  refine ⟨fun id => ?_, fun id => ?_, fun place => ?_⟩
  · simp only [blocksOf_append, List.count_append, hs.blocks id]
  · simp only [poolsOf_append, List.count_append, hs.pools id]
  · simp only [placesOf_append, List.count_append, hs.places place]

theorem SameStakes.append_right (hs : SameStakes xs ys) (others : List Holder) :
    SameStakes (xs ++ others) (ys ++ others) := by
  refine ⟨fun id => ?_, fun id => ?_, fun place => ?_⟩
  · simp only [blocksOf_append, List.count_append, hs.blocks id]
  · simp only [poolsOf_append, List.count_append, hs.pools id]
  · simp only [placesOf_append, List.count_append, hs.places place]

/-- The order of holders does not matter. -/
theorem SameStakes.of_perm (hp : xs.Perm ys) : SameStakes xs ys where
  blocks := fun id => (hp.flatMap_right Holder.blocks).count_eq id
  pools := fun id => (hp.flatMap_right Holder.pools).count_eq id
  places := fun place => (hp.flatMap_right Holder.places).count_eq place

/-- Books agree with stakes, whoever has them. -/
theorem Accounts.congr (ha : m.Accounts xs) (hs : SameStakes xs ys) : m.Accounts ys where
  sound := ha.sound
  blocks := fun id => (ha.blocks id).trans (by rw [hs.blocks id])
  pools := fun id =>
    { users := (ha.pools id).users.trans (hs.pools id)
      places := fun i => by rw [← hs.places (id, i), (ha.pools id).places i]
      pool := (ha.pools id).pool }

/-- New memory has no holders. -/
theorem accounts_empty : Accounts {} [] where
  sound := Heap.sound_empty
  blocks := fun _ => rfl
  pools := fun _ => ⟨rfl, fun _ => rfl, fun h => by cases h⟩

/-- A block that is held is live. -/
theorem Accounts.has (ha : m.Accounts holders) : m.heap.Has (blocksOf holders) := by
  intro id
  have := ha.blocks id
  omega

/-- A block that is held is not the region of a pool. -/
theorem Accounts.pool?_of_held {id : BlockId} (ha : m.Accounts holders)
    (hm : id ∈ blocksOf holders) : m.pool? id = none := by
  have hpos : 0 < (blocksOf holders).count id := List.count_pos_iff.mpr hm
  have hblocks := ha.blocks id
  have hone := m.heap.liveCount_le_one id
  cases hp : m.pool? id with
  | none => rfl
  | some p =>
      have hregion : m.regions id = 1 := by simp [regions, hp]
      omega

/-- No two holders hold the same block. -/
theorem Accounts.disjoint {id : BlockId} (ha : m.Accounts (xs ++ ys)) (hx : id ∈ blocksOf xs) :
    id ∉ blocksOf ys := by
  intro hy
  have hxpos : 0 < (blocksOf xs).count id := List.count_pos_iff.mpr hx
  have hypos : 0 < (blocksOf ys).count id := List.count_pos_iff.mpr hy
  have hblocks := ha.blocks id
  have hone := m.heap.liveCount_le_one id
  rw [blocksOf_append, List.count_append] at hblocks
  omega

/-- The region of a pool is live. -/
theorem Accounts.region_live {p : Pool} (ha : m.Accounts holders) (hp : m.pool? id = some p) :
    (m.heap.block? id).isSome := by
  rw [← Heap.liveCount_pos_iff, ha.blocks id]
  have hregion : m.regions id = 1 := by simp [regions, hp]
  omega

/-- A pool that somebody refers to is there. -/
theorem Accounts.pool_live (ha : m.Accounts holders) (hm : id ∈ poolsOf holders) :
    ∃ p, m.pool? id = some p := by
  have hpos : 0 < (poolsOf holders).count id := List.count_pos_iff.mpr hm
  rw [← (ha.pools id).users] at hpos
  unfold Memory.users at hpos
  cases hp : m.pool? id with
  | none =>
      rw [hp] at hpos
      exact absurd hpos (Nat.lt_irrefl 0)
  | some p => exact ⟨p, rfl⟩

/-- A pool that nobody refers to is gone. -/
theorem Accounts.pool_gone (ha : m.Accounts holders) (hm : id ∉ poolsOf holders) :
    m.pool? id = none := by
  have husers := (ha.pools id).users
  rw [List.count_eq_zero.mpr hm] at husers
  cases hp : m.pool? id with
  | none => rfl
  | some p =>
      have hused := ((ha.pools id).pool hp).1.used
      simp only [Memory.users, hp] at husers
      omega

/-- The region of a pool counts once for as long as somebody refers to the pool. -/
theorem Accounts.regions_eq (ha : m.Accounts holders) (id : PoolId) :
    m.regions id = if id ∈ poolsOf holders then 1 else 0 := by
  unfold regions
  by_cases hm : id ∈ poolsOf holders
  · obtain ⟨p, hp⟩ := ha.pool_live hm
    rw [hp, if_pos hm]
    rfl
  · rw [ha.pool_gone hm, if_neg hm]
    rfl

end

section

variable {old new mid xs ys others : List Holder}

theorem Spares.trans (first : m.Spares others m') (second : m'.Spares others m'') :
    m.Spares others m'' where
  next := Nat.le_trans first.next second.next
  kept := fun id hid => (second.kept id hid).trans (first.kept id hid)
  shape := by
    intro id p'' hid hp''
    obtain ⟨p', hp', hcount', hsize'⟩ :=
      second.shape (Nat.lt_of_lt_of_le hid first.next) hp''
    obtain ⟨p, hp, hcount, hsize⟩ := first.shape hid hp'
    exact ⟨p, hp, hcount'.trans hcount, hsize'.trans hsize⟩

theorem Spares.mono (hs : m.Spares (xs ++ ys) m') : m.Spares ys m' where
  next := hs.next
  kept := fun id hid => hs.kept id (by simp [hid])
  shape := hs.shape

theorem Trade.refl (m : Memory) (xs : List Holder) : m.Trade xs m xs :=
  fun _ ha => ⟨ha, ⟨Nat.le_refl _, fun _ _ => rfl, fun _ hp => ⟨_, hp, rfl, rfl⟩⟩⟩

/-- Two operations, one after the other. -/
theorem Trade.trans (first : m.Trade old m' mid) (second : m'.Trade mid m'' new) :
    m.Trade old m'' new := by
  intro others ha
  obtain ⟨ha', hs'⟩ := first others ha
  obtain ⟨ha'', hs''⟩ := second others ha'
  exact ⟨ha'', hs'.trans hs''⟩

/-- An operation leaves bystanders as they are. -/
theorem Trade.frame (ht : m.Trade old m' new) (xs : List Holder) :
    m.Trade (old ++ xs) m' (new ++ xs) := by
  intro others ha
  rw [List.append_assoc] at ha
  obtain ⟨ha', hs'⟩ := ht (xs ++ others) ha
  rw [← List.append_assoc] at ha'
  exact ⟨ha', hs'.mono⟩

/-- Only stakes matter. -/
theorem Trade.congr (ht : m.Trade old m' new) (hold : SameStakes xs old)
    (hnew : SameStakes new ys) : m.Trade xs m' ys := by
  intro others ha
  obtain ⟨ha', hs'⟩ := ht others (ha.congr (hold.append_right others))
  exact ⟨ha'.congr (hnew.append_right others), hs'⟩

end

section

variable {old new : List Holder} {h' : Heap}

/-- Work on the heap that loses what `old` holds and leaves behind what `new` holds. -/
theorem trade_heap (hc : m.heap.Sound → m.heap.Has (blocksOf old) →
      m.heap.Change (blocksOf old) h' (blocksOf new))
    (hpools : ∀ id, (poolsOf old).count id = (poolsOf new).count id)
    (hplaces : ∀ place, (placesOf old).count place = (placesOf new).count place) :
    m.Trade old { m with heap := h' } new := by
  intro others ha
  have hhas := ha.has
  rw [blocksOf_append] at hhas
  have hchange := hc ha.sound hhas.left
  have hkept : ∀ {id}, id ∉ blocksOf old → (m.heap.block? id).isSome →
      h'.block? id = m.heap.block? id :=
    fun hold hlive => hchange.kept _ (ha.sound.lt_next hlive) hold
  refine ⟨⟨hchange.sound, fun id => ?_, fun id => ⟨?_, fun i => ?_, fun {p} hp => ?_⟩⟩,
    ⟨hchange.next, fun id hid => ?_, fun _ hp => ⟨_, hp, rfl, rfl⟩⟩⟩
  · have hblocks := ha.blocks id
    have hcount := hchange.count id
    rw [blocksOf_append, List.count_append] at hblocks ⊢
    change h'.liveCount id = _ + m.regions id
    omega
  · have husers := (ha.pools id).users
    rw [poolsOf_append, List.count_append, hpools id] at husers
    rw [poolsOf_append, List.count_append, ← husers]
    rfl
  · have hslots := (ha.pools id).places i
    rw [placesOf_append, List.count_append, hplaces (id, i)] at hslots
    rw [placesOf_append, List.count_append]
    exact hslots
  · obtain ⟨hsound, hsize⟩ := (ha.pools id).pool hp
    have hother : id ∉ blocksOf old := fun hm => by
      have hnone : m.pool? id = none := ha.pool?_of_held (by simp [hm])
      rw [show m.pool? id = some p from hp] at hnone
      cases hnone
    refine ⟨hsound, ?_⟩
    rw [← hsize]
    unfold Heap.size?
    rw [hkept hother (ha.region_live hp)]
  · have hlive : (m.heap.block? id).isSome := ha.has.live (by simp [hid])
    exact hkept (fun hm => ha.disjoint hm hid) hlive

end

section

variable {bytes : Bytes} {secrecy : Secrecy} {items : List Bytes} {h' : Heap} {fault : Fault}

theorem trade_copyBuffer {b : OwnedBuffer}
    (hc : OwnedBuffer.copyFrom bytes secrecy m.heap = (.ok b, h')) :
    m.Trade [] { m with heap := h' } [.buffer b] :=
  trade_heap (fun hs _ => by simpa [Holder.blocks] using OwnedBuffer.change_copyFrom hs hc)
    (fun _ => rfl) (fun _ => rfl)

theorem trade_copyBuffer_error
    (hc : OwnedBuffer.copyFrom bytes secrecy m.heap = (.error fault, h')) :
    m.Trade [] { m with heap := h' } [] :=
  trade_heap (fun hs _ => OwnedBuffer.change_copyFrom_error hs hc) (fun _ => rfl) (fun _ => rfl)

theorem trade_dropBuffer (m : Memory) (b : OwnedBuffer) :
    m.Trade [.buffer b] { m with heap := b.drop m.heap } [] := by
  refine trade_heap (fun hs hh => ?_) (fun _ => rfl) (fun _ => rfl)
  simp only [blocksOf_cons, blocksOf_nil, Holder.blocks, List.append_nil] at hh ⊢
  exact OwnedBuffer.change_drop hs hh

theorem trade_copyBatch {b : OwnedBatch}
    (hc : OwnedBatch.copyFrom items secrecy m.heap = (.ok b, h')) :
    m.Trade [] { m with heap := h' } [.batch b] :=
  trade_heap (fun hs _ => by simpa [Holder.blocks] using OwnedBatch.change_copyFrom hs hc)
    (fun _ => rfl) (fun _ => rfl)

theorem trade_copyBatch_error
    (hc : OwnedBatch.copyFrom items secrecy m.heap = (.error fault, h')) :
    m.Trade [] { m with heap := h' } [] :=
  trade_heap (fun hs _ => OwnedBatch.change_copyFrom_error hs hc) (fun _ => rfl) (fun _ => rfl)

theorem trade_dropBatch (m : Memory) (b : OwnedBatch) :
    m.Trade [.batch b] { m with heap := b.drop m.heap } [] := by
  refine trade_heap (fun hs hh => ?_) (fun _ => rfl) (fun _ => rfl)
  simp only [blocksOf_cons, blocksOf_nil, Holder.blocks, List.append_nil] at hh ⊢
  exact OwnedBatch.change_drop hs hh

/-- A malformed batch that native code hands in is nobody's any more. -/
theorem trade_rejectBatch {raw : RawBatch} {reason : Malformation}
    (hc : OwnedBatch.adopt raw m.heap = (.error reason, h')) :
    m.Trade [.rawBatch raw] { m with heap := h' } [] := by
  refine trade_heap (fun hs hh => ?_) (fun _ => rfl) (fun _ => rfl)
  simp only [blocksOf_cons, blocksOf_nil, Holder.blocks, List.append_nil] at hh ⊢
  exact OwnedBatch.change_reject hs hh hc

/-- A buffer keeps its stake when it is shown to native code or handed over. -/
theorem stakes_rawBuffer (b : OwnedBuffer) : SameStakes [.buffer b] [.rawBuffer b.raw] where
  blocks := fun id => by simp [Holder.blocks, OwnedBuffer.blocks]
  pools := fun _ => rfl
  places := fun _ => rfl

/-- A raw buffer keeps its stake when it is taken over. -/
theorem stakes_adoptBuffer (raw : RawBuffer) :
    SameStakes [.rawBuffer raw] [.buffer (.adopt raw)] where
  blocks := fun id => by simp [Holder.blocks, OwnedBuffer.blocks]
  pools := fun _ => rfl
  places := fun _ => rfl

theorem stakes_rawBatch (b : OwnedBatch) : SameStakes [.batch b] [.rawBatch b.raw] where
  blocks := fun id => by simp [Holder.blocks]
  pools := fun _ => rfl
  places := fun _ => rfl

/-- A raw batch keeps its stake when it is taken over. -/
theorem stakes_adoptBatch {raw : RawBatch} {b : OwnedBatch} {h : Heap}
    (hc : OwnedBatch.adopt raw h = (.ok b, h')) : SameStakes [.rawBatch raw] [.batch b] where
  blocks := fun id => by simp [Holder.blocks, (OwnedBatch.adopt_ok hc).2]
  pools := fun _ => rfl
  places := fun _ => rfl

end

section

variable {old new : List Holder} {lost gained : List BlockId} {p p' : Pool}

/-- An operation on one pool: no block but its region is touched, and no stake in another pool
changes.  What is left to show are the books of that pool. -/
theorem trade_pool (id : PoolId) (hm : ∀ j, j ≠ id → m'.pool? j = m.pool? j)
    (hc : ∀ others, m.Accounts (old ++ others) → m.heap.Change lost m'.heap gained)
    (hlost : ∀ j ∈ lost, j = id ∧ (m.pool? id).isSome)
    (hblocks : ∀ j, m.regions j + (blocksOf old).count j + gained.count j =
      m'.regions j + (blocksOf new).count j + lost.count j)
    (hpools : ∀ j, j ≠ id → (poolsOf old).count j = (poolsOf new).count j)
    (hplaces : ∀ j i, j ≠ id → (placesOf old).count (j, i) = (placesOf new).count (j, i))
    (hshape : ∀ {p'}, id < m.heap.next → m'.pool? id = some p' →
      ∃ p, m.pool? id = some p ∧ p'.count = p.count ∧ p'.blockSize = p.blockSize)
    (hafter : ∀ others, m.Accounts (old ++ others) → m'.PoolAccounts (new ++ others) id) :
    m.Trade old m' new := by
  intro others ha
  have hchange := hc others ha
  have hkept : ∀ {j}, j ∉ lost → (m.heap.block? j).isSome →
      m'.heap.block? j = m.heap.block? j :=
    fun hj hl => hchange.kept _ (ha.sound.lt_next hl) hj
  refine ⟨⟨hchange.sound, fun j => ?_, fun j => ?_⟩,
    ⟨hchange.next, fun j hj => ?_, fun {j q} hj hq => ?_⟩⟩
  · have hcount := hchange.count j
    have hold := ha.blocks j
    have hdiff := hblocks j
    rw [blocksOf_append, List.count_append] at hold ⊢
    omega
  · by_cases hj : j = id
    · subst hj
      exact hafter others ha
    · have hold := ha.pools j
      have hsame := hm j hj
      refine ⟨?_, fun i => ?_, fun {q} hq => ?_⟩
      · have husers := hold.users
        unfold users at husers ⊢
        rw [hsame, husers, poolsOf_append, poolsOf_append, List.count_append,
          List.count_append, hpools j hj]
      · have hplace := hold.places i
        unfold vacant capacity at hplace ⊢
        simp only [hsame]
        rw [← hplace, placesOf_append, placesOf_append, List.count_append, List.count_append,
          hplaces j i hj]
      · rw [hsame] at hq
        obtain ⟨hsound, hsize⟩ := hold.pool hq
        refine ⟨hsound, ?_⟩
        rw [← hsize]
        unfold Heap.size?
        rw [hkept (fun hl => hj (hlost j hl).1) (ha.region_live hq)]
  · refine hkept (fun hl => ?_) (ha.has.live (by simp [hj]))
    obtain ⟨heq, hsome⟩ := hlost j hl
    rw [← heq, ha.pool?_of_held (by simp [hj])] at hsome
    cases hsome
  · by_cases heq : j = id
    · subst heq
      exact hshape hj hq
    · rw [hm j heq] at hq
      exact ⟨q, hq, rfl, rfl⟩

/-- An operation that changes the record of a pool and may rewrite its region. -/
theorem trade_record (hp : m.pool? id = some p)
    (hm : ∀ j, m'.pool? j = if j = id then some p' else m.pool? j)
    (hc : m.heap.Sound → m.heap.Change [id] m'.heap [id])
    (hregion : m'.heap.size? id = m.heap.size? id)
    (hblocks : ∀ j, (blocksOf old).count j = (blocksOf new).count j)
    (husers : ∀ j, (if j = id then p'.users else 0) + (poolsOf old).count j =
      (if j = id then p.users else 0) + (poolsOf new).count j)
    (hplaces : ∀ j i, (if j = id then p'.free.count i else 0) + (placesOf new).count (j, i) =
      (if j = id then p.free.count i else 0) + (placesOf old).count (j, i))
    (hshape : p'.count = p.count ∧ p'.blockSize = p.blockSize)
    (hsound : ∀ others, m.Accounts (old ++ others) → p'.Sound) :
    m.Trade old m' new := by
  have hp' : m'.pool? id = some p' := by rw [hm, if_pos rfl]
  refine trade_pool id (fun j hj => by rw [hm, if_neg hj]) (fun _ ha => hc ha.sound)
    (fun j hj => ⟨List.mem_singleton.mp hj, by simp [hp]⟩) (fun j => ?_) (fun j hj => ?_)
    (fun j i hj => ?_) (fun _ hq => ?_) (fun others ha => ⟨?_, fun i => ?_, fun hq => ?_⟩)
  · have hregions : m'.regions j = m.regions j := by
      unfold regions
      rw [hm]
      by_cases hj : j = id
      · simp [hj, hp]
      · simp [hj]
    rw [hregions, hblocks j]
  · have h := husers j
    simp only [if_neg hj] at h
    omega
  · have h := hplaces j i
    simp only [if_neg hj] at h
    omega
  · rw [hp'] at hq
    cases hq
    exact ⟨p, hp, hshape⟩
  · have hold := (ha.pools id).users
    have hdiff := husers id
    simp only [users, hp, hp', poolsOf_append, List.count_append, if_true] at hold hdiff ⊢
    omega
  · have hold := (ha.pools id).places i
    have hdiff := hplaces id i
    simp only [vacant, capacity, hp, hp', placesOf_append, List.count_append, if_true,
      hshape.1] at hold hdiff ⊢
    omega
  · rw [hp'] at hq
    cases hq
    exact ⟨hsound others ha, by rw [hregion, ((ha.pools id).pool hp).2, hshape.1, hshape.2]⟩

/-- A trade by somebody who refers to a pool may take for granted that the pool is there. -/
theorem trade_of_pool (id : PoolId) (hid : id ∈ poolsOf old)
    (ht : ∀ p, m.pool? id = some p → m.Trade old m' new) : m.Trade old m' new := by
  intro others ha
  obtain ⟨p, hp⟩ : ∃ p, m.pool? id = some p := ha.pool_live (by simp [hid])
  exact ht p hp others ha

end

end Memory

end NativeBoundary

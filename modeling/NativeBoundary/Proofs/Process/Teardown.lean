import NativeBoundary.Proofs.Process.Loans

/-!
# The end of loans

When a scope ends its copies are released in the order of its list, and since each new copy stands
in front that is the last one first.  `Memory.Teardown m loans m'` says this of the loans, without a
word about copies: one after the other, newest first, each loan gives up what its pointers lead to.
A block of a pool is wiped and goes to the end of the queue (`Memory.ReturnsPlace`), whatever it
held.  A buffer on the heap is wiped when it was secret or when its scope was to wipe public copies
as it was made, and otherwise it still holds its bytes when it is freed.  The data of a batch are
wiped, and its size table follows (`Heap.GivesBack`).

* `Loan.Backed.released` — one loan;
* `Memory.Backing.teardown` — the loans of a scope;
* `Region.Taken.givenUp` — what a scope had taken is given up once its loans are.
-/

namespace NativeBoundary

open Memory (blockOffset)

namespace Heap

variable {h h' : Heap} {id : BlockId} {held : Block → Prop}

/-- A block is freed as `holding`, while it held `held`, and nothing else happens. -/
structure GivesBack (h : Heap) (id : BlockId) (holding : Holding) (held : Block → Prop)
    (h' : Heap) : Prop where
  live : (h.block? id).isSome
  blocks : ∀ j, h'.block? j = if j = id then none else h.block? j
  freed : ∃ last, held last ∧ h'.trace = .freed id last holding :: h.trace

/-- The block that a pointer leads to is freed, if it leads to one. -/
def GivesBackAt (h : Heap) (p : Pointer) (holding : Holding) (held : Block → Prop)
    (h' : Heap) : Prop :=
  match p with
  | .native id _ => h.GivesBack id holding held h'
  | .null | .host _ => h' = h

theorem givesBack_free {b : Block} (holding : Holding) (hb : h.block? id = some b)
    (hheld : held b) : h.GivesBack id holding held (h.free id holding) where
  live := by simp [hb]
  blocks := fun j => h.block?_free id j holding
  freed := ⟨b, hheld, trace_free_of_live holding hb⟩

/-- A block that is released is wiped first, when it has to be. -/
theorem givesBack_release {b : Block} {length : Nat} {wiped : Bool} (hb : h.block? id = some b)
    (hheld : held (if wiped then b.wipe 0 length else b)) :
    h.GivesBack id (.payload length wiped) held (h.release id length wiped) := by
  refine ⟨by simp [hb], fun j => h.block?_release id j length wiped, ?_⟩
  unfold release
  cases wiped with
  | false => exact (givesBack_free _ hb hheld).freed
  | true =>
      have hwiped : (h.wipe id 0 length).block? id = some (b.wipe 0 length) := by
        rw [wipe, block?_update, if_pos rfl, hb]
        rfl
      exact (givesBack_free _ hwiped hheld).freed

end Heap

/-- The record of a pool that has a block back: it stands last in the queue, and it is no longer in
use. -/
def Pool.regained (p : Pool) (i : Nat) : Pool :=
  { p with free := p.free ++ [i], inUse := p.inUse - 1, users := p.users - 1 }

namespace Memory

variable {m m' : Memory} {b : PoolBlock} {p : Pool} {rest : List Holder}

/-- A block of a pool comes back.  It is zero, and its place is the last one in the queue; or
nobody else used the pool, and then the whole region is freed, all zero. -/
structure ReturnsPlace (m : Memory) (id : PoolId) (p : Pool) (i : Nat) (m' : Memory) : Prop where
  taken : i < p.count ∧ i ∉ p.free
  pools : ∀ j, j ≠ id → m'.pool? j = m.pool? j
  beside : ∀ j k, (j, k) ≠ (id, i) → (m'.pool? j).isSome →
    m'.inspectBlock j k = m.inspectBlock j k
  back : (m'.pool? id = some (p.regained i) ∧
      m'.inspectBlock id i = some (Bytes.zeros p.blockSize) ∧ m'.heap.trace = m.heap.trace) ∨
    (p.users = 1 ∧ m'.pool? id = none ∧
      m.heap.GivesBack id (.payload (p.count * p.blockSize) true)
        (·.Clear (p.count * p.blockSize)) m'.heap)

/-- Taking back a block of a pool that others use, and of one that nobody else uses. -/
theorem releaseBlock_eq (hp : m.pool? b.pool = some p) (hroom : p.free.length < p.count) :
    m.releaseBlock b =
      if p.users ≤ 1 then
        { heap := (m.takeBack p b).heap.release b.pool (p.count * p.blockSize) true
          pools := (m.takeBack p b).pools.erase b.pool }
      else
        { m.takeBack p b with
          pools := (m.takeBack p b).pools.insert b.pool (p.regained b.index) } := by
  have hrecord := (m.pool?_takeBack p b b.pool).trans (if_pos rfl)
  rw [releaseBlock_of_pool hp, dropPool, hrecord]
  simp only [Pool.regained]
  rw [Pool.putBack_of_room hroom]

/-- A place that was just taken back is zero. -/
theorem inspectBlock_takeBack {q : Pool} (hq : m'.pool? b.pool = some q)
    (hindex : b.index < q.count) (hsize : q.blockSize = p.blockSize)
    (hheap : m'.heap = (m.takeBack p b).heap) :
    m'.inspectBlock b.pool b.index = some (Bytes.zeros p.blockSize) := by
  rw [inspectBlock_eq hq hindex, hheap, hsize]
  refine congrArg some (Heap.read_of_zero fun k hk => ?_)
  have hoffset : blockOffset q b.index = blockOffset p b.index := congrArg (b.index * ·) hsize
  rw [hoffset, byteAt_takeBack,
    if_pos ⟨rfl, Nat.le_add_right _ _, Nat.add_lt_add_left hk _⟩]

theorem returns_releaseBlock (ha : m.Accounts (.block b :: rest)) (hp : m.pool? b.pool = some p) :
    m.ReturnsPlace b.pool p b.index (m.releaseBlock b) := by
  have hplace : (b.pool, b.index) ∈ placesOf (.block b :: rest) := by simp [Holder.places]
  have hmem : b ∈ poolBlocksOf (.block b :: rest) := by simp [Holder.poolBlocks]
  obtain ⟨q, hq, hindex⟩ := ha.index_lt hmem
  rw [hp] at hq
  cases hq
  have hused := ((ha.pools b.pool).pool hp).1.used
  have heq := releaseBlock_eq hp (free_lt_count b.index ha hp hplace)
  have hother : ∀ j, j ≠ b.pool → (m.takeBack p b).pools.get? j = m.pools.get? j := fun j hj =>
    (m.pool?_takeBack p b j).trans (if_neg hj)
  refine ⟨⟨hindex, fun hfree => ha.not_held_of_free hp hfree hplace⟩, fun j hj => ?_,
    fun j k hother hlives => inspectBlock_releaseBlock hp hother hlives, ?_⟩
  · rw [heq]
    split
    · exact (Table.get?_erase_of_ne _ hj).trans (hother j hj)
    · exact (Table.get?_insert_of_ne _ _ hj).trans (hother j hj)
  · rw [heq]
    split <;> rename_i husers
    · obtain ⟨last, hlast⟩ := Option.isSome_iff_exists.mp (ha.region_live hp)
      have hblock : ∀ j, (m.takeBack p b).heap.block? j =
          if j = b.pool then (m.heap.block? j).map (·.wipe (blockOffset p b.index) p.blockSize)
          else m.heap.block? j := fun j => Heap.block?_update _ _ _ _
      have hwiped : (m.takeBack p b).heap.block? b.pool =
          some (last.wipe (blockOffset p b.index) p.blockSize) := by
        rw [hblock, if_pos rfl, hlast]
        rfl
      have hgiven : (m.takeBack p b).heap.GivesBack b.pool
          (.payload (p.count * p.blockSize) true) (·.Clear (p.count * p.blockSize)) _ :=
        Heap.givesBack_release hwiped (Block.clear_wipe _ _)
      obtain ⟨-, hblocks, hfreed⟩ := hgiven
      refine .inr ⟨Nat.le_antisymm husers hused, Table.get?_erase_self _ _, ha.region_live hp,
        fun j => ?_, hfreed⟩
      rw [hblocks]
      split
      · rfl
      · rename_i hj
        rw [hblock, if_neg hj]
    · have hrecord := Table.get?_insert_self (m.takeBack p b).pools b.pool (p.regained b.index)
      exact .inl ⟨hrecord, inspectBlock_takeBack hrecord hindex rfl rfl, rfl⟩

end Memory

/-- The data of a secret batch are wiped and freed, and its size table is freed after them. -/
theorem givesBack_dropBatch {h : Heap} {b : OwnedBatch} (hs : h.Sound) (hh : h.Has b.blocks)
    (hsecret : b.secrecy = .secret) :
    ∃ middle, h.GivesBackAt b.raw.data (.payload b.total true) (·.Clear b.total) middle ∧
      middle.GivesBackAt b.raw.sizes .sizeTable (fun _ => True) (b.drop h) := by
  have hsizes : ∀ {middle : Heap}, middle.Has b.sizes?.toList →
      middle.GivesBackAt b.raw.sizes .sizeTable (fun _ => True) (b.dropSizes middle) := by
    intro middle hhas
    unfold OwnedBatch.dropSizes OwnedBatch.raw
    cases htable : b.sizes? with
    | none => rfl
    | some id =>
        rw [htable] at hhas
        obtain ⟨last, hlast⟩ := Option.isSome_iff_exists.mp (hhas.live (List.mem_singleton.mpr rfl))
        exact Heap.givesBack_free _ hlast trivial
  unfold OwnedBatch.blocks at hh
  unfold OwnedBatch.drop
  cases hdata : b.data? with
  | none =>
      rw [hdata] at hh
      refine ⟨h, ?_, hsizes hh⟩
      rw [OwnedBatch.raw, hdata]
      rfl
  | some id =>
      rw [hdata] at hh
      have hlive : (h.block? id).isSome := hh.left.live (List.mem_singleton.mpr rfl)
      obtain ⟨last, hlast⟩ := Option.isSome_iff_exists.mp hlive
      have hrelease := hs.change_release hlive b.total true
      simp only [hsecret, decide_true]
      refine ⟨h.release id b.total true, ?_, hsizes (hh.after hrelease)⟩
      rw [OwnedBatch.raw, hdata]
      exact Heap.givesBack_release hlast (last.clear_wipe _)

namespace Loan

/-- What the end of its scope does about a loan. -/
def Released (m m' : Memory) : Loan → Prop
  | buffer bytes secrecy wipePublic raw =>
      let wiped : Bool := secrecy = .secret || wipePublic
      match raw.data with
      | .native id start =>
          match m.pool? id with
          | some p => ∃ i, start = blockOffset p i ∧ m.ReturnsPlace id p i m'
          | none =>
              m'.pools = m.pools ∧ m.heap.GivesBack id (.payload bytes.length wiped)
                (fun last => if wiped then last.Clear bytes.length
                  else last.read 0 bytes.length = bytes) m'.heap
      | .null | .host _ => m' = m
  | batch items raw =>
      m'.pools = m.pools ∧ ∃ middle,
        m.heap.GivesBackAt raw.data (.payload items.flatten.length true)
          (·.Clear items.flatten.length) middle ∧
        middle.GivesBackAt raw.sizes .sizeTable (fun _ => True) m'.heap

variable {m : Memory} {l : Loan} {made : List ScopeCopy} {rest : List Holder}

/-- Releasing what stands behind a loan is the end of the loan. -/
theorem Backed.released (hb : l.Backed m made)
    (ha : m.Accounts (made.map ScopeCopy.holder ++ rest))
    (hc : m.Clean (made.map ScopeCopy.holder ++ rest)) : l.Released m (m.releaseCopies made) := by
  cases hb with
  | @lent bytes secrecy wipePublic raw hregions _ =>
      obtain ⟨data, size⟩ := raw
      cases data with
      | native id start => cases hregions
      | null | host _ => rfl
  | @pooled bytes secrecy wipePublic b hfull hlength _ =>
      obtain ⟨p, hp, -⟩ := block_of_pooled ha hc (b := b) (List.mem_singleton.mpr rfl)
      have hused : b.length ≠ 0 := hlength ▸ mt List.eq_nil_of_length_eq_zero hfull
      simp only [Released, Memory.blockRaw_eq hp hused, hp]
      exact ⟨b.index, rfl, Memory.returns_releaseBlock ha hp⟩
  | @heap bytes secrecy wipePublic id hsize hread _ =>
      have hpool : m.pool? id = none := ha.pool?_of_held (by
        simp [ScopeCopy.holder, Holder.blocks, OwnedBuffer.blocks])
      obtain ⟨b, hblock, -⟩ := Option.map_eq_some_iff.mp hsize
      have hwiped : (secrecy = .secret || wipePublic) = secrecy.mustWipe wipePublic := by
        cases secrecy <;> rfl
      simp only [Released, hpool, hwiped]
      refine ⟨rfl, Heap.givesBack_release hblock ?_⟩
      split
      · exact b.clear_wipe _
      · rw [Heap.read, hblock] at hread
        exact hread
  | @batch items b _ htotal hsecret hdata hsizes =>
      refine ⟨rfl, ?_⟩
      have hhas : m.heap.Has b.blocks := by
        have hall := ha.has
        rw [List.map_singleton, List.singleton_append, blocksOf_cons] at hall
        exact hall.left
      have hdrop := givesBack_dropBatch ha.sound hhas hsecret
      rw [htotal] at hdrop
      exact hdrop

end Loan

namespace Memory

variable {m m' : Memory} {loans : List Loan} {copies : List ScopeCopy} {s : Scope}
  {rest others : List Holder}

/-- The end of some loans, one after the other. -/
def Teardown (m : Memory) : List Loan → Memory → Prop
  | [], m' => m' = m
  | l :: loans, m' => ∃ middle, l.Released m middle ∧ middle.Teardown loans m'

/-- Releasing what stands behind some loans is the end of these loans, in the order of the list. -/
theorem Backing.teardown (hb : m.Backing loans copies)
    (ha : m.Accounts (copies.map ScopeCopy.holder ++ rest))
    (hc : m.Clean (copies.map ScopeCopy.holder ++ rest)) :
    m.Teardown loans (m.releaseCopies copies) := by
  induction loans generalizing m copies with
  | nil =>
      cases hb
      rfl
  | cons l loans ih =>
      cases hb with
      | @cons _ _ made copies hfirst hrest =>
          rw [List.map_append, List.append_assoc] at ha hc
          refine ⟨m.releaseCopies made, hfirst.released ha hc, ?_⟩
          -- the loans that are left stand while the first one ends
          have hdone := tends_releaseCopies m made _ ha hc
          have hleft := hrest.congr (hdone.respects ha hc).left
          have hlater := ih hleft hdone.accounts hdone.clean
          unfold releaseCopies at hlater ⊢
          rw [List.foldl_append]
          exact hlater

end Memory

/-- A region of a loan was in use, and it is not any more: its block was freed, for the first time;
or its place in the pool is in the queue, once, and it is zero there, unless the whole pool is gone
and its region was freed, all zero. -/
def Region.GivenUp (m m' : Memory) (r : Region) : Prop :=
  match m.pool? r.block with
  | none => r.block ∉ m.heap.freed ∧ m'.heap.freed.count r.block = 1
  | some p =>
      let i := r.start / p.blockSize
      i ∉ p.free ∧
        match m'.pool? r.block with
        | none => m'.Ended r.block p
        | some p' =>
            p'.free.count i = 1 ∧ m'.inspectBlock r.block i = some (Bytes.zeros p.blockSize)

namespace Region

variable {m m' : Memory} {r : Region} {old rest : List Holder}

/-- What was taken and is nobody's afterwards was given up. -/
theorem Taken.givenUp (hr : r.Taken m old) (ha : m.Accounts (old ++ rest))
    (ht : m.Tended rest m' rest) : r.GivenUp m m' := by
  rcases hr with hr | ⟨b, hb, p, hp, hblock, hstart, hlength, hfits⟩
  · have hpool : m.pool? r.block = none := ha.pool?_of_held (by simp [hr])
    have hlive : (m.heap.block? r.block).isSome := ha.has.live (by simp [hr])
    have hnext := ha.sound.lt_next hlive
    have hpool' : m'.pool? r.block = none := by
      cases hp' : m'.pool? r.block with
      | none => rfl
      | some p' =>
          obtain ⟨p, hp, -⟩ := ht.spares.shape hnext hp'
          rw [hpool] at hp
          cases hp
    have hgone := ht.accounts.blocks r.block
    rw [List.count_eq_zero.mpr (ha.disjoint hr), Memory.regions, hpool'] at hgone
    have hbefore := ha.sound.balance r.block
    have hafter := ht.accounts.sound.balance r.block
    have hone := Heap.liveCount_pos_iff.mpr hlive
    rw [if_pos hnext] at hbefore
    rw [if_pos (Nat.lt_of_lt_of_le hnext ht.spares.next), hgone] at hafter
    unfold GivenUp
    rw [hpool]
    exact ⟨List.count_eq_zero.mp (by omega), by simpa using hafter⟩
  · have hsize : 0 < p.blockSize := Nat.lt_of_lt_of_le hlength hfits
    have hindex : r.start / p.blockSize = b.index := by
      rw [hstart, blockOffset, Nat.mul_div_cancel _ hsize]
    have hplace := place_mem old hb
    obtain ⟨q, hq, hcount⟩ := ha.index_lt (b := b) (by simp [hb])
    rw [hp] at hq
    cases hq
    unfold GivenUp
    simp only [hblock, hp, hindex]
    refine ⟨fun hfree => ha.not_held_of_free hp hfree (by simp [hplace]), ?_⟩
    split
    · rename_i hgone
      exact ht.ends hp hgone
    · rename_i p' hp'
      obtain ⟨hcount', hsize'⟩ := ht.spares.same_shape ha hp hp'
      have hplaces := (ht.accounts.pools b.pool).places b.index
      rw [List.count_eq_zero.mpr (ha.places_apart hplace)] at hplaces
      simp only [Memory.vacant, Memory.capacity, hp', hcount', hcount, if_true] at hplaces
      refine ⟨hplaces, ?_⟩
      rw [Memory.inspectBlock_eq hp' (hcount' ▸ hcount), hsize']
      refine congrArg some (Heap.read_of_zero fun k hk => ?_)
      have hfree : b.index ∈ p'.free := List.count_pos_iff.mp (by omega)
      exact ht.clean.free hp' b.index hfree k (hsize' ▸ hk)

end Region

end NativeBoundary

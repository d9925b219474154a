import NativeBoundary.Call
import NativeBoundary.Proofs.Memory.Copying

/-!
# Holders of native memory

Native blocks have holders: owned buffers and batches, the copies of a scope, and native code,
which holds what it was handed as a raw buffer or a raw batch.  The region of a pool is held by
the pool itself, and a pool lives as long as somebody refers to it: pool values, bridges, scopes
and blocks that are handed out.

For every kind of holder this file says which blocks it holds (`Holder.blocks`) and which pools
it refers to (`Holder.pools`), and for every operation on buffers and batches which blocks it
frees and which it leaves behind:

* `OwnedBuffer.change_copyFrom`, `OwnedBuffer.change_drop` — copies of host bytes;
* `OwnedBatch.change_copyFrom`, `OwnedBatch.change_drop` — batches, partial failure included;
* `OwnedBatch.change_reject` — a malformed batch is given back at once, both tables of it.
-/

namespace NativeBoundary

namespace Heap

variable {h h' : Heap}

/-- Each of the blocks is live, and none is named twice. -/
def Has (h : Heap) (ids : List BlockId) : Prop := ∀ id, ids.count id ≤ h.liveCount id

theorem Has.live {ids : List BlockId} (hh : h.Has ids) {id : BlockId} (hm : id ∈ ids) :
    (h.block? id).isSome := by
  have hpos : 0 < ids.count id := List.count_pos_iff.mpr hm
  exact liveCount_pos_iff.mp (Nat.lt_of_lt_of_le hpos (hh id))

theorem Has.left {ids rest : List BlockId} (hh : h.Has (ids ++ rest)) : h.Has ids := by
  intro id
  have := hh id
  rw [List.count_append] at this
  omega

/-- What was not lost is still there. -/
theorem Has.after {ids rest : List BlockId} (hh : h.Has (ids ++ rest))
    (hc : h.Change ids h' []) : h'.Has rest := by
  intro id
  have h1 := hh id
  have h2 := hc.count id
  simp only [List.count_append, List.count_nil] at h1 h2
  omega

end Heap

namespace OwnedBuffer

variable {h h' : Heap} {bytes : Bytes} {secrecy : Secrecy}

/-- The block of a buffer, if it has one. -/
def blocks (b : OwnedBuffer) : List BlockId := b.block?.toList

/-- A copy of host bytes leaves its own block behind. -/
theorem change_copyFrom {b : OwnedBuffer} (hs : h.Sound)
    (hc : copyFrom bytes secrecy h = (.ok b, h')) : h.Change [] h' b.blocks := by
  cases copying_of_copyFrom hc with
  | empty hnone => exact .refl hs
  | block hsome hfits hblock =>
      have hnew := Nat.le_of_eq (Heap.request_granted hblock).1.symm
      exact (hs.change_request hblock).write hnew 0 bytes

/-- A copy that could not be made leaves nothing behind. -/
theorem change_copyFrom_error {fault : Fault} (hs : h.Sound)
    (hc : copyFrom bytes secrecy h = (.error fault, h')) : h.Change [] h' [] := by
  cases refusal_of_copyFrom hc with
  | oversized hlong => exact .refl hs
  | noMemory hsome hfits hblock => exact hs.change_refused hblock

/-- Dropping a buffer frees its block. -/
theorem change_drop {b : OwnedBuffer} (hs : h.Sound) (hh : h.Has b.blocks) :
    h.Change b.blocks (b.drop h) [] := by
  unfold drop
  unfold blocks at hh ⊢
  cases hb : b.block? with
  | none => exact .refl hs
  | some id =>
      rw [hb] at hh
      exact hs.change_release (hh.live (by simp)) b.length b.mustWipe

/-- A raw buffer that shows a buffer leads to the same block. -/
@[simp] theorem block?_raw (b : OwnedBuffer) : b.raw.data.block? = b.block? := by
  unfold raw
  cases hb : b.block? <;> rfl

/-- A buffer that was taken over holds the block of the raw buffer. -/
@[simp] theorem block?_adopt (raw : RawBuffer) : (adopt raw).block? = raw.data.block? := by
  unfold adopt
  cases hb : raw.data.block? <;> rfl

end OwnedBuffer

namespace OwnedBatch

variable {h h' : Heap} {items : List Bytes} {secrecy : Secrecy}

/-- The tables of a batch: its data and its lengths. -/
def blocks (b : OwnedBatch) : List BlockId := b.data?.toList ++ b.sizes?.toList

/-- A batch in native memory leaves its own tables behind. -/
theorem change_copyFrom {b : OwnedBatch} (hs : h.Sound)
    (hc : copyFrom items secrecy h = (.ok b, h')) : h.Change [] h' b.blocks := by
  cases copying_of_copyFrom hc with
  | empty hnone => exact .refl hs
  | @lengths total sizes made hsome hzero hmeasure hsizes =>
      have htable := hs.change_request hsizes
      exact htable.write (htable.fresh sizes (by simp)).1 0 (sizeTable items)
  | @full total sizes data middle made hsome hpos hmeasure hsizes hdata =>
      have hfirst := hs.change_request hsizes
      have hboth := hfirst.trans (hfirst.sound.change_request hdata)
      have htable := hboth.write (hboth.fresh sizes (by simp)).1 0 (sizeTable items)
      have hbytes := htable.write (htable.fresh data (by simp)).1 0 items.flatten
      -- the size table comes first in the heap and second in the list of blocks
      refine hbytes.rebook (fun id => ?_) (by simp)
      simp only [blocks, Option.toList_some, List.count_append, List.count_nil]
      omega

/-- A batch that could not be made leaves nothing behind: when there is no memory for the data,
the size table that was made before it is freed again. -/
theorem change_copyFrom_error {fault : Fault} (hs : h.Sound)
    (hc : copyFrom items secrecy h = (.error fault, h')) : h.Change [] h' [] := by
  cases refusal_of_copyFrom hc with
  | oversized hmeasure => exact .refl hs
  | noSizes reason hsizes => exact hs.change_refused hsizes
  | @noData total sizes middle refused reason hsizes hdata =>
      have hfirst := hs.change_request hsizes
      have hrefused := hfirst.sound.change_refused hdata
      have hl : (refused.block? sizes).isSome := by
        rw [Heap.block?_request_none hdata, Heap.block?_request hsizes]
        simp
      have hfreed := hrefused.sound.change_free hl .sizeTable
      refine ((hfirst.trans hrefused).trans hfreed).rebook (fun id => by simp) fun id hid hold => ?_
      -- the block that is gone again is the one that was made here
      have heq : id = sizes := by simpa using hid
      have hnew := (hfirst.fresh sizes (by simp)).1
      exact absurd (heq ▸ hold) (Nat.not_lt.mpr hnew)

/-- Dropping the size table of a batch frees it. -/
theorem change_dropSizes {b : OwnedBatch} (hs : h.Sound) (hh : h.Has b.sizes?.toList) :
    h.Change b.sizes?.toList (b.dropSizes h) [] := by
  unfold dropSizes
  cases ht : b.sizes? with
  | none => exact .refl hs
  | some id =>
      rw [ht] at hh
      exact hs.change_free (hh.live (by simp)) .sizeTable

/-- Dropping a batch frees both of its tables. -/
theorem change_drop {b : OwnedBatch} (hs : h.Sound) (hh : h.Has b.blocks) :
    h.Change b.blocks (b.drop h) [] := by
  unfold drop
  unfold blocks at hh ⊢
  cases hd : b.data? with
  | none =>
      rw [hd] at hh
      exact change_dropSizes hs hh
  | some data =>
      rw [hd] at hh
      have hlive : (h.block? data).isSome := hh.left.live (by simp)
      have hdata := hs.change_release hlive b.total (b.secrecy = .secret)
      exact hdata.trans (change_dropSizes hdata.sound (hh.after hdata))

end OwnedBatch

namespace RawBatch

/-- The tables that a raw batch leads to. -/
def blocks (raw : RawBatch) : List BlockId := raw.data.block?.toList ++ raw.sizes.block?.toList

end RawBatch

namespace OwnedBatch

variable {h h' : Heap} {raw : RawBatch}

@[simp] theorem blocks_raw (b : OwnedBatch) : b.raw.blocks = b.blocks := by
  simp [RawBatch.blocks, OwnedBatch.raw, blocks]

/-- A batch that was taken over has the tables and the count of the raw batch, its total is what
the check found, and the heap is as it was. -/
theorem adopt_eq {b : OwnedBatch} (ha : adopt raw h = (.ok b, h')) :
    h' = h ∧ inspect raw h = .ok b.total ∧
      b = { data? := raw.data.block?, sizes? := raw.sizes.block?, count := raw.length,
            total := b.total, secrecy := .secret } := by
  unfold adopt at ha
  split at ha
  · cases ha
  · rename_i total hinspect
    cases ha
    exact ⟨rfl, hinspect, rfl⟩

/-- A batch that was taken over holds the tables of the raw batch, and the heap is as it was. -/
theorem adopt_ok {b : OwnedBatch} (ha : adopt raw h = (.ok b, h')) :
    h' = h ∧ b.blocks = raw.blocks := by
  obtain ⟨hheap, -, hb⟩ := adopt_eq ha
  rw [hb]
  exact ⟨hheap, rfl⟩

/-- A batch is rejected for the rule that it breaks, and both of its tables are freed. -/
theorem adopt_error {reason : Malformation} (ha : adopt raw h = (.error reason, h')) :
    inspect raw h = .error reason ∧
      h' = freeRejected raw.sizes (freeRejected raw.data h) := by
  unfold adopt at ha
  split at ha
  · rename_i hinspect
    cases ha
    exact ⟨hinspect, rfl⟩
  · cases ha

/-- A table of a malformed batch is freed. -/
theorem change_freeRejected {table : Pointer} (hs : h.Sound)
    (hh : h.Has table.block?.toList) :
    h.Change table.block?.toList (freeRejected table h) [] := by
  unfold freeRejected
  cases ht : table.block? with
  | none => exact .refl hs
  | some id =>
      rw [ht] at hh
      exact hs.change_free (hh.live (by simp)) .rejected

/-- A malformed batch is given back at once, both tables of it. -/
theorem change_reject {reason : Malformation} (hs : h.Sound) (hh : h.Has raw.blocks)
    (ha : adopt raw h = (.error reason, h')) : h.Change raw.blocks h' [] := by
  obtain ⟨-, rfl⟩ := adopt_error ha
  have hdata := change_freeRejected hs hh.left
  exact hdata.trans (change_freeRejected hdata.sound (hh.after hdata))

end OwnedBatch

namespace ScopeCopy

/-- The blocks that a copy of a scope holds; a block of a pool is not a block of its own. -/
def blocks : ScopeCopy → List BlockId
  | pooled _ => []
  | heap b => b.blocks
  | batch b => b.blocks

/-- The pool that a copy of a scope refers to. -/
def pools : ScopeCopy → List PoolId
  | pooled b => [b.pool]
  | heap _ => []
  | batch _ => []

/-- The place in a pool that a copy of a scope takes. -/
def places : ScopeCopy → List (PoolId × Nat)
  | pooled b => [(b.pool, b.index)]
  | heap _ => []
  | batch _ => []

end ScopeCopy

namespace Scope

/-- The blocks that a scope holds, those of its newest copy first. -/
def blocks (s : Scope) : List BlockId := s.copies.flatMap ScopeCopy.blocks

/-- The pools that a scope and its copies refer to. -/
def pools (s : Scope) : List PoolId := s.pool?.toList ++ s.copies.flatMap ScopeCopy.pools

/-- The places in pools that the copies of a scope take. -/
def places (s : Scope) : List (PoolId × Nat) := s.copies.flatMap ScopeCopy.places

end Scope

/-- Whoever holds native memory.  The last two are native code. -/
inductive Holder
  | buffer (b : OwnedBuffer)
  | batch (b : OwnedBatch)
  | block (b : PoolBlock)
  | pool (id : PoolId)
  | scope (s : Scope)
  | bridge (b : Bridge)
  | rawBuffer (raw : RawBuffer)
  | rawBatch (raw : RawBatch)
deriving DecidableEq, Repr

namespace Holder

/-- The blocks that a holder holds. -/
def blocks : Holder → List BlockId
  | buffer b => b.blocks
  | batch b => b.blocks
  | block _ => []
  | pool _ => []
  | scope s => s.blocks
  | bridge _ => []
  | rawBuffer raw => raw.data.block?.toList
  | rawBatch raw => raw.blocks

/-- The pools that a holder refers to. -/
def pools : Holder → List PoolId
  | buffer _ => []
  | batch _ => []
  | block b => [b.pool]
  | pool id => [id]
  | scope s => s.pools
  | bridge b => b.pool?.toList
  | rawBuffer _ => []
  | rawBatch _ => []

/-- The places in pools that a holder takes. -/
def places : Holder → List (PoolId × Nat)
  | buffer _ => []
  | batch _ => []
  | block b => [(b.pool, b.index)]
  | pool _ => []
  | scope s => s.places
  | bridge _ => []
  | rawBuffer _ => []
  | rawBatch _ => []

/-- Whether a holder is native code. -/
def isNative : Holder → Bool
  | rawBuffer _ => true
  | rawBatch _ => true
  | _ => false

/-- Whoever takes a place in a pool refers to the pool. -/
theorem pool_of_place (x : Holder) {place : PoolId × Nat} (hm : place ∈ x.places) :
    place.1 ∈ x.pools := by
  cases x with
  | block b =>
      rw [List.mem_singleton.mp hm]
      exact List.mem_singleton.mpr rfl
  | scope s =>
      obtain ⟨copy, hcopy, hplace⟩ := List.mem_flatMap.mp hm
      refine List.mem_append_right _ (List.mem_flatMap.mpr ⟨copy, hcopy, ?_⟩)
      cases copy with
      | pooled b =>
          rw [List.mem_singleton.mp hplace]
          exact List.mem_singleton.mpr rfl
      | heap b => cases hplace
      | batch b => cases hplace
  | buffer b => cases hm
  | batch b => cases hm
  | pool i => cases hm
  | bridge b => cases hm
  | rawBuffer raw => cases hm
  | rawBatch raw => cases hm

end Holder

/-- The blocks that some holders hold together. -/
def blocksOf (holders : List Holder) : List BlockId := holders.flatMap Holder.blocks

/-- The pools that some holders refer to, as often as they do. -/
def poolsOf (holders : List Holder) : List PoolId := holders.flatMap Holder.pools

/-- The places in pools that some holders take together. -/
def placesOf (holders : List Holder) : List (PoolId × Nat) := holders.flatMap Holder.places

section

variable (x : Holder) (xs ys : List Holder)

@[simp] theorem blocksOf_nil : blocksOf [] = [] := rfl

@[simp] theorem blocksOf_cons : blocksOf (x :: xs) = x.blocks ++ blocksOf xs := rfl

@[simp] theorem blocksOf_append : blocksOf (xs ++ ys) = blocksOf xs ++ blocksOf ys :=
  List.flatMap_append

@[simp] theorem poolsOf_nil : poolsOf [] = [] := rfl

@[simp] theorem poolsOf_cons : poolsOf (x :: xs) = x.pools ++ poolsOf xs := rfl

@[simp] theorem poolsOf_append : poolsOf (xs ++ ys) = poolsOf xs ++ poolsOf ys :=
  List.flatMap_append

@[simp] theorem placesOf_nil : placesOf [] = [] := rfl

@[simp] theorem placesOf_cons : placesOf (x :: xs) = x.places ++ placesOf xs := rfl

@[simp] theorem placesOf_append : placesOf (xs ++ ys) = placesOf xs ++ placesOf ys :=
  List.flatMap_append

/-- Nobody takes a place in a pool that nobody refers to. -/
theorem pool_of_placesOf {place : PoolId × Nat} (hm : place ∈ placesOf xs) :
    place.1 ∈ poolsOf xs := by
  obtain ⟨y, hy, hplace⟩ := List.mem_flatMap.mp hm
  exact List.mem_flatMap.mpr ⟨y, hy, y.pool_of_place hplace⟩

end

end NativeBoundary

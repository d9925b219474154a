import NativeBoundary.Proofs.Memory.Ledger
import NativeBoundary.Proofs.Memory.SizeTable

/-!
# Owners of data blocks

Of the blocks that a holder holds, some carry data and some are the size tables of batches.  Each
data block has one owner: a buffer, a batch, a copy of a scope, or a pool, whose region is a data
block too.  The owner knows how many bytes of the block are in use and whether they may stay where
they are when the block is freed.  What native code holds has an owner in waiting: the buffer or
the batch that the host will take it over as.

`Memory.Accounts.owner_unique` says that a block never has two owners.
-/

namespace NativeBoundary

/-- The owner of a data block: the block, how many of its bytes are in use, and whether they are
spared when it is freed. -/
structure Owner where
  data : BlockId
  length : Nat
  spared : Bool
deriving DecidableEq, Repr

/-- A public buffer that is not wiped on request is spared. -/
def OwnedBuffer.owners (b : OwnedBuffer) : List Owner :=
  b.block?.toList.map fun id => ⟨id, b.length, b.secrecy = .exposed ∧ b.wipePublic = false⟩

/-- A public batch is spared. -/
def OwnedBatch.owners (b : OwnedBatch) : List Owner :=
  b.data?.toList.map fun id => ⟨id, b.total, b.secrecy = .exposed⟩

namespace ScopeCopy

/-- The owner of the block that a copy holds; a block of a pool has no owner of its own. -/
def owners : ScopeCopy → List Owner
  | pooled _ => []
  | heap b => b.owners
  | batch b => b.owners

/-- The size table that a copy holds. -/
def tables : ScopeCopy → List BlockId
  | pooled _ => []
  | heap _ => []
  | batch b => b.sizes?.toList

end ScopeCopy

namespace Holder

/-- The owners of the data blocks that a holder holds. -/
def owners (h : Heap) : Holder → List Owner
  | buffer b => b.owners
  | batch b => b.owners
  | scope s => s.copies.flatMap ScopeCopy.owners
  | rawBuffer raw => (OwnedBuffer.adopt raw).owners
  | rawBatch raw =>
      match OwnedBatch.adopt raw h with
      | (.ok b, _) => b.owners
      | (.error _, _) => []
  | block _ | pool _ | bridge _ => []

/-- The size tables that a holder holds. -/
def tables : Holder → List BlockId
  | batch b => b.sizes?.toList
  | scope s => s.copies.flatMap ScopeCopy.tables
  | rawBatch raw => raw.sizes.block?.toList
  | buffer _ | block _ | pool _ | bridge _ | rawBuffer _ => []

end Holder

/-- Who owns which data block of memory: a holder, or a pool its region. -/
def Memory.Owns (m : Memory) (holders : List Holder) (o : Owner) : Prop :=
  (∃ x ∈ holders, o ∈ x.owners m.heap) ∨
    ∃ p, m.pool? o.data = some p ∧ o = ⟨o.data, p.count * p.blockSize, false⟩

theorem count_part_le {α β : Type} [DecidableEq β] {f : α → List β} {xs : List α} {x : α}
    (hx : x ∈ xs) (b : β) : (f x).count b ≤ (xs.flatMap f).count b := by
  rw [List.flatMap_def]
  exact (List.sublist_flatten_of_mem (List.mem_map_of_mem hx)).count_le b

/-- An element that stands once in a concatenation stands in one part of it. -/
theorem part_unique {α β : Type} [DecidableEq β] {f : α → List β} {xs : List α} {b : β}
    (hone : (xs.flatMap f).count b ≤ 1) {x y : α} (hx : x ∈ xs) (hy : y ∈ xs)
    (hbx : b ∈ f x) (hby : b ∈ f y) : x = y := by
  induction xs with
  | nil => cases hx
  | cons z zs ih =>
      rw [List.flatMap_cons, List.count_append] at hone
      have hrest : ∀ {w}, w ∈ zs → b ∈ f w → 0 < (zs.flatMap f).count b :=
        fun hw hbw => List.count_pos_iff.mpr (List.mem_flatMap.mpr ⟨_, hw, hbw⟩)
      have hfirst : b ∈ f z → 0 < (f z).count b := fun h => List.count_pos_iff.mpr h
      rcases List.mem_cons.mp hx with rfl | hx'
      · rcases List.mem_cons.mp hy with rfl | hy'
        · rfl
        · have := hfirst hbx
          have := hrest hy' hby
          omega
      · rcases List.mem_cons.mp hy with rfl | hy'
        · have := hfirst hby
          have := hrest hx' hbx
          omega
        · exact ih (by omega) hx' hy'

theorem OwnedBuffer.mem_blocks_of_owner {b : OwnedBuffer} {o : Owner} (ho : o ∈ b.owners) :
    o.data ∈ b.blocks := by
  obtain ⟨id, hid, rfl⟩ := List.mem_map.mp ho
  exact hid

theorem OwnedBatch.mem_blocks_of_owner {b : OwnedBatch} {o : Owner} (ho : o ∈ b.owners) :
    o.data ∈ b.data?.toList ∧ o.data ∈ b.blocks := by
  obtain ⟨id, hid, rfl⟩ := List.mem_map.mp ho
  exact ⟨hid, List.mem_append_left _ hid⟩

/-- The data of a batch are not its size table. -/
theorem OwnedBatch.data_ne_sizes {b : OwnedBatch} {id : BlockId}
    (hone : b.blocks.count id ≤ 1) (hdata : id ∈ b.data?.toList) : id ∉ b.sizes?.toList := by
  intro hsizes
  have hd : 0 < b.data?.toList.count id := List.count_pos_iff.mpr hdata
  have ht : 0 < b.sizes?.toList.count id := List.count_pos_iff.mpr hsizes
  rw [OwnedBatch.blocks, List.count_append] at hone
  omega

namespace ScopeCopy

variable {copy : ScopeCopy} {o o' : Owner} {id : BlockId}

theorem mem_blocks_of_owner (ho : o ∈ copy.owners) : o.data ∈ copy.blocks := by
  cases copy with
  | pooled b => cases ho
  | heap b => exact OwnedBuffer.mem_blocks_of_owner ho
  | batch b => exact (OwnedBatch.mem_blocks_of_owner ho).2

theorem mem_blocks_of_table (ht : id ∈ copy.tables) : id ∈ copy.blocks := by
  cases copy with
  | pooled b => cases ht
  | heap b => cases ht
  | batch b => exact List.mem_append_right _ ht

theorem not_table_of_owner (ho : o ∈ copy.owners) (hone : copy.blocks.count o.data ≤ 1) :
    o.data ∉ copy.tables := by
  cases copy with
  | pooled b => cases ho
  | heap b => exact List.not_mem_nil
  | batch b => exact OwnedBatch.data_ne_sizes hone (OwnedBatch.mem_blocks_of_owner ho).1

end ScopeCopy

/-- There is at most one block to own. -/
theorem owner_of_option {id? : Option BlockId} {f : BlockId → Owner} {o o' : Owner}
    (ho : o ∈ id?.toList.map f) (ho' : o' ∈ id?.toList.map f) : o = o' := by
  cases id? with
  | none => cases ho
  | some id =>
      rw [List.mem_singleton.mp ho, List.mem_singleton.mp ho']

namespace Holder

variable {x : Holder} {h : Heap} {o o' : Owner} {id : BlockId}

/-- A holder owns blocks that it holds. -/
theorem mem_blocks_of_owner (ho : o ∈ x.owners h) : o.data ∈ x.blocks := by
  cases x with
  | buffer b => exact OwnedBuffer.mem_blocks_of_owner ho
  | batch b => exact (OwnedBatch.mem_blocks_of_owner ho).2
  | scope s =>
      obtain ⟨copy, hcopy, ho⟩ := List.mem_flatMap.mp ho
      exact List.mem_flatMap.mpr ⟨copy, hcopy, ScopeCopy.mem_blocks_of_owner ho⟩
  | rawBuffer raw =>
      have hblock := OwnedBuffer.mem_blocks_of_owner ho
      rw [OwnedBuffer.blocks, OwnedBuffer.block?_adopt] at hblock
      exact hblock
  | rawBatch raw =>
      simp only [owners] at ho
      split at ho
      · rename_i b _ hadopt
        have hblock := (OwnedBatch.mem_blocks_of_owner ho).2
        rw [(OwnedBatch.adopt_ok hadopt).2] at hblock
        exact hblock
      · cases ho
  | block b => cases ho
  | pool id => cases ho
  | bridge b => cases ho

theorem mem_blocks_of_table (ht : id ∈ x.tables) : id ∈ x.blocks := by
  cases x with
  | batch b => exact List.mem_append_right _ ht
  | scope s =>
      obtain ⟨copy, hcopy, ht⟩ := List.mem_flatMap.mp ht
      exact List.mem_flatMap.mpr ⟨copy, hcopy, ScopeCopy.mem_blocks_of_table ht⟩
  | rawBatch raw => exact List.mem_append_right _ ht
  | buffer b => cases ht
  | block b => cases ht
  | pool id => cases ht
  | bridge b => cases ht
  | rawBuffer raw => cases ht

/-- A holder that holds a block once does not use it for data and for a size table. -/
theorem not_table_of_owner (ho : o ∈ x.owners h) (hone : x.blocks.count o.data ≤ 1) :
    o.data ∉ x.tables := by
  cases x with
  | batch b => exact OwnedBatch.data_ne_sizes hone (OwnedBatch.mem_blocks_of_owner ho).1
  | scope s =>
      intro ht
      obtain ⟨copy, hcopy, ho⟩ := List.mem_flatMap.mp ho
      obtain ⟨copy', hcopy', ht⟩ := List.mem_flatMap.mp ht
      have hblock := ScopeCopy.mem_blocks_of_owner ho
      have hsame := part_unique hone hcopy hcopy' hblock (ScopeCopy.mem_blocks_of_table ht)
      subst hsame
      have hpart : copy.blocks.count o.data ≤ 1 :=
        Nat.le_trans (count_part_le hcopy _) hone
      exact ScopeCopy.not_table_of_owner ho hpart ht
  | rawBatch raw =>
      simp only [owners] at ho
      split at ho
      · rename_i b _ hadopt
        obtain ⟨-, -, hb⟩ := OwnedBatch.adopt_eq hadopt
        have hdata := (OwnedBatch.mem_blocks_of_owner ho).1
        have hone' : b.blocks.count o.data ≤ 1 := by
          rw [(OwnedBatch.adopt_ok hadopt).2]
          exact hone
        have hnot := OwnedBatch.data_ne_sizes hone' hdata
        rw [hb] at hnot
        exact hnot
      · cases ho
  | buffer b => exact List.not_mem_nil
  | rawBuffer raw => exact List.not_mem_nil
  | block b => cases ho
  | pool id => cases ho
  | bridge b => cases ho

/-- A holder that holds a block once has one owner for it. -/
theorem owner_unique (hone : x.blocks.count o.data ≤ 1) (ho : o ∈ x.owners h)
    (ho' : o' ∈ x.owners h) (hdata : o'.data = o.data) : o = o' := by
  cases x with
  | buffer b => exact owner_of_option ho ho'
  | batch b => exact owner_of_option ho ho'
  | scope s =>
      obtain ⟨copy, hcopy, ho⟩ := List.mem_flatMap.mp ho
      obtain ⟨copy', hcopy', ho'⟩ := List.mem_flatMap.mp ho'
      have hblock := ScopeCopy.mem_blocks_of_owner ho
      have hblock' := ScopeCopy.mem_blocks_of_owner ho'
      rw [hdata] at hblock'
      have hsame := part_unique hone hcopy hcopy' hblock hblock'
      subst hsame
      cases copy with
      | pooled b => cases ho
      | heap b => exact owner_of_option ho ho'
      | batch b => exact owner_of_option ho ho'
  | rawBuffer raw => exact owner_of_option ho ho'
  | rawBatch raw =>
      simp only [owners] at ho ho'
      split at ho
      · rename_i b _ hadopt
        simp only [hadopt] at ho'
        exact owner_of_option ho ho'
      · cases ho
  | block b => cases ho
  | pool id => cases ho
  | bridge b => cases ho

end Holder

namespace Memory

variable {m : Memory} {holders : List Holder} {o o' : Owner} {x y : Holder} {id : BlockId}

/-- Two holders that hold the same block are one. -/
theorem Accounts.holder_unique (ha : m.Accounts holders) (hx : x ∈ holders) (hy : y ∈ holders)
    (hidx : id ∈ x.blocks) (hidy : id ∈ y.blocks) : x = y := by
  have hone : (blocksOf holders).count id ≤ 1 :=
    Nat.le_trans (ha.has id) (m.heap.liveCount_le_one id)
  exact part_unique hone hx hy hidx hidy

theorem Accounts.count_le_one (ha : m.Accounts holders) (hx : x ∈ holders) (id : BlockId) :
    x.blocks.count id ≤ 1 := by
  have hall := Nat.le_trans (ha.has id) (m.heap.liveCount_le_one id)
  exact Nat.le_trans (count_part_le hx id) hall

/-- A block that is held is not the region of a pool. -/
theorem Accounts.not_region (ha : m.Accounts holders) (hx : x ∈ holders) (hid : id ∈ x.blocks) :
    m.pool? id = none :=
  ha.pool?_of_held (List.mem_flatMap.mpr ⟨x, hx, hid⟩)

/-- No block has two owners. -/
theorem Accounts.owner_unique (ha : m.Accounts holders) (ho : m.Owns holders o)
    (ho' : m.Owns holders o') (hdata : o'.data = o.data) : o = o' := by
  rcases ho with ⟨x, hx, ho⟩ | ⟨p, hp, hregion⟩
  · have hblock := Holder.mem_blocks_of_owner ho
    rcases ho' with ⟨y, hy, ho'⟩ | ⟨p', hp', -⟩
    · have hblock' := Holder.mem_blocks_of_owner ho'
      rw [hdata] at hblock'
      cases ha.holder_unique hx hy hblock hblock'
      exact Holder.owner_unique (ha.count_le_one hx _) ho ho' hdata
    · rw [hdata, ha.not_region hx hblock] at hp'
      cases hp'
  · rcases ho' with ⟨y, hy, ho'⟩ | ⟨p', hp', hregion'⟩
    · have hblock' := Holder.mem_blocks_of_owner ho'
      rw [hdata] at hblock'
      rw [ha.not_region hy hblock'] at hp
      cases hp
    · rw [hdata, hp] at hp'
      cases hp'
      rw [hregion, hregion', hdata]

/-- A block that has an owner is live. -/
theorem Accounts.owned_live (ha : m.Accounts holders) (ho : m.Owns holders o) :
    (m.heap.block? o.data).isSome := by
  rcases ho with ⟨x, hx, ho⟩ | ⟨p, hp, -⟩
  · exact ha.has.live (List.mem_flatMap.mpr ⟨x, hx, Holder.mem_blocks_of_owner ho⟩)
  · exact ha.region_live hp

/-- No block is the size table of a holder and owned for its data. -/
theorem Accounts.not_owned_of_table (ha : m.Accounts holders) (hx : x ∈ holders)
    (ht : id ∈ x.tables) : ¬ (m.Owns holders o ∧ o.data = id) := by
  rintro ⟨ho, rfl⟩
  have hheld := Holder.mem_blocks_of_table ht
  rcases ho with ⟨y, hy, ho⟩ | ⟨p, hp, -⟩
  · cases ha.holder_unique hx hy hheld (Holder.mem_blocks_of_owner ho)
    exact Holder.not_table_of_owner ho (ha.count_le_one hx _) ht
  · rw [ha.not_region hx hheld] at hp
    cases hp

end Memory

end NativeBoundary

import NativeBoundary.Proofs.Process.Tending

/-!
# No block carries bytes from one use to the next

A run of a process in which native code also writes into blocks of pools, through the raw buffers
that show them to it.  Whatever is done in whatever order, and whoever holds the blocks: a block
that is free is zero; a block that is held is zero behind the bytes that it has in use; a write
leaves exactly the bytes that were written; and neither a write nor a release changes a byte of
another block.  The region of a pool is freed once, all zero, and that is the moment when its last
user is gone.

* `Ledger.afterUses` — the ledger after such a run;
* `Ledger.Unspoiled` — what holds of a pool at one moment;
* `Ledger.Fate` — what has become of a region;
* `Ledger.pools_unspoiled` — both hold after every run.
-/

namespace NativeBoundary

namespace Memory

variable {m m' : Memory} {b b' : PoolBlock} {id : PoolId} {p q : Pool} {holders : List Holder}
  {data : Bytes}

/-- A block that somebody holds may be seen as a holder of its own. -/
theorem holdings_block (hb : b ∈ poolBlocksOf holders) :
    ∃ rest, SameHoldings holders ([.block b] ++ rest) := by
  obtain ⟨x, hx, hb⟩ := List.mem_flatMap.mp hb
  have hsplit : SameHoldings holders ([x] ++ holders.erase x) := .of_perm (List.perm_cons_erase hx)
  suffices hown : ∃ own, SameHoldings [x] ([.block b] ++ own) by
    obtain ⟨own, hown⟩ := hown
    refine ⟨own ++ holders.erase x, hsplit.trans ?_⟩
    rw [← List.append_assoc]
    exact hown.append_right _
  cases x with
  | block c =>
      cases List.mem_singleton.mp hb
      exact ⟨[], .refl _⟩
  | scope s =>
      obtain ⟨copy, hcopy, hb⟩ := List.mem_flatMap.mp hb
      have hpooled : copy = .pooled b := by
        cases copy with
        | pooled c => rw [List.mem_singleton.mp hb]
        | heap _ | batch _ => cases hb
      have hmem : .block b ∈ s.copies.map ScopeCopy.holder ++ s.poolHolder :=
        List.mem_append_left _ (List.mem_map.mpr ⟨copy, hcopy, by rw [hpooled]; rfl⟩)
      exact ⟨_, (holdings_scope s).trans (.of_perm (List.perm_cons_erase hmem))⟩
  | buffer _ | batch _ | pool _ | bridge _ | rawBuffer _ | rawBatch _ => cases hb

/-- Native code that writes into a block leaves alone whoever else there is. -/
theorem tended_fill (hb : b ∈ poolBlocksOf holders) (offset : Nat) (data : Bytes)
    (ha : m.Accounts holders) (hc : m.Clean holders) :
    m.Tended [] (m.fill b offset data) holders := by
  obtain ⟨rest, hsplit⟩ := holdings_block hb
  have hfill := ((tends_fill m b offset data).frame rest).congr hsplit hsplit.symm
  have hdone := hfill [] (by rwa [List.append_nil]) (by rwa [List.append_nil])
  rw [List.append_nil] at hdone
  exact hdone

end Memory

/-- What is done in a process in which native code writes into blocks of pools. -/
inductive Use
  | work (op : Process.Operation)
  /-- Native code writes through the raw buffer of a block that somebody holds. -/
  | fill (b : PoolBlock) (offset : Nat) (data : Bytes)

namespace Ledger

variable {s : Ledger}

/-- One such step.  Nothing happens when nobody holds the block. -/
def use (s : Ledger) : Use → Ledger
  | .work op => s.work op
  | .fill b offset data =>
      if b ∈ poolBlocksOf s.holders then
        { s with process := s.process.setMemory (s.memory.fill b offset data) }
      else s

/-- The ledger after some steps in a new process. -/
def afterUses (uses : List Use) : Ledger := uses.foldl use {}

/-- The books agree with the holders, and pools are clean. -/
structure Clean (s : Ledger) : Prop where
  balanced : s.Balanced
  clean : s.memory.Clean s.holders

theorem clean_empty : Clean {} := ⟨balanced_empty, Memory.clean_empty⟩

/-- What a step does to memory, seen by nobody in particular. -/
theorem Clean.tended_use (hs : s.Clean) (u : Use) :
    s.memory.Tended [] (s.use u).memory (s.use u).holders := by
  cases u with
  | work op =>
      have ha : s.memory.Accounts (s.holders ++ []) := by
        rw [List.append_nil]
        exact hs.balanced
      have hc : s.memory.Clean (s.holders ++ []) := by
        rw [List.append_nil]
        exact hs.clean
      have hdone := tended_work op ha hc
      rw [List.append_nil] at hdone
      exact hdone
  | fill b offset data =>
      simp only [use]
      split
      · rename_i hb
        exact Memory.tended_fill hb offset data hs.balanced hs.clean
      · exact .refl hs.balanced hs.clean

/-- Every step keeps pools clean. -/
theorem Clean.use (hs : s.Clean) (u : Use) : (s.use u).Clean :=
  ⟨(hs.tended_use u).accounts, (hs.tended_use u).clean⟩

/-- So does a run. -/
theorem Clean.run (hs : s.Clean) (uses : List Use) :
    (uses.foldl Ledger.use s).Clean ∧
      s.memory.Tended [] (uses.foldl Ledger.use s).memory (uses.foldl Ledger.use s).holders := by
  induction uses generalizing s with
  | nil => exact ⟨hs, .refl hs.balanced hs.clean⟩
  | cons u uses ih =>
      obtain ⟨hclean, htended⟩ := ih (hs.use u)
      exact ⟨hclean, (hs.tended_use u).trans hs.balanced htended fun _ hid => by cases hid⟩

theorem clean_afterUses (uses : List Use) : (afterUses uses).Clean := (clean_empty.run uses).1

/-- What holds of a pool at one moment. -/
structure Unspoiled (s : Ledger) (id : PoolId) (p : Pool) : Prop where
  /-- A block that is free is zero. -/
  free : ∀ i ∈ p.free, s.memory.inspectBlock id i = some (Bytes.zeros p.blockSize)
  /-- A block that is held is zero behind what it has in use. -/
  held : ∀ b ∈ s.held id, b.length ≤ p.blockSize ∧ s.memory.inspectBlock id b.index =
    some (s.memory.blockBytes b ++ Bytes.zeros (p.blockSize - b.length))
  /-- A write leaves exactly its bytes. -/
  written : ∀ b ∈ s.held id, ∀ data b' m', s.memory.writeBlock b data = (some b', m') →
    b' = { b with length := data.length } ∧ m'.blockBytes b' = data
  /-- It is refused only when they do not fit, and then changes nothing. -/
  refused : ∀ b ∈ s.held id, ∀ data,
    ((s.memory.writeBlock b data).1 = none ↔ p.blockSize < data.length) ∧
      ((s.memory.writeBlock b data).1 = none → (s.memory.writeBlock b data).2 = s.memory)
  /-- Neither a write nor a release changes a byte of another block. -/
  writes : ∀ b ∈ s.held id, ∀ data j i, (j, i) ≠ (id, b.index) →
    (s.memory.writeBlock b data).2.inspectBlock j i = s.memory.inspectBlock j i
  releases : ∀ b ∈ s.held id, ∀ j i, (j, i) ≠ (id, b.index) →
    ((s.memory.releaseBlock b).pool? j).isSome →
      (s.memory.releaseBlock b).inspectBlock j i = s.memory.inspectBlock j i

/-- Clean pools are unspoiled. -/
theorem Clean.unspoiled (hs : s.Clean) {id : PoolId} {p : Pool} (hp : s.memory.pool? id = some p) :
    s.Unspoiled id p := by
  have hlive := hs.balanced.region_live hp
  have hheld : ∀ b ∈ s.held id, b ∈ poolBlocksOf s.holders ∧ b.pool = id ∧ b.index < p.count ∧
      b.length ≤ p.blockSize := by
    intro b hb
    obtain ⟨hmem, rfl⟩ := (mem_heldIn s.holders).mp hb
    obtain ⟨q, hq, hindex⟩ := hs.balanced.index_lt hmem
    rw [hp] at hq
    cases hq
    exact ⟨hmem, rfl, hindex, hs.clean.fits b hmem hp⟩
  refine ⟨fun i hi => ?_, fun b hb => ?_, fun b hb data b' m' hwrite => ?_, fun b hb data => ?_,
    fun b hb data j i hother => ?_, fun b hb j i hother hlives => ?_⟩
  · have hlt : i < p.count := by
      have hall := (hs.balanced.places_perm hp).mem_iff.mp (List.mem_append_left _ hi)
      exact List.mem_range.mp hall
    rw [Memory.inspectBlock_eq hp hlt]
    exact congrArg some (Heap.read_of_zero (hs.clean.free hp i hi))
  · obtain ⟨hmem, rfl, hindex, hfits⟩ := hheld b hb
    refine ⟨hfits, ?_⟩
    rw [Memory.inspectBlock_eq hp hindex]
    refine congrArg some ?_
    have hsplit := s.memory.heap.read_append b.pool (Memory.blockOffset p b.index) b.length
      (p.blockSize - b.length)
    rw [Nat.add_sub_cancel' hfits] at hsplit
    have hzero : ∀ k < p.blockSize - b.length,
        s.memory.heap.byteAt b.pool (Memory.blockOffset p b.index + b.length + k) = 0 := by
      intro k hk
      rw [Nat.add_assoc]
      exact hs.clean.tail b hmem hp _ (Nat.le_add_right _ _) (by omega)
    rw [hsplit, Heap.read_of_zero hzero]
    unfold Memory.blockBytes
    rw [hp]
  · obtain ⟨-, rfl, -⟩ := hheld b hb
    obtain ⟨-, -, -, hb', -⟩ := Memory.writeBlock_some hwrite
    exact ⟨hb', Memory.read_writeBlock hp hlive hwrite⟩
  · obtain ⟨-, rfl, -⟩ := hheld b hb
    exact ⟨Memory.writeBlock_eq_none_iff hp,
      fun hnone => Memory.writeBlock_none (Prod.ext hnone rfl)⟩
  · obtain ⟨-, rfl, -, hfits⟩ := hheld b hb
    exact Memory.inspectBlock_writeBlock hp hlive hfits hother
  · obtain ⟨-, rfl, -⟩ := hheld b hb
    exact Memory.inspectBlock_releaseBlock hp hother hlives

/-- What has become of the region of a pool of a shape: it is there while somebody uses the pool,
and with the last user it was freed, once, when it was zero throughout. -/
def Fate (s : Ledger) (id : PoolId) (size : Nat) : Prop :=
  if id ∈ poolsOf s.holders then s.memory.heap.size? id = some size ∧ id ∉ s.memory.heap.freed
  else (s.memory.heap.block? id).isNone ∧ s.memory.heap.freed.count id = 1 ∧
    ∃ last, .freed id last (.payload size true) ∈ s.memory.heap.trace ∧ last.size = size ∧
      last.Clear size

/-- The fate of a pool that was there at some moment. -/
theorem Clean.fate {t : Ledger} (hs : s.Clean) (ht : t.Clean)
    (htended : s.memory.Tended [] t.memory t.holders) {id : PoolId} {p : Pool}
    (hp : s.memory.pool? id = some p) : t.Fate id (p.count * p.blockSize) := by
  have hbalance := ht.balanced.sound.balance id
  unfold Fate
  split
  · rename_i hused
    obtain ⟨q, hq⟩ := ht.balanced.pool_live hused
    obtain ⟨hcount, hsize⟩ := htended.spares.same_shape hs.balanced hp hq
    have hregion := ((ht.balanced.pools id).pool hq).2
    rw [hcount, hsize] at hregion
    have hlive := Heap.liveCount_pos_iff.mpr (ht.balanced.region_live hq)
    refine ⟨hregion, List.count_eq_zero.mp ?_⟩
    split at hbalance <;> omega
  · rename_i hunused
    obtain ⟨last, hfreed, hlast⟩ := htended.ends hp (ht.balanced.pool_gone hunused)
    have hmem : id ∈ t.memory.heap.freed := List.mem_filterMap.mpr ⟨_, hfreed, rfl⟩
    have hpos := List.count_pos_iff.mpr hmem
    have hgone := ht.balanced.sound.not_live_of_freed hmem
    refine ⟨?_, by split at hbalance <;> omega, last, hfreed, hlast⟩
    cases hb : t.memory.heap.block? id with
    | none => rfl
    | some b => simp [Heap.liveCount, hb] at hgone

/-- No block of a pool ever carries bytes from one use to the next, and the region of a pool is
freed once, all zero, when and only when its last user is gone. -/
theorem pools_unspoiled (uses : List Use) :
    (∀ id p, (afterUses uses).memory.pool? id = some p → (afterUses uses).Unspoiled id p) ∧
    ∀ count blockSize id, ((afterUses uses).memory.createPool count blockSize).1 = some id →
      ∀ later, (afterUses (uses ++ .work (.memory (.createPool count blockSize)) :: later)).Fate id
        (count * blockSize) := by
  refine ⟨fun id p hp => (clean_afterUses uses).unspoiled hp, ?_⟩
  intro count blockSize id hnew later
  obtain ⟨m, hcreate⟩ : ∃ m, (afterUses uses).memory.createPool count blockSize = (some id, m) :=
    ⟨_, Prod.ext hnew rfl⟩
  have hmemory : ((afterUses uses).use (.work (.memory (.createPool count blockSize)))).memory =
      m := by
    refine (Memory.Operation.memory_createPool (afterUses uses).process count blockSize).trans ?_
    exact congrArg Prod.snd hcreate
  have hmade := (Memory.createPool_some hcreate).2
  rw [← hmemory] at hmade
  have hclean := (clean_afterUses uses).use (.work (.memory (.createPool count blockSize)))
  obtain ⟨hlater, htended⟩ := hclean.run later
  have hfate := hclean.fate hlater htended hmade
  unfold afterUses at hfate ⊢
  rw [List.foldl_append, List.foldl_cons]
  exact hfate

/-- A block is written, native code writes into it, and it is written again with fewer bytes. -/
def rewrittenBlock : List Use :=
  [.work (.memory (.acquireWith 0 [1, 2, 3])), .fill { pool := 0, index := 0, length := 3 } 1 [9, 9],
    .work (.memory (.writeBlock { pool := 0, index := 0, length := 3 } [5]))]

theorem pools_unspoiled_rewritten :
    (afterUses (.work (.memory (.createPool 2 4)) :: rewrittenBlock)).memory.inspectBlock 0 0 =
        some [5, 0, 0, 0] ∧
      (afterUses (.work (.memory (.createPool 2 4)) :: rewrittenBlock)).Unspoiled 0
        { blockSize := 4, count := 2, free := [1], inUse := 1, users := 2 } ∧
      (afterUses (.work (.memory (.createPool 2 4)) :: rewrittenBlock)).Fate 0 8 :=
  ⟨by decide, (pools_unspoiled (.work (.memory (.createPool 2 4)) :: rewrittenBlock)).1 0 _
    (by decide), (pools_unspoiled []).2 2 4 0 (by decide) rewrittenBlock⟩

end Ledger

end NativeBoundary

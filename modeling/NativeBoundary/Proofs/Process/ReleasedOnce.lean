import Mathlib.Data.List.Dedup
import NativeBoundary.Proofs.Process.Honest

/-!
# Released once

At every point of every run, the live native blocks are exactly the disjoint union of three things:
the blocks of the buffers, batches and scopes that the host holds, one region for each pool that
somebody still refers to, and the blocks that native code was handed and has not given back.

So every block is live until it is freed, and freed at most once; nothing is freed that somebody
holds or whose pool is in use; and when nobody holds anything any more, nothing is left.

* `Ledger.Exact` — the statement about one moment;
* `Ledger.released_once` — it holds after every run.
-/

namespace NativeBoundary

namespace Heap

variable {h : Heap} {id : BlockId}

theorem mem_live (hs : h.Sound) : id ∈ h.live ↔ (h.block? id).isSome := by
  rw [mem_live_iff, and_iff_right_iff_imp]
  exact hs.lt_next

/-- The list of live blocks counts them. -/
theorem count_live (hs : h.Sound) (id : BlockId) : h.live.count id = h.liveCount id := by
  rw [h.live_nodup.count]
  unfold liveCount
  by_cases hl : (h.block? id).isSome
  · rw [if_pos ((mem_live hs).mpr hl), if_pos hl]
  · rw [if_neg (fun hm => hl ((mem_live hs).mp hm)), if_neg hl]

end Heap

namespace Ledger

/-- The holders that are host code. -/
def hosts (s : Ledger) : List Holder := s.holders.filter fun x => !x.isNative

/-- The holders that are native code. -/
def natives (s : Ledger) : List Holder := s.holders.filter Holder.isNative

/-- The regions of the pools that somebody refers to. -/
def regions (s : Ledger) : List BlockId := (poolsOf s.holders).dedup

/-- Every native block is accounted for. -/
structure Exact (s : Ledger) : Prop where
  /-- The live blocks are those of the host, of pools in use, and of native code. -/
  live : s.process.heap.live.Perm (blocksOf s.hosts ++ s.regions ++ blocksOf s.natives)
  /-- No block is held twice. -/
  disjoint : (blocksOf s.hosts ++ s.regions ++ blocksOf s.natives).Nodup
  /-- A block that was made is live, or was freed exactly once. -/
  balance : ∀ id < s.process.heap.next,
    (id ∈ s.process.heap.live ∧ id ∉ s.process.heap.freed) ∨
      (id ∉ s.process.heap.live ∧ s.process.heap.freed.count id = 1)
  /-- Nothing was freed that was not live. -/
  proper : ∀ id, .misfreed id ∉ s.process.heap.trace
  /-- Nothing was freed that somebody holds, or whose pool somebody refers to. -/
  unused : ∀ id ∈ s.process.heap.freed, id ∉ blocksOf s.holders ∧ id ∉ poolsOf s.holders
  /-- When nobody holds anything, nothing is left. -/
  clean : blocksOf s.holders = [] → poolsOf s.holders = [] → s.process.heap.live = []

variable {s : Ledger}

/-- Host code and native code together hold what the holders hold. -/
theorem count_blocks (s : Ledger) (id : BlockId) :
    (blocksOf s.hosts).count id + (blocksOf s.natives).count id = (blocksOf s.holders).count id := by
  have hperm : (s.natives ++ s.hosts).Perm s.holders :=
    List.filter_append_perm Holder.isNative s.holders
  have hcount := (hperm.flatMap_right Holder.blocks).count_eq id
  change (blocksOf (s.natives ++ s.hosts)).count id = (blocksOf s.holders).count id at hcount
  rw [blocksOf_append, List.count_append] at hcount
  omega

theorem count_regions (hb : s.Balanced) (id : BlockId) :
    s.regions.count id = s.memory.regions id := by
  unfold regions
  rw [List.count_dedup, hb.regions_eq id]

/-- A block is live as often as somebody holds it or a pool in use has it as its region. -/
theorem count_live (hb : s.Balanced) (id : BlockId) :
    s.process.heap.live.count id =
      (blocksOf s.hosts ++ s.regions ++ blocksOf s.natives).count id := by
  have hlive : s.process.heap.live.count id = s.process.heap.liveCount id :=
    Heap.count_live hb.sound id
  have hblocks : s.process.heap.liveCount id = _ := hb.blocks id
  have hparts := s.count_blocks id
  have hregions := count_regions hb id
  rw [List.count_append, List.count_append]
  omega

/-- Balanced books account for every block. -/
theorem Balanced.exact (hb : s.Balanced) : s.Exact := by
  have hlive : s.process.heap.live.Perm (blocksOf s.hosts ++ s.regions ++ blocksOf s.natives) :=
    List.perm_iff_count.mpr (count_live hb)
  have hsound : s.process.heap.Sound := hb.sound
  refine ⟨hlive, hlive.nodup_iff.mp s.process.heap.live_nodup, fun id hid => ?_, hsound.proper,
    fun id hfreed => ?_, fun hblocks hpools => ?_⟩
  · have hbalance := hsound.balance id
    rw [if_pos hid] at hbalance
    by_cases hl : (s.process.heap.block? id).isSome
    · have hone := Heap.liveCount_pos_iff.mpr hl
      exact .inl ⟨(Heap.mem_live hsound).mpr hl, List.count_eq_zero.mp (by omega)⟩
    · have hnone : s.process.heap.liveCount id = 0 := if_neg hl
      exact .inr ⟨fun hm => hl ((Heap.mem_live hsound).mp hm), by omega⟩
  · have hgone := hsound.not_live_of_freed hfreed
    have hcount : s.process.heap.liveCount id = _ := hb.blocks id
    constructor
    · intro hm
      have hpos : 0 < (blocksOf s.holders).count id := List.count_pos_iff.mpr hm
      omega
    · intro hm
      have hregion := hb.regions_eq id
      rw [if_pos hm] at hregion
      omega
  · refine List.eq_nil_iff_forall_not_mem.mpr fun id hm => ?_
    have hpos : 0 < s.process.heap.live.count id := List.count_pos_iff.mpr hm
    have hcount := Heap.count_live hsound id
    have hblocks' : s.process.heap.liveCount id = _ := hb.blocks id
    have hregion := hb.regions_eq id
    rw [hblocks] at hblocks'
    rw [hpools, if_neg List.not_mem_nil] at hregion
    rw [List.count_nil] at hblocks'
    omega

/-- Every native block is released exactly once.  After every run, the live blocks are exactly
those that somebody holds, once each; and as long as native code makes no buffers of its own, a
raw buffer that would not be released because it counts as empty has no block. -/
theorem released_once (ops : List Process.Operation) :
    (history ops).Exact ∧ ((∀ op ∈ ops, op.isForeign = false) →
      ∀ raw, .rawBuffer raw ∈ (history ops).holders → raw.isEmpty = true →
        raw.data.block? = none) := by
  refine ⟨(balanced_history ops).exact, fun hown raw hraw hempty => ?_⟩
  have hhonest : raw.Honest := allHonest_history hown _ hraw
  cases hblock : raw.data.block? with
  | none => rfl
  | some id =>
      have hfull := hhonest (by simp [hblock])
      rw [hempty] at hfull
      cases hfull

end Ledger

end NativeBoundary

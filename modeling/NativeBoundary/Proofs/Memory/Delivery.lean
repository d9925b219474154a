import NativeBoundary.Proofs.Memory.Conservation
import NativeBoundary.Proofs.Memory.SizeTable

/-!
# Results in native memory

What native code is handed is first copied into native blocks, one byte string after the other.  A
copy is refused when its length does not fit the size field, or when the allocator refuses the
block; `Heap.canHold` says for a list of byte strings whether none of them is refused.

`Heap.Delivers h h' outputs raws` sums up such work: the raw buffers carry the byte strings, the
live blocks are those from before followed by the blocks of the raw buffers, and every block from
before is as it was.  Nothing delivered is nothing left behind.

* `OwnedBuffer.delivers_copyFrom`, `OwnedBuffer.delivers_copyFrom_error` — a copy is delivered, or
  nothing is, as `canHold` says;
* `OwnedBuffer.delivers_pair`, `OwnedBuffer.delivers_drop` — two copies are delivered, or the first
  is given back when the second is refused.
-/

namespace NativeBoundary

namespace Heap

variable {h h' h'' : Heap} {id : BlockId}

/-- Whether native copies of some byte strings can be made, one after the other: each length fits
the size field, and the allocator grants a block for each that has bytes. -/
def canHold (h : Heap) : List Bytes → Bool
  | [] => true
  | bytes :: rest =>
      bytes.length ≤ nativeSizeLimit &&
        if bytes = [] then h.canHold rest
        else
          let (block?, h) := h.allocate bytes.length
          block?.isSome && h.canHold rest

/-- Whether the allocator grants blocks of some sizes, one after the other. -/
def grants (h : Heap) : List Nat → Bool
  | [] => true
  | size :: sizes =>
      let (block?, h) := h.allocate size
      block?.isSome && h.grants sizes

/-- Copies can be made if their lengths fit and the blocks for them are granted. -/
theorem canHold_of_grants {outputs : List Bytes}
    (hfits : ∀ bytes ∈ outputs, bytes ≠ [] ∧ bytes.length ≤ nativeSizeLimit)
    (hgrants : h.grants (outputs.map List.length) = true) : h.canHold outputs = true := by
  induction outputs generalizing h with
  | nil => rfl
  | cons bytes rest ih =>
      obtain ⟨hbytes, hlength⟩ := hfits bytes List.mem_cons_self
      rw [List.map_cons, grants, Bool.and_eq_true] at hgrants
      have hrest := ih (fun b hb => hfits b (List.mem_cons_of_mem _ hb)) hgrants.2
      rw [canHold, decide_eq_true hlength, if_neg hbytes, Bool.true_and, Bool.and_eq_true]
      exact ⟨hgrants.1, hrest⟩

/-- Whether a request is granted does not depend on what is there. -/
theorem request_congr (hgranted : h'.granted = h.granted) (content : Block) :
    (h'.request content).1.isSome = (h.request content).1.isSome ∧
      (h'.request content).2.granted = (h.request content).2.granted := by
  unfold request
  simp only [hgranted]
  split
  · exact ⟨rfl, rfl⟩
  · split <;> exact ⟨rfl, rfl⟩

theorem canHold_congr (hgranted : h'.granted = h.granted) (outputs : List Bytes) :
    h'.canHold outputs = h.canHold outputs := by
  induction outputs generalizing h h' with
  | nil => rfl
  | cons bytes rest ih =>
      obtain ⟨hsome, hnext⟩ := request_congr hgranted (.uncleared bytes.length)
      unfold canHold allocate
      simp only [hsome, ih hnext, ih hgranted]

/-- Native copies of `outputs` were made: `raws` carry them, their blocks are the only new live
ones, and nothing else changed. -/
structure Delivers (h h' : Heap) (outputs : List Bytes) (raws : List RawBuffer) : Prop where
  bytes : raws.map (RawBuffer.bytes · h') = outputs
  live : h'.live = h.live ++ raws.filterMap (·.data.block?)
  kept : ∀ id < h.next, h'.block? id = h.block? id
  next : h.next ≤ h'.next

theorem Delivers.refl (h : Heap) : h.Delivers h [] [] where
  bytes := rfl
  live := (List.append_nil _).symm
  kept := fun _ _ => rfl
  next := Nat.le_refl _

/-- One delivery after the other, if the second one leaves the raw buffers of the first alone. -/
theorem Delivers.append {outputs outputs' : List Bytes} {raws raws' : List RawBuffer}
    (first : h.Delivers h' outputs raws) (second : h'.Delivers h'' outputs' raws')
    (hsame : ∀ raw ∈ raws, raw.bytes h'' = raw.bytes h') :
    h.Delivers h'' (outputs ++ outputs') (raws ++ raws') where
  bytes := by
    rw [List.map_append, second.bytes, List.map_congr_left hsame, first.bytes]
  live := by
    rw [second.live, first.live, List.filterMap_append, List.append_assoc]
  kept := fun id hid =>
    (second.kept id (Nat.lt_of_lt_of_le hid first.next)).trans (first.kept id hid)
  next := Nat.le_trans first.next second.next

/-- A block that was delivered is new, and was not live before. -/
theorem Delivers.fresh {outputs : List Bytes} {raws : List RawBuffer}
    (hd : h.Delivers h' outputs raws) (hid : id ∈ raws.filterMap (·.data.block?)) :
    h.next ≤ id ∧ id < h'.next ∧ id ∉ h.live := by
  have hlive : id ∈ h'.live := by
    rw [hd.live]
    exact List.mem_append_right _ hid
  obtain ⟨hmade, hsome⟩ := Heap.mem_live_iff.mp hlive
  have hnodup := h'.live_nodup
  rw [hd.live] at hnodup
  have hnot : id ∉ h.live := fun hold => (List.nodup_append.mp hnodup).2.2 id hold id hid rfl
  refine ⟨Nat.le_of_not_lt fun hold => hnot ?_, hmade, hnot⟩
  rw [hd.kept id hold] at hsome
  exact Heap.mem_live_iff.mpr ⟨hold, hsome⟩

/-- A refused request delivers nothing. -/
theorem delivers_refused {content : Block} (hr : h.request content = (none, h')) :
    h.Delivers h' [] [] where
  bytes := rfl
  live := (live_refused hr).trans (List.append_nil _).symm
  kept := fun id _ => block?_request_none hr id
  next := Nat.le_of_eq (request_refused hr).1.symm

/-- A raw buffer that points to the front of a block carries what was written there. -/
theorem bytes_write {bytes : Bytes} (hl : (h.block? id).isSome)
    (hfits : bytes.length ≤ nativeSizeLimit) :
    RawBuffer.bytes ⟨.native id 0, Int32.ofNat bytes.length⟩ (h.write id 0 bytes) = bytes := by
  rw [RawBuffer.bytes, RawBuffer.length_of_size rfl hfits]
  exact read_write hl bytes

/-- A granted block that is written delivers what was written. -/
theorem delivers_write {bytes : Bytes} {content : Block}
    (hr : h.request content = (some id, h')) (hfits : bytes.length ≤ nativeSizeLimit) :
    h.Delivers (h'.write id 0 bytes) [bytes] [⟨.native id 0, Int32.ofNat bytes.length⟩] := by
  obtain ⟨hid, hnext, -⟩ := request_granted hr
  have hmade : (h'.block? id).isSome := by
    rw [block?_request hr, if_pos rfl]
    rfl
  constructor
  case bytes => exact congrArg ([·]) (bytes_write hmade hfits)
  case live => exact (live_update h' id _).trans (live_request hr)
  case kept =>
    intro j hj
    have hother : j ≠ id := by
      rw [hid]
      exact Nat.ne_of_lt hj
    rw [block?_write_of_ne hother, block?_request hr, if_neg hother]
  case next =>
    change h.next ≤ h'.next
    rw [hnext]
    exact Nat.le_succ _

end Heap

namespace OwnedBuffer

variable {bytes : Bytes} {secrecy : Secrecy} {h h' : Heap} {b : OwnedBuffer} {fault : Fault}

/-- A copy carries its bytes, in a new block if there are any. -/
theorem delivers_copyFrom (hc : copyFrom bytes secrecy h = (.ok b, h')) :
    h.Delivers h' [bytes] [b.raw] ∧ ∀ rest, h.canHold (bytes :: rest) = h'.canHold rest := by
  cases copying_of_copyFrom hc with
  | empty hnone =>
      subst hnone
      refine ⟨⟨rfl, (List.append_nil _).symm, fun _ _ => rfl, Nat.le_refl _⟩, fun rest => ?_⟩
      simp [Heap.canHold]
  | @block id made hsome hfits hblock =>
      refine ⟨Heap.delivers_write hblock hfits, fun rest => ?_⟩
      have hgranted : (made.write id 0 bytes).granted = made.granted := rfl
      simp [Heap.canHold, hfits, hsome, hblock, Heap.canHold_congr hgranted]

/-- A copy that is refused leaves nothing behind. -/
theorem delivers_copyFrom_error (hc : copyFrom bytes secrecy h = (.error fault, h')) :
    fault.code = Code.badArgument ∧ h.Delivers h' [] [] ∧
      ∀ rest, h.canHold (bytes :: rest) = false := by
  cases refusal_of_copyFrom hc with
  | oversized hlong =>
      refine ⟨rfl, .refl h, fun rest => ?_⟩
      simp [Heap.canHold, Nat.not_le_of_gt hlong]
  | noMemory hsome hfits hblock =>
      refine ⟨rfl, Heap.delivers_refused hblock, fun rest => ?_⟩
      simp [Heap.canHold, hsome, hblock]

/-- What a buffer carries is what its block holds. -/
theorem bytes_raw_congr (b : OwnedBuffer)
    (hblock : ∀ id ∈ b.block?, h'.block? id = h.block? id) : b.raw.bytes h' = b.raw.bytes h := by
  unfold raw
  split
  · rename_i id hid
    exact Heap.read_congr (hblock id hid) 0 _
  · rfl

/-- A second delivery leaves the first one alone. -/
theorem delivers_pair {second : OwnedBuffer} {h'' : Heap} {bytes' : Bytes}
    (hfirst : h.Delivers h' [bytes] [b.raw]) (hsecond : h'.Delivers h'' [bytes'] [second.raw]) :
    h.Delivers h'' [bytes, bytes'] [b.raw, second.raw] := by
  refine hfirst.append hsecond fun raw hraw => ?_
  rw [List.mem_singleton.mp hraw]
  refine b.bytes_raw_congr fun id hid => hsecond.kept id (hfirst.fresh ?_).2.1
  simp [Option.mem_def.mp hid]

/-- What was delivered and is released again leaves nothing behind. -/
theorem delivers_drop {h'' : Heap} (hfirst : h.Delivers h' [bytes] [b.raw])
    (hrefused : h'.Delivers h'' [] []) : h.Delivers (b.drop h'') [] [] := by
  have hlive : h''.live = h.live ++ b.block?.toList := by
    rw [hrefused.live, hfirst.live]
    cases hblock : b.block? <;> simp [hblock]
  have hnext := Nat.le_trans hfirst.next hrefused.next
  have hkept : ∀ id < h.next, h''.block? id = h.block? id := fun id hid =>
    (hrefused.kept id (Nat.lt_of_lt_of_le hid hfirst.next)).trans (hfirst.kept id hid)
  unfold drop
  cases hblock : b.block? with
  | none =>
      rw [hblock] at hlive
      exact ⟨rfl, hlive, hkept, hnext⟩
  | some id =>
      obtain ⟨hnew, -, hnot⟩ : h.next ≤ id ∧ id < h'.next ∧ id ∉ h.live :=
        hfirst.fresh (by simp [hblock])
      refine ⟨rfl, ?_, fun j hj => ?_, ?_⟩
      · rw [Heap.live_release, hlive, hblock]
        have hothers : h.live.filter (· ≠ id) = h.live :=
          List.filter_eq_self.mpr fun j hj => decide_eq_true fun heq => hnot (heq ▸ hj)
        rw [List.filter_append, hothers]
        simp
      · have hne : j ≠ id := fun heq => Nat.not_lt.mpr hnew (heq ▸ hj)
        rw [Heap.block?_release, if_neg hne]
        exact hkept j hj
      · rw [Heap.next_release]
        exact hnext

end OwnedBuffer

end NativeBoundary

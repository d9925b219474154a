import Mathlib.Algebra.Group.Nat.Defs
import NativeBoundary.Proofs.Memory.Holders

/-!
# Size tables

The lengths of a batch stand in native memory as an array of 32-bit integers.  This file reads
back what was written there: integers survive the four bytes that stand for them, an array of
them survives as a list, and so the check that every batch undergoes when it comes back from
native code accepts what was handed out, and finds the same total.

* `Bytes.toInt32s_sizeTable` — the lengths that a size table holds;
* `OwnedBatch.inspect_copyFrom` — a batch that was made here is well formed.
-/

namespace NativeBoundary

namespace Bytes

/-- The digits of a number give its remainder back. -/
theorem toNatLE_ofNatLE (count n : Nat) : toNatLE (ofNatLE count n) = n % 256 ^ count := by
  induction count generalizing n with
  | zero => simp [ofNatLE, toNatLE, Nat.mod_one]
  | succ k ih =>
      have hdigit : (UInt8.ofNat (n % 256)).toNat = n % 256 := by simp
      calc toNatLE (ofNatLE (k + 1) n)
          = n % 256 + 256 * (n / 256 % 256 ^ k) := by rw [ofNatLE, toNatLE, ih, hdigit]
        _ = n % (256 * 256 ^ k) := (Nat.mod_mul).symm
        _ = n % 256 ^ (k + 1) := by rw [Nat.pow_succ, Nat.mul_comm]

/-- An integer survives its four bytes. -/
theorem toInt32_ofInt32 (n : Int32) : toInt32 (ofInt32 n) = n := by
  unfold toInt32 ofInt32
  have htake : (ofNatLE 4 n.toUInt32.toNat).take 4 = ofNatLE 4 n.toUInt32.toNat :=
    List.take_of_length_le (by simp)
  have hlt : n.toUInt32.toNat < 256 ^ 4 := n.toUInt32.toNat_lt
  rw [htake, toNatLE_ofNatLE, Nat.mod_eq_of_lt hlt, UInt32.ofNat_toNat, Int32.toInt32_toUInt32]

/-- The digits of a number that is made of digits are these. -/
theorem ofNatLE_toNatLE (bytes : Bytes) : ofNatLE bytes.length (toNatLE bytes) = bytes := by
  induction bytes with
  | nil => rfl
  | cons b bytes ih =>
      have hlt : b.toNat < 256 := b.toNat_lt
      have hlow : (b.toNat + 256 * toNatLE bytes) % 256 = b.toNat := by omega
      have hhigh : (b.toNat + 256 * toNatLE bytes) / 256 = toNatLE bytes := by omega
      rw [List.length_cons, toNatLE, ofNatLE, hlow, hhigh, ih, UInt8.ofNat_toNat]

theorem toNatLE_lt (bytes : Bytes) : toNatLE bytes < 256 ^ bytes.length := by
  induction bytes with
  | nil => exact Nat.one_pos
  | cons b bytes ih =>
      have hlt : b.toNat < 256 := b.toNat_lt
      rw [List.length_cons, toNatLE, Nat.pow_succ]
      omega

/-- Four bytes survive the integer that they stand for. -/
theorem ofInt32_toInt32 {bytes : Bytes} (hlength : bytes.length = 4) :
    ofInt32 (toInt32 bytes) = bytes := by
  have hlt : toNatLE bytes < 2 ^ 32 := by
    have h := toNatLE_lt bytes
    rwa [hlength] at h
  unfold ofInt32 toInt32
  rw [List.take_of_length_le (Nat.le_of_eq hlength), UInt32.toUInt32_toInt32,
    UInt32.toNat_ofNat', Nat.mod_eq_of_lt hlt]
  have h := ofNatLE_toNatLE bytes
  rwa [hlength] at h

/-- An array of integers survives the list of them. -/
theorem flatMap_toInt32s {count : Nat} {bytes : Bytes} (hlength : bytes.length = 4 * count) :
    (toInt32s bytes).flatMap ofInt32 = bytes := by
  induction count generalizing bytes with
  | zero =>
      obtain rfl := List.eq_nil_of_length_eq_zero hlength
      rfl
  | succ count ih =>
      match bytes, hlength with
      | b0 :: b1 :: b2 :: b3 :: rest, hlength =>
          have hrest : rest.length = 4 * count := by
            simp only [List.length_cons] at hlength
            omega
          rw [toInt32s, List.flatMap_cons, ih hrest, ofInt32_toInt32 rfl]
          rfl
      | [], hlength | [_], hlength | [_, _], hlength | [_, _, _], hlength =>
          simp only [List.length_cons, List.length_nil] at hlength
          omega

/-- An array of integers holds one for each four bytes. -/
theorem length_toInt32s {count : Nat} {bytes : Bytes} (hlength : bytes.length = 4 * count) :
    (toInt32s bytes).length = count := by
  have hback := congrArg List.length (flatMap_toInt32s hlength)
  have hfour : ∀ n ∈ toInt32s bytes, (ofInt32 n).length = 4 := fun n _ => length_ofNatLE 4 _
  rw [List.length_flatMap, List.map_congr_left hfour, hlength] at hback
  simp only [List.map_const', List.sum_replicate_nat] at hback
  omega

/-- An integer in front of an array of integers. -/
theorem toInt32s_ofInt32_append (n : Int32) (rest : Bytes) :
    toInt32s (ofInt32 n ++ rest) = n :: toInt32s rest := by
  have hfirst := toInt32_ofInt32 n
  simp only [ofInt32, ofNatLE, List.cons_append, List.nil_append] at hfirst ⊢
  rw [toInt32s, hfirst]

/-- A size table holds the length of each item. -/
theorem toInt32s_sizeTable (items : List Bytes) :
    toInt32s (OwnedBatch.sizeTable items) = items.map fun item => Int32.ofNat item.length := by
  induction items with
  | nil => rfl
  | cons item items ih =>
      rw [OwnedBatch.sizeTable, List.flatMap_cons, toInt32s_ofInt32_append, List.map_cons]
      exact congrArg _ ih

end Bytes

/-- A length that fits the size field survives it. -/
theorem toInt_ofNat_of_le {n : Nat} (h : n ≤ nativeSizeLimit) : (Int32.ofNat n).toInt = n :=
  Int32.toInt_ofNat_of_lt (Nat.lt_of_le_of_lt h (by decide))

theorem toNat_ofNat_of_le {n : Nat} (h : n ≤ nativeSizeLimit) :
    (Int32.ofNat n).toInt.toNat = n := by
  rw [toInt_ofNat_of_le h, Int.toNat_natCast]

/-- A raw buffer that leads somewhere describes as many bytes as its size says. -/
theorem RawBuffer.length_of_size {data : Pointer} {n : Nat} (hdata : data.isNull = false)
    (hn : n ≤ nativeSizeLimit) : RawBuffer.length ⟨data, Int32.ofNat n⟩ = n := by
  have hsize := toNat_ofNat_of_le hn
  unfold RawBuffer.length RawBuffer.isEmpty
  rw [hdata, Bool.false_or]
  split
  · rename_i hle
    -- a size that is not positive stands for no bytes
    have hint : (Int32.ofNat n).toInt ≤ 0 := Int32.le_iff_toInt_le.mp (of_decide_eq_true hle)
    omega
  · exact hsize

/-- A size field names no length that does not fit it. -/
theorem toNat_le_limit (n : Int32) : n.toInt.toNat ≤ nativeSizeLimit := by
  have h := n.toInt_lt
  unfold nativeSizeLimit
  omega

/-- No bytes are read as none. -/
theorem Pointer.read_zero (p : Pointer) (h : Heap) : p.read h 0 = [] := by
  cases p with
  | null => rfl
  | host bytes => rfl
  | native id offset =>
      apply List.eq_nil_of_length_eq_zero
      change (h.read id offset 0).length = 0
      unfold Heap.read
      split
      · exact Block.length_read _ _ _
      · rfl

theorem Block.read_write_zero (b : Block) (data : Bytes) :
    (b.write 0 data).read 0 data.length = data := by
  unfold Block.write Block.read
  split
  · rename_i hnil
    simp [hnil, Bytes.zeros]
  · simp [Bytes.zeros]

namespace Heap

variable {h : Heap} {id : BlockId}

/-- What is written to the front of a live block is read back. -/
theorem read_write (hl : (h.block? id).isSome) (data : Bytes) :
    (h.write id 0 data).read id 0 data.length = data := by
  obtain ⟨b, hb⟩ := Option.isSome_iff_exists.mp hl
  have hwritten : (h.write id 0 data).block? id = some (b.write 0 data) := by
    rw [Heap.write, block?_update, if_pos rfl, hb]
    rfl
  unfold Heap.read
  rw [hwritten]
  exact Block.read_write_zero b data

/-- Writing into a block changes no other. -/
theorem block?_write_of_ne {j : BlockId} (hj : j ≠ id) (offset : Nat) (data : Bytes) :
    (h.write id offset data).block? j = h.block? j := by
  rw [Heap.write, block?_update, if_neg hj]

/-- What can be read from a block depends on that block alone. -/
theorem read_congr {h' : Heap} (hb : h'.block? id = h.block? id) (offset n : Nat) :
    h'.read id offset n = h.read id offset n := by
  unfold Heap.read
  rw [hb]

end Heap

namespace OwnedBatch

/-- What a measured list of lengths satisfies. -/
theorem measure_ok {lengths : List Nat} {total : Nat} (hm : measure lengths = .ok total) :
    lengths.length ≤ nativeSizeLimit ∧ (∀ n ∈ lengths, n ≤ nativeSizeLimit) ∧
      total = totalOf lengths ∧ total ≤ nativeSizeLimit := by
  unfold measure at hm
  split at hm
  · cases hm
  · rename_i hcount
    split at hm
    · cases hm
    · rename_i hfind
      split at hm
      · cases hm
      · rename_i htotal
        cases hm
        refine ⟨Nat.le_of_not_lt hcount, fun n hn => ?_, rfl, Nat.le_of_not_lt htotal⟩
        have hnot := List.find?_eq_none.mp hfind n hn
        simpa using hnot

variable {h h' : Heap} {b : OwnedBatch} {raw : RawBatch}

/-- A batch is well formed when its size table holds lengths, and there is data if there has to
be. -/
theorem inspect_of_lengths {lengths : List Nat} (hraw : raw.count = Int32.ofNat lengths.length)
    (hcount : lengths.length ≤ nativeSizeLimit) (hne : lengths ≠ [])
    (hsizes : raw.sizes.isNull = false)
    (hread : Bytes.toInt32s (raw.sizes.read h (4 * lengths.length)) =
      lengths.map Int32.ofNat)
    (hfit : ∀ n ∈ lengths, n ≤ nativeSizeLimit)
    (hdata : 0 < totalOf lengths → raw.data.isNull = false) :
    inspect raw h = .ok (totalOf lengths) := by
  have hlength : raw.length = lengths.length := by
    rw [RawBatch.length, hraw, toNat_ofNat_of_le hcount]
  have hpos : 0 < lengths.length := List.length_pos_iff.mpr hne
  have htoInt : raw.count.toInt = lengths.length := by
    rw [hraw, toInt_ofNat_of_le hcount]
  have hnonneg : ¬ raw.count < 0 := by
    rw [Int32.lt_iff_toInt_lt, htoInt, Int32.toInt_zero]
    omega
  have hnonzero : ¬ raw.count = 0 := by
    intro hzero
    rw [hzero, Int32.toInt_zero] at htoInt
    omega
  have hback : (lengths.map Int32.ofNat).map (fun n => n.toInt.toNat) = lengths := by
    rw [List.map_map, List.map_congr_left (g := id), List.map_id]
    exact fun n hn => toNat_ofNat_of_le (hfit n hn)
  have hall : (lengths.map Int32.ofNat).any (· < 0) = false := by
    rw [List.any_eq_false]
    intro x hx
    obtain ⟨n, hn, rfl⟩ := List.mem_map.mp hx
    rw [decide_eq_true_eq, Int32.lt_iff_toInt_lt, toInt_ofNat_of_le (hfit n hn), Int32.toInt_zero]
    omega
  unfold inspect
  rw [if_neg hnonneg, if_neg hnonzero, hsizes, if_neg Bool.false_ne_true, hlength, hread]
  simp only [hall, hback, Bool.false_eq_true, if_false]
  by_cases hzero : totalOf lengths = 0
  · simp [hzero]
  · simp [hdata (Nat.pos_of_ne_zero hzero)]

/-- What a batch says about itself is what its tables hold, and stays so when it is handed out
and taken back. -/
structure Describes (b : OwnedBatch) (h : Heap) : Prop where
  count : b.count ≤ nativeSizeLimit
  accepted : inspect b.raw h = .ok b.total
  size : ∀ id, b.data? = some id → h.size? id = some b.total

/-- The description of a batch hangs on its size table and on the size of its data. -/
theorem Describes.congr (hd : b.Describes h)
    (hsizes : ∀ id, b.sizes? = some id → h'.block? id = h.block? id)
    (hdata : ∀ id, b.data? = some id → h'.size? id = h.size? id) : b.Describes h' where
  count := hd.count
  accepted := by
    have hread : ∀ n, b.raw.sizes.read h' n = b.raw.sizes.read h n := by
      intro n
      cases hs : b.sizes? with
      | none => simp [OwnedBatch.raw, hs, Pointer.ofBlock?, Pointer.read]
      | some id =>
          simp only [OwnedBatch.raw, hs, Pointer.ofBlock?, Pointer.read]
          exact Heap.read_congr (hsizes id hs) 0 n
    have haccepted := hd.accepted
    unfold inspect at haccepted ⊢
    simp only [hread]
    exact haccepted
  size := fun id hid => (hdata id hid).trans (hd.size id hid)

/-- A batch that describes itself comes back as it was handed out, as a secret. -/
theorem Describes.adopt_raw (hd : b.Describes h) :
    adopt b.raw h = (.ok { b with secrecy := .secret }, h) := by
  unfold adopt
  rw [hd.accepted]
  simp only [OwnedBatch.raw, Pointer.block?_ofBlock?, RawBatch.length,
    toNat_ofNat_of_le hd.count]

theorem length_sizeTable (items : List Bytes) : (sizeTable items).length = 4 * items.length := by
  induction items with
  | nil => rfl
  | cons item items ih =>
      rw [sizeTable, List.flatMap_cons, List.length_append, Bytes.ofInt32, Bytes.length_ofNatLE,
        List.length_cons]
      change 4 + (sizeTable items).length = _
      omega

/-- The lengths that were written to a size table are read back. -/
theorem lengths_write {id : BlockId} (hl : (h.block? id).isSome) (items : List Bytes) :
    Bytes.toInt32s ((h.write id 0 (sizeTable items)).read id 0
        (4 * (items.map List.length).length)) =
      (items.map List.length).map Int32.ofNat := by
  rw [List.length_map, ← length_sizeTable, Heap.read_write hl, Bytes.toInt32s_sizeTable,
    List.map_map]
  rfl

/-- A batch that was made here is well formed. -/
theorem describes_copyFrom {items : List Bytes} {secrecy : Secrecy}
    (hc : copyFrom items secrecy h = (.ok b, h')) : b.Describes h' ∧ b.secrecy = secrecy := by
  cases copying_of_copyFrom hc with
  | empty hnone => exact ⟨⟨Nat.zero_le _, rfl, fun id hid => by cases hid⟩, rfl⟩
  | @lengths total sizes made hsome hzero hmeasure hsizes =>
      obtain ⟨hcount, hfit, htotal, -⟩ := measure_ok hmeasure
      have hnonempty : items.map List.length ≠ [] := by simpa using hsome
      have hlive := Option.isSome_of_eq_some (Heap.block?_granted hsizes)
      refine ⟨⟨by simpa using hcount, ?_, fun id hid => by cases hid⟩, rfl⟩
      rw [show total = totalOf (items.map List.length) from htotal]
      refine inspect_of_lengths (by rw [List.length_map]; rfl) hcount hnonempty rfl
        (lengths_write hlive items) hfit fun hpos => ?_
      rw [← htotal, hzero] at hpos
      exact absurd hpos (Nat.lt_irrefl 0)
  | @full total sizes data middle made hsome hpos hmeasure hsizes hdata =>
      obtain ⟨hcount, hfit, htotal, -⟩ := measure_ok hmeasure
      have hnonempty : items.map List.length ≠ [] := by simpa using hsome
      have hlive := Option.isSome_of_eq_some (Heap.block?_granted_before hsizes hdata)
      have hapart := Nat.ne_of_lt (Heap.request_lt hsizes hdata)
      refine ⟨⟨by simpa using hcount, ?_, fun id hid => ?_⟩, rfl⟩
      · rw [show total = totalOf (items.map List.length) from htotal]
        refine inspect_of_lengths (by rw [List.length_map]; rfl) hcount hnonempty rfl ?_ hfit
          fun _ => rfl
        -- the data were written after the size table, into another block
        have hkept := Heap.read_congr (Heap.block?_write_of_ne (h := made.write sizes 0
          (sizeTable items)) hapart 0 items.flatten) 0 (4 * (items.map List.length).length)
        exact (congrArg Bytes.toInt32s hkept).trans (lengths_write hlive items)
      · cases hid
        rw [Heap.size?_write, Heap.size?_write, Heap.size?, Heap.block?_granted hdata]
        rfl

end OwnedBatch

end NativeBoundary

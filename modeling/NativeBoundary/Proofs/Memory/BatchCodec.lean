import Mathlib.Data.List.SplitLengths
import NativeBoundary.Proofs.Memory.Consumed
import NativeBoundary.Proofs.Memory.Delivery

/-!
# Batches as encodings of lists

A batch says the same as a list of byte strings: its count is their number, its size table holds
their lengths and its data are their concatenation.  `RawBatch.Encodes` states that of a raw batch
and a heap, and nothing in it refers to how a batch is made or read.

Making a batch keeps one running total and writes two blocks; reading it cuts the data where the
size table says.  The two meet in `cut`: lengths and a concatenation determine the parts, and the
parts give back both (`cut_flatten`, `lengths_cut`, `flatten_cut`).  The size table is four bytes
for each length, and these are determined by the lengths as well (`Encodes.sizes_eq`).

* `OwnedBatch.written_copyFrom`, `OwnedBatch.Written.encodes` — what is made encodes the list that
  it was made from;
* `RawBatch.take_of_wellFormed` — what is read off a well-formed batch is the list that it encodes;
* `OwnedBatch.codec` — both directions, and what is refused.
-/

namespace NativeBoundary

/-- The length of byte strings together is the length of their concatenation. -/
theorem totalOf_lengths (items : List Bytes) :
    totalOf (items.map List.length) = items.flatten.length := by
  induction items with
  | nil => rfl
  | cons item items ih =>
      rw [List.flatten_cons, List.length_append, ← ih]
      rfl

namespace OwnedBatch

/-- A list of byte strings whose number, whose lengths and whose length together fit the size
field. -/
structure Fits (items : List Bytes) : Prop where
  count : items.length ≤ nativeSizeLimit
  each : ∀ item ∈ items, item.length ≤ nativeSizeLimit
  total : items.flatten.length ≤ nativeSizeLimit

instance (items : List Bytes) : Decidable (Fits items) :=
  decidable_of_iff (items.length ≤ nativeSizeLimit ∧
      (∀ item ∈ items, item.length ≤ nativeSizeLimit) ∧ items.flatten.length ≤ nativeSizeLimit)
    ⟨fun ⟨count, each, total⟩ => ⟨count, each, total⟩, fun ⟨count, each, total⟩ =>
      ⟨count, each, total⟩⟩

/-- The sizes of the blocks for a list of byte strings: a size table unless there is none of them,
and a data block unless there is no byte. -/
def blockSizes (items : List Bytes) : List Nat :=
  if items = [] then []
  else if items.flatten.length = 0 then [4 * items.length]
  else [4 * items.length, items.flatten.length]

variable {items : List Bytes}

theorem fits_nil : Fits [] := ⟨Nat.zero_le _, fun _ hitem => (nomatch hitem), Nat.zero_le _⟩

/-- A list that fits is measured. -/
theorem Fits.measure_eq (hf : Fits items) :
    measure (items.map List.length) = .ok items.flatten.length := by
  have hcount : ¬ (items.map List.length).length > nativeSizeLimit := by
    rw [List.length_map]
    exact Nat.not_lt.mpr hf.count
  have hnone : (items.map List.length).find? (· > nativeSizeLimit) = none := by
    rw [List.find?_eq_none]
    intro n hn
    obtain ⟨item, hitem, rfl⟩ := List.mem_map.mp hn
    simpa using hf.each item hitem
  unfold measure
  rw [if_neg hcount, hnone, totalOf_lengths]
  exact if_neg (Nat.not_lt.mpr hf.total)

/-- What is measured fits. -/
theorem fits_of_measure {total : Nat} (hm : measure (items.map List.length) = .ok total) :
    Fits items ∧ total = items.flatten.length := by
  obtain ⟨hcount, hfit, htotal, hlimit⟩ := measure_ok hm
  rw [totalOf_lengths] at htotal
  refine ⟨⟨?_, fun item hitem => hfit _ (List.mem_map_of_mem hitem), ?_⟩, htotal⟩
  · rwa [List.length_map] at hcount
  · rwa [htotal] at hlimit

/-- A list that does not fit is a bad argument. -/
theorem measure_of_not_fits (hf : ¬ Fits items) :
    ∃ reason, measure (items.map List.length) = .error (.badArgument reason) := by
  cases hm : measure (items.map List.length) with
  | ok total => exact absurd (fits_of_measure hm).1 hf
  | error fault =>
      unfold measure at hm
      split at hm
      · cases hm
        exact ⟨_, rfl⟩
      · split at hm
        · cases hm
          exact ⟨_, rfl⟩
        · split at hm <;> cases hm
          exact ⟨_, rfl⟩

end OwnedBatch

/-- A raw batch whose tables stand in a heap encodes a list of byte strings. -/
structure RawBatch.Encodes (raw : RawBatch) (h : Heap) (items : List Bytes) : Prop where
  count : raw.count.toInt = items.length
  lengths : (raw.lengths h).map Int32.toInt = items.map fun item => (item.length : Int)
  data : raw.data.read h items.flatten.length = items.flatten

namespace OwnedBatch

theorem cut_eq_splitLengths (lengths : List Nat) (data : Bytes) :
    cut lengths data = lengths.splitLengths data := by
  induction lengths generalizing data with
  | nil => rfl
  | cons n lengths ih => rw [cut, ih, List.splitLengths_cons]

/-- A concatenation is cut into its parts. -/
theorem cut_flatten (items : List Bytes) :
    cut (items.map List.length) items.flatten = items := by
  induction items with
  | nil => rfl
  | cons item items ih =>
      rw [List.map_cons, List.flatten_cons, cut, List.take_left, List.drop_left, ih]

variable {lengths : List Nat} {data : Bytes}

/-- The parts have the lengths that were asked for. -/
theorem lengths_cut (hdata : data.length = totalOf lengths) :
    (cut lengths data).map List.length = lengths := by
  rw [cut_eq_splitLengths]
  exact List.map_splitLengths_length data lengths (Nat.le_of_eq hdata.symm)

/-- The parts together are what was cut. -/
theorem flatten_cut (hdata : data.length = totalOf lengths) :
    (cut lengths data).flatten = data := by
  rw [cut_eq_splitLengths]
  exact List.flatten_splitLengths data lengths (Nat.le_of_eq hdata)

/-- The tables of a batch were written for a list of byte strings. -/
structure Written (b : OwnedBatch) (h : Heap) (items : List Bytes) : Prop where
  fits : Fits items
  count : b.count = items.length
  sizes : b.raw.sizes.read h (4 * items.length) = sizeTable items
  data : b.raw.data.read h items.flatten.length = items.flatten
  /-- There is a size table unless there are no byte strings. -/
  noSizes : b.sizes? = none ↔ items = []
  /-- There are data unless there is no byte. -/
  noData : b.data? = none ↔ items.flatten.length = 0

variable {b : OwnedBatch} {h h' : Heap} {secrecy : Secrecy} {items : List Bytes}

/-- A batch that is made is written for its list. -/
theorem written_copyFrom (hc : copyFrom items secrecy h = (.ok b, h')) : b.Written h' items := by
  cases copying_of_copyFrom hc with
  | empty hnone =>
      subst hnone
      exact ⟨fits_nil, rfl, rfl, rfl, iff_of_true rfl rfl, iff_of_true rfl rfl⟩
  | lengths hsome hzero hmeasure hsizes =>
      obtain ⟨hfits, rfl⟩ := fits_of_measure hmeasure
      constructor
      case fits => exact hfits
      case count => rfl
      case sizes =>
        have hlive := Option.isSome_of_eq_some (Heap.block?_granted hsizes)
        have hread := Heap.read_write hlive (sizeTable items)
        rwa [length_sizeTable] at hread
      case data => exact (List.eq_nil_of_length_eq_zero hzero).symm
      case noSizes => exact iff_of_false (fun hnone => nomatch hnone) hsome
      case noData => exact iff_of_true rfl hzero
  | full hsome hpos hmeasure hsizes hdata =>
      obtain ⟨hfits, rfl⟩ := fits_of_measure hmeasure
      have hapart := Heap.request_lt hsizes hdata
      constructor
      case fits => exact hfits
      case count => rfl
      case sizes =>
        -- the data are written after the size table, into another block
        have hlive := Option.isSome_of_eq_some (Heap.block?_granted_before hsizes hdata)
        have hread := Heap.read_write hlive (sizeTable items)
        rw [length_sizeTable] at hread
        exact (Heap.read_congr (Heap.block?_write_of_ne (Nat.ne_of_lt hapart) 0 _) 0 _).trans hread
      case data =>
        have hmade := Heap.block?_granted hdata
        rw [← Heap.block?_write_of_ne (Nat.ne_of_gt hapart) 0 (sizeTable items)] at hmade
        exact Heap.read_write (Option.isSome_of_eq_some hmade) items.flatten
      case noSizes => exact iff_of_false (fun hnone => nomatch hnone) hsome
      case noData => exact iff_of_false (fun hnone => nomatch hnone) hpos

/-- The tables of a batch are just large enough. -/
theorem sizes_copyFrom (hc : copyFrom items secrecy h = (.ok b, h')) :
    b.secrecy = secrecy ∧ b.total = items.flatten.length ∧
      (∀ id ∈ b.data?, h'.size? id = some items.flatten.length) ∧
        ∀ id ∈ b.sizes?, h'.size? id = some (4 * items.length) := by
  cases copying_of_copyFrom hc with
  | empty hnone =>
      subst hnone
      exact ⟨rfl, rfl, fun _ hid => (nomatch hid), fun _ hid => (nomatch hid)⟩
  | lengths hsome hzero hmeasure hsizes =>
      obtain ⟨-, rfl⟩ := fits_of_measure hmeasure
      refine ⟨rfl, rfl, fun _ hid => (nomatch hid), fun id hid => ?_⟩
      cases hid
      rw [Heap.size?_write, Heap.size?, Heap.block?_granted hsizes]
      rfl
  | full hsome hpos hmeasure hsizes hdata =>
      obtain ⟨-, rfl⟩ := fits_of_measure hmeasure
      refine ⟨rfl, rfl, fun id hid => ?_, fun id hid => ?_⟩ <;> cases hid <;>
        rw [Heap.size?_write, Heap.size?_write, Heap.size?]
      · rw [Heap.block?_granted hdata]
        rfl
      · rw [Heap.block?_granted_before hsizes hdata]
        rfl

/-- A list that fits is made into a batch if its blocks are granted. -/
theorem copyFrom_of_grants (hf : Fits items) (hg : h.grants (blockSizes items) = true)
    (secrecy : Secrecy) : ∃ b h', copyFrom items secrecy h = (.ok b, h') := by
  unfold copyFrom
  by_cases hnone : items = []
  · exact ⟨_, _, if_pos hnone⟩
  · rw [if_neg hnone]
    simp only [hf.measure_eq]
    rcases hsizes : h.allocate (4 * items.length) with ⟨_ | sizes, withSizes⟩
    · unfold blockSizes at hg
      rw [if_neg hnone] at hg
      split at hg <;> simp [Heap.grants, hsizes] at hg
    · simp only
      by_cases hzero : items.flatten.length = 0
      · exact ⟨_, _, if_pos hzero⟩
      · rw [if_neg hzero]
        rw [blockSizes, if_neg hnone, if_neg hzero, Heap.grants, hsizes, Bool.and_eq_true,
          Heap.grants, Bool.and_eq_true] at hg
        rcases hdata : withSizes.allocate items.flatten.length with ⟨_ | data, withData⟩
        · rw [hdata] at hg
          cases hg.2.1
        · exact ⟨_, _, rfl⟩

/-- The blocks of a batch that is made were granted. -/
theorem grants_of_copyFrom (hc : copyFrom items secrecy h = (.ok b, h')) :
    h.grants (blockSizes items) = true := by
  unfold blockSizes
  cases copying_of_copyFrom hc with
  | empty hnone =>
      rw [if_pos hnone]
      rfl
  | lengths hsome hzero hmeasure hsizes =>
      obtain ⟨-, rfl⟩ := fits_of_measure hmeasure
      rw [if_neg hsome, if_pos hzero, Heap.grants, hsizes]
      rfl
  | full hsome hpos hmeasure hsizes hdata =>
      obtain ⟨-, rfl⟩ := fits_of_measure hmeasure
      simp only [if_neg hsome, if_neg hpos, Heap.grants, hsizes, hdata]
      rfl

/-- A list that does not fit is refused, and nothing is asked of the allocator. -/
theorem copyFrom_of_not_fits (hf : ¬ Fits items) (secrecy : Secrecy) (h : Heap) :
    ∃ reason, copyFrom items secrecy h = (.error (.badArgument reason), h) := by
  obtain ⟨reason, herror⟩ := measure_of_not_fits hf
  have hsome : items ≠ [] := by
    rintro rfl
    exact hf fits_nil
  refine ⟨reason, ?_⟩
  unfold copyFrom
  rw [if_neg hsome]
  simp only [herror]

/-- The lengths of a batch are those that its size table shows to native code. -/
theorem lengths_eq (b : OwnedBatch) (h : Heap) :
    b.lengths h =
      (Bytes.toInt32s (b.raw.sizes.read h (4 * b.count))).map fun n => n.toInt.toNat := by
  unfold lengths raw
  cases b.sizes? <;> rfl

/-- The byte strings of a batch are cut out of its data. -/
theorem entries_eq (b : OwnedBatch) (h : Heap) :
    b.entries h = cut (b.lengths h) (b.raw.data.read h (totalOf (b.lengths h))) := by
  have hempty : ∀ lengths : List Nat, cut lengths [] = lengths.map fun _ => [] := by
    intro lengths
    induction lengths with
    | nil => rfl
    | cons n lengths ih => rw [cut, List.take_nil, List.drop_nil, ih, List.map_cons]
  unfold entries raw
  cases b.data? with
  | none => exact (hempty _).symm
  | some id => rfl

/-- What was written is read. -/
theorem Written.entries_eq (hw : b.Written h items) : b.entries h = items := by
  have hlengths : b.lengths h = items.map List.length := by
    rw [lengths_eq, hw.count, hw.sizes, Bytes.toInt32s_sizeTable, List.map_map]
    exact List.map_congr_left fun item hitem => toNat_ofNat_of_le (hw.fits.each item hitem)
  rw [OwnedBatch.entries_eq, hlengths, totalOf_lengths, hw.data, cut_flatten]

/-- What was written encodes its list. -/
theorem Written.encodes (hw : b.Written h items) : b.raw.Encodes h items where
  count := by
    have hlimit := hw.fits.count
    rw [← hw.count] at hlimit ⊢
    exact toInt_ofNat_of_le hlimit
  lengths := by
    have hlength : b.raw.length = items.length := by
      have hlimit := hw.fits.count
      rw [← hw.count] at hlimit ⊢
      exact toNat_ofNat_of_le hlimit
    rw [RawBatch.lengths, hlength, hw.sizes, Bytes.toInt32s_sizeTable, List.map_map]
    exact List.map_congr_left fun item hitem => toInt_ofNat_of_le (hw.fits.each item hitem)
  data := hw.data

/-- A written batch has no table that it does not need. -/
theorem Written.raw_null (hw : b.Written h items) :
    (b.raw.data = .null ↔ items.flatten = []) ∧
      (b.raw.data = .null ∧ b.raw.sizes = .null ↔ items = []) := by
  have hnull : ∀ id? : Option BlockId, Pointer.ofBlock? id? = .null ↔ id? = none := by
    intro id?
    cases id? with
    | none => exact iff_of_true rfl rfl
    | some id => exact iff_of_false (fun hsome => nomatch hsome) fun hsome => nomatch hsome
  have hdata : b.raw.data = .null ↔ items.flatten = [] := by
    rw [OwnedBatch.raw, hnull, hw.noData, List.length_eq_zero_iff]
  have hsizes : b.raw.sizes = .null ↔ items = [] := by
    rw [OwnedBatch.raw, hnull, hw.noSizes]
  refine ⟨hdata, fun hboth => hsizes.mp hboth.2, fun hnone => ⟨hdata.mpr ?_, hsizes.mpr hnone⟩⟩
  rw [hnone]
  rfl

/-- A pointer to one of the tables of a batch is read alike for as long as the tables are kept. -/
theorem read_table_congr {id? : Option BlockId} (hsub : ∀ id ∈ id?, id ∈ b.blocks)
    (hkept : ∀ id ∈ b.blocks, h'.block? id = h.block? id) (n : Nat) :
    (Pointer.ofBlock? id?).read h' n = (Pointer.ofBlock? id?).read h n := by
  cases id? with
  | none => rfl
  | some id => exact Heap.read_congr (hkept id (hsub id rfl)) 0 n

/-- What was written stands for as long as the tables are kept. -/
theorem Written.congr (hw : b.Written h items)
    (hkept : ∀ id ∈ b.blocks, h'.block? id = h.block? id) : b.Written h' items :=
  { hw with
    sizes := (read_table_congr (fun id hid => by simp [blocks, Option.mem_def.mp hid]) hkept _).trans
      hw.sizes
    data := (read_table_congr (fun id hid => by simp [blocks, Option.mem_def.mp hid]) hkept _).trans
      hw.data }

/-- What is read from a batch depends on its tables alone. -/
theorem entries_congr (hkept : ∀ id ∈ b.blocks, h'.block? id = h.block? id) :
    b.entries h' = b.entries h := by
  have hread : ∀ id ∈ b.blocks, ∀ n, h'.read id 0 n = h.read id 0 n :=
    fun id hid n => Heap.read_congr (hkept id hid) 0 n
  have hlengths : b.lengths h' = b.lengths h := by
    unfold lengths
    split
    · rename_i id hid
      rw [hread id (by simp [blocks, hid])]
    · rfl
  unfold entries
  rw [hlengths]
  split
  · rename_i id hid
    rw [hread id (by simp [blocks, hid])]
  · rfl

/-- A batch that was handed out is read back while nobody writes to its tables. -/
theorem take_copyFrom {later : Heap} (hc : copyFrom items secrecy h = (.ok b, h'))
    (hkept : ∀ id ∈ b.raw.blocks, later.block? id = h'.block? id) :
    (b.raw.take later).1 = .ok items := by
  rw [blocks_raw] at hkept
  have hdescribes : b.Describes later := by
    refine (describes_copyFrom hc).1.congr (fun id hid => hkept id ?_)
      fun id hid => congrArg _ (hkept id ?_)
    · simp [blocks, hid]
    · simp [blocks, hid]
  unfold RawBatch.take
  rw [hdescribes.adopt_raw]
  exact congrArg Except.ok ((entries_congr hkept).trans (written_copyFrom hc).entries_eq)

end OwnedBatch

/-- A pointer leads to the front of a live block of at least `n` bytes. -/
def Pointer.Spans (p : Pointer) (h : Heap) (n : Nat) : Prop :=
  ∃ id, p = .native id 0 ∧ ∃ size, h.size? id = some size ∧ n ≤ size

/-- As many bytes are read there as are asked for. -/
theorem Pointer.Spans.length_read {p : Pointer} {h : Heap} {n : Nat} (hp : p.Spans h n) :
    (p.read h n).length = n := by
  obtain ⟨id, rfl, -⟩ := hp
  change (h.read id 0 n).length = n
  unfold Heap.read
  split
  · exact Block.length_read _ _ _
  · exact Bytes.length_zeros _

namespace RawBatch

/-- The length that the size table gives to the data. -/
def total (raw : RawBatch) (h : Heap) : Nat :=
  totalOf ((raw.lengths h).map fun n => n.toInt.toNat)

/-- A batch as native code has to hand it over: byte strings at all, a size table for them that
holds lengths, and data of that length, which may be missing when there is no byte. -/
structure WellFormed (raw : RawBatch) (h : Heap) : Prop where
  count : 0 < raw.count
  sizes : raw.sizes.Spans h (4 * raw.length)
  lengths : raw.Measured h
  data : raw.data.Spans h (raw.total h) ∨ raw.data = .null ∧ raw.total h = 0

variable {raw raw' : RawBatch} {h h' : Heap} {items items' : List Bytes}

theorem WellFormed.toInt_count (hw : raw.WellFormed h) : raw.count.toInt = raw.length := by
  have hcount := Int32.lt_iff_toInt_lt.mp hw.count
  rw [Int32.toInt_zero] at hcount
  unfold length
  omega

/-- A well-formed batch breaks no rule. -/
theorem WellFormed.inspect_eq (hw : raw.WellFormed h) :
    OwnedBatch.inspect raw h = .ok (raw.total h) := by
  have hnonneg : ¬ raw.count < 0 := fun hneg => Int32.lt_asymm hw.count hneg
  have hnonzero : raw.count ≠ 0 := fun hzero => Int32.lt_irrefl (hzero ▸ hw.count)
  have hsizes : raw.sizes.isNull = false := by
    obtain ⟨id, hid, -⟩ := hw.sizes
    rw [hid]
    rfl
  have hdata : ¬ (raw.total h > 0 && raw.data.isNull) = true := by
    rcases hw.data with ⟨id, hid, -⟩ | ⟨-, hzero⟩
    · rw [hid]
      simp [Pointer.isNull]
    · simp [hzero]
  have hany := measured_iff.mp hw.lengths
  unfold total at hdata
  unfold RawBatch.lengths at hany hdata
  unfold OwnedBatch.inspect
  rw [if_neg hnonneg, if_neg hnonzero, hsizes, if_neg Bool.false_ne_true]
  simp only [hany, Bool.false_eq_true, if_false]
  exact if_neg hdata

/-- A well-formed batch is taken over as it is. -/
theorem WellFormed.adopt_eq (hw : raw.WellFormed h) :
    ∃ owned : OwnedBatch, OwnedBatch.adopt raw h = (.ok owned, h) ∧ owned.raw = raw ∧
      owned.count = raw.length := by
  have hcount : Int32.ofNat raw.length = raw.count := by
    rw [← Int32.ofInt_eq_ofNat, ← hw.toInt_count, Int32.ofInt_toInt]
  have hback : ∀ p n, Pointer.Spans p h n → Pointer.ofBlock? p.block? = p := by
    rintro p n ⟨id, rfl, -⟩
    rfl
  have hdata : Pointer.ofBlock? raw.data.block? = raw.data := by
    rcases hw.data with hspans | ⟨hnull, -⟩
    · exact hback _ _ hspans
    · rw [hnull]
      rfl
  unfold OwnedBatch.adopt
  rw [hw.inspect_eq]
  refine ⟨_, rfl, ?_, rfl⟩
  rw [OwnedBatch.raw, hdata, hback _ _ hw.sizes, hcount]

/-- What is taken from a well-formed batch is what the batch encodes. -/
theorem take_of_wellFormed (hw : raw.WellFormed h) :
    ∃ items, (raw.take h).1 = .ok items ∧ raw.Encodes h items := by
  obtain ⟨owned, hadopt, hraw, hcount⟩ := hw.adopt_eq
  have hlengths : owned.lengths h = (raw.lengths h).map fun n => n.toInt.toNat := by
    rw [owned.lengths_eq, hraw, hcount]
    rfl
  have hdata : (raw.data.read h (raw.total h)).length = raw.total h := by
    rcases hw.data with hspans | ⟨hnull, hzero⟩
    · exact hspans.length_read
    · rw [hnull, hzero]
      rfl
  have hcut := OwnedBatch.lengths_cut hdata
  have hentries : owned.entries h = OwnedBatch.cut ((raw.lengths h).map fun n => n.toInt.toNat)
      (raw.data.read h (raw.total h)) := by
    rw [owned.entries_eq, hraw, hlengths, total]
  rw [← hentries] at hcut
  refine ⟨owned.entries h, ?_, ?_, ?_, ?_⟩
  · unfold take
    rw [hadopt]
  · have hnumber := congrArg List.length hcut
    rw [List.length_map, List.length_map, RawBatch.lengths,
      Bytes.length_toInt32s hw.sizes.length_read] at hnumber
    rw [hw.toInt_count]
    exact congrArg _ hnumber.symm
  · have heach := congrArg (List.map Int.ofNat) hcut
    rw [List.map_map, List.map_map] at heach
    refine Eq.trans (List.map_congr_left fun n hn => ?_) heach.symm
    have hle := Int32.le_iff_toInt_le.mp (hw.lengths n hn)
    rw [Int32.toInt_zero] at hle
    exact (Int.toNat_of_nonneg hle).symm
  · have htotal : (owned.entries h).flatten.length = raw.total h := by
      rw [← totalOf_lengths, hcut, total]
    rw [htotal, hentries, OwnedBatch.flatten_cut hdata]

theorem Encodes.lengths_eq (he : raw.Encodes h items) :
    ((raw.lengths h).map fun n => n.toInt.toNat) = items.map List.length := by
  have hback := congrArg (List.map Int.toNat) he.lengths
  rwa [List.map_map, List.map_map] at hback

theorem Encodes.total_eq (he : raw.Encodes h items) : raw.total h = items.flatten.length := by
  rw [total, he.lengths_eq, totalOf_lengths]

theorem Encodes.length_eq (he : raw.Encodes h items) : raw.length = items.length := by
  rw [length, he.count, Int.toNat_natCast]

/-- A batch encodes one list only. -/
theorem Encodes.unique (he : raw.Encodes h items) (he' : raw.Encodes h items') :
    items = items' := by
  have hlengths : items.map List.length = items'.map List.length :=
    he.lengths_eq.symm.trans he'.lengths_eq
  have htotal : items.flatten.length = items'.flatten.length :=
    he.total_eq.symm.trans he'.total_eq
  calc items = OwnedBatch.cut (items.map List.length) items.flatten :=
        (OwnedBatch.cut_flatten items).symm
    _ = OwnedBatch.cut (items'.map List.length) items'.flatten := by
        rw [hlengths, ← he.data, htotal, he'.data]
    _ = items' := OwnedBatch.cut_flatten items'

/-- The batch of no byte strings is not a batch of empty ones. -/
theorem Encodes.count_ne {n : Nat} (hn : 0 < n) (he : raw.Encodes h [])
    (he' : raw'.Encodes h' (List.replicate n [])) : raw.count ≠ raw'.count := by
  intro hsame
  have hnone := he.count
  rw [hsame, he'.count, List.length_replicate, List.length_nil] at hnone
  omega

/-- What a batch encodes is a list that fits, if its data do. -/
theorem Encodes.fits (he : raw.Encodes h items) (htotal : raw.total h ≤ nativeSizeLimit) :
    OwnedBatch.Fits items where
  count := by
    rw [← he.length_eq]
    exact toNat_le_limit raw.count
  each := by
    intro item hitem
    have hlength : item.length ∈ (raw.lengths h).map fun n => n.toInt.toNat := by
      rw [he.lengths_eq]
      exact List.mem_map_of_mem hitem
    obtain ⟨n, -, hn⟩ := List.mem_map.mp hlength
    rw [← hn]
    exact toNat_le_limit n
  total := by
    rwa [← he.total_eq]

/-- The size table of an encoding is the one that is written for its list. -/
theorem Encodes.sizes_eq (he : raw.Encodes h items)
    (hread : (raw.sizes.read h (4 * raw.length)).length = 4 * raw.length) :
    raw.sizes.read h (4 * raw.length) = OwnedBatch.sizeTable items := by
  have hnumbers : raw.lengths h = items.map fun item => Int32.ofNat item.length := by
    have hback := congrArg (List.map Int32.ofInt) he.lengths
    have hsame : (raw.lengths h).map (Int32.ofInt ∘ Int32.toInt) = raw.lengths h :=
      (List.map_congr_left fun n _ => Int32.ofInt_toInt n).trans (List.map_id _)
    rw [List.map_map, List.map_map, hsame] at hback
    exact hback.trans (List.map_congr_left fun item _ => Int32.ofInt_eq_ofNat)
  calc raw.sizes.read h (4 * raw.length)
      = (raw.lengths h).flatMap Bytes.ofInt32 := (Bytes.flatMap_toInt32s hread).symm
    _ = OwnedBatch.sizeTable items := by rw [hnumbers, List.flatMap_map, OwnedBatch.sizeTable]

/-- A batch that is made from what a well-formed batch encodes has the same count and the same
bytes in both tables. -/
theorem WellFormed.tables_eq {b : OwnedBatch} (hw : raw.WellFormed h) (he : raw.Encodes h items)
    (hb : b.Written h' items) :
    b.raw.count = raw.count ∧
      b.raw.sizes.read h' (4 * raw.length) = raw.sizes.read h (4 * raw.length) ∧
      b.raw.data.read h' (raw.total h) = raw.data.read h (raw.total h) := by
  refine ⟨?_, ?_, ?_⟩
  · apply Int32.toInt_inj.mp
    rw [hb.encodes.count, he.count]
  · rw [he.sizes_eq hw.sizes.length_read, he.length_eq, hb.sizes]
  · rw [he.total_eq, hb.data, he.data]

end RawBatch

namespace OwnedBatch

/-- A list of byte strings that fits is made into its encoding, with the tables that it needs, and
is read back from it while nobody writes to these.  No list and a list of empty byte strings differ
in their count.  A well-formed batch is read as the list that it encodes, and what is made from that
list has the same tables.  A list that does not fit is refused, and nothing is allocated. -/
theorem codec (secrecy : Secrecy) :
    (∀ (items : List Bytes) (h : Heap), Fits items → h.grants (blockSizes items) = true →
      ∃ b h', copyFrom items secrecy h = (.ok b, h') ∧ b.raw.Encodes h' items ∧
        (b.raw.data = .null ↔ items.flatten = []) ∧
        (b.raw.data = .null ∧ b.raw.sizes = .null ↔ items = []) ∧
        ∀ later : Heap, (∀ id ∈ b.raw.blocks, later.block? id = h'.block? id) →
          (b.raw.take later).1 = .ok items) ∧
    (∀ (n : Nat) (raw raw' : RawBatch) (h h' : Heap), 0 < n → raw.Encodes h [] →
      raw'.Encodes h' (List.replicate n []) → raw.count ≠ raw'.count) ∧
    (∀ (raw : RawBatch) (h : Heap), raw.WellFormed h → raw.total h ≤ nativeSizeLimit →
      ∃ items, (raw.take h).1 = .ok items ∧ raw.Encodes h items ∧
        ∀ g : Heap, g.grants (blockSizes items) = true →
          ∃ b g', copyFrom items secrecy g = (.ok b, g') ∧ b.raw.count = raw.count ∧
            b.raw.sizes.read g' (4 * raw.length) = raw.sizes.read h (4 * raw.length) ∧
            b.raw.data.read g' (raw.total h) = raw.data.read h (raw.total h)) ∧
    (∀ (items : List Bytes) (h : Heap), ¬ Fits items →
      ∃ reason, copyFrom items secrecy h = (.error (.badArgument reason), h)) := by
  refine ⟨?_, ?_, ?_, ?_⟩
  · intro items h hfits hgrants
    obtain ⟨b, h', hcopy⟩ := copyFrom_of_grants hfits hgrants secrecy
    have hwritten := written_copyFrom hcopy
    obtain ⟨hdata, hnone⟩ := hwritten.raw_null
    exact ⟨b, h', hcopy, hwritten.encodes, hdata, hnone, fun later => take_copyFrom hcopy⟩
  · intro n raw raw' h h' hn he he'
    exact he.count_ne hn he'
  · intro raw h hwell htotal
    obtain ⟨items, htake, hencodes⟩ := RawBatch.take_of_wellFormed hwell
    refine ⟨items, htake, hencodes, ?_⟩
    intro g hgrants
    obtain ⟨b, g', hcopy⟩ := copyFrom_of_grants (hencodes.fits htotal) hgrants secrecy
    exact ⟨b, g', hcopy, hwell.tables_eq hencodes (written_copyFrom hcopy)⟩
  · intro items h hfits
    exact copyFrom_of_not_fits hfits secrecy h

/-- A block with more data than needed, and a size table of three lengths. -/
def foreignHeap : Heap :=
  ((({} : Heap).request ⟨5, [7, 8, 9, 10, 11]⟩).2.request
    ⟨12, Bytes.ofInt32 2 ++ Bytes.ofInt32 0 ++ Bytes.ofInt32 1⟩).2

/-- The batch with these tables. -/
def foreign : RawBatch := ⟨.native 0 0, .native 1 0, 3⟩

theorem codec_mixed :
    (∃ b h', copyFrom [[], [1, 2, 3], [], [4]] .secret {} = (.ok b, h') ∧
      (b.raw.take h').1 = .ok [[], [1, 2, 3], [], [4]]) ∧
    (∃ items, (foreign.take foreignHeap).1 = .ok items ∧ foreign.Encodes foreignHeap items ∧
      foreign.total foreignHeap = 3) ∧
    RawBatch.empty.count ≠ (⟨.null, .native 0 0, 2⟩ : RawBatch).count ∧
    ∃ reason, copyFrom [List.replicate (nativeSizeLimit + 1) 0] .secret {} =
      (.error (.badArgument reason), {}) := by
  obtain ⟨hmade, hnever, hread, hrefused⟩ := codec .secret
  refine ⟨?_, ?_, ?_, ?_⟩
  · have hfits : Fits [[], [1, 2, 3], [], [4]] := ⟨by decide, by decide, by decide⟩
    obtain ⟨b, h', hcopy, -, -, -, htake⟩ := hmade _ {} hfits (by decide)
    exact ⟨b, h', hcopy, htake h' fun _ _ => rfl⟩
  · have hwell : foreign.WellFormed foreignHeap := by
      constructor
      case count => decide
      case sizes => exact ⟨1, rfl, 12, by decide, by decide⟩
      case lengths =>
        rw [RawBatch.measured_iff]
        decide
      case data => exact .inl ⟨0, rfl, 5, by decide, by decide⟩
    obtain ⟨items, htake, hencodes, -⟩ := hread foreign foreignHeap hwell (by decide)
    exact ⟨items, htake, hencodes, by decide⟩
  · refine hnever 2 _ _ {} (({} : Heap).allocateCleared 8).2 (by decide) ⟨rfl, rfl, rfl⟩ ?_
    exact ⟨by decide, by decide, by decide⟩
  · refine hrefused _ {} fun hfits => ?_
    have hlength := hfits.each _ (List.mem_singleton.mpr rfl)
    rw [List.length_replicate] at hlength
    exact absurd hlength (Nat.not_succ_le_self _)

end OwnedBatch

end NativeBoundary

import NativeBoundary.Proofs.Memory.BatchCodec
import NativeBoundary.Proofs.Memory.Contents

/-!
# Where a batch is written and read

The tables of a batch are filled and read entry by entry, with a running offset into the data.
Making a batch writes both tables in one piece, and reading it cuts one piece into parts; the loops
do the same (`OwnedBatch.block?_copyFrom`, `OwnedBatch.entries_eq_slices`), and so the bounds of
their steps are bounds of the operations.

* `OwnedBatch.rounds`, `OwnedBatch.mem_rounds` — the writes of one batch, each inside of its table;
* `OwnedBatch.slices`, `OwnedBatch.mem_slices` — the reads of one batch, each inside of its data;
* `OwnedBatch.InRange`, `OwnedBatch.Filled` — what making a batch relies on, and what it does;
* `RawBatch.totalOf_take_le`, `RawBatch.ReadAs` — the same for a batch from native code.
-/

namespace NativeBoundary

/-- A length takes four bytes of a size table. -/
theorem Bytes.four_mul_length_toInt32s_le (bytes : Bytes) :
    4 * (toInt32s bytes).length ≤ bytes.length := by
  fun_induction toInt32s bytes with
  | case1 b0 b1 b2 b3 rest ih =>
      simp only [List.length_cons]
      omega
  | case2 bytes _ => exact Nat.zero_le _

theorem totalOf_append (first second : List Nat) :
    totalOf (first ++ second) = totalOf first + totalOf second := by
  induction first with
  | nil => exact (Nat.zero_add _).symm
  | cons n first ih =>
      change n + totalOf (first ++ second) = n + totalOf first + totalOf second
      omega

/-- The running total never goes beyond the total. -/
theorem totalOf_take_le_totalOf (lengths : List Nat) (k : Nat) :
    totalOf (lengths.take k) ≤ totalOf lengths := by
  have hsplit := totalOf_append (lengths.take k) (lengths.drop k)
  rw [List.take_append_drop] at hsplit
  omega

/-- A total of bounded lengths is bounded. -/
theorem totalOf_le {limit : Nat} {lengths : List Nat} (h : ∀ n ∈ lengths, n ≤ limit) :
    totalOf lengths ≤ lengths.length * limit := by
  induction lengths with
  | nil => exact Nat.zero_le _
  | cons n lengths ih =>
      have hfirst := h n List.mem_cons_self
      have hrest := ih fun k hk => h k (List.mem_cons_of_mem _ hk)
      rw [List.length_cons, Nat.succ_mul]
      change n + totalOf lengths ≤ _
      omega

/-- What is written in two goes, one right behind the other, may be written in one. -/
theorem Block.write_append (b : Block) (offset : Nat) (first second : Bytes) :
    (b.write offset first).write (offset + first.length) second =
      b.write offset (first ++ second) := by
  by_cases hfirst : first = []
  · subst hfirst
    rfl
  · by_cases hsecond : second = []
    · subst hsecond
      rw [List.append_nil, write, if_pos rfl]
    · have hboth : first ++ second ≠ [] := by simp [hfirst]
      -- what stands in front of the second piece ends with the first one
      have hfront : (b.lead.take offset ++ Bytes.zeros (offset - (b.lead.take offset).length) ++
          first).length = offset + first.length := by
        simp only [List.length_append, List.length_take, Bytes.length_zeros]
        omega
      have hlong : (b.lead.take offset ++ Bytes.zeros (offset - (b.lead.take offset).length) ++
          first ++ b.lead.drop (offset + first.length)).take (offset + first.length) =
          b.lead.take offset ++ Bytes.zeros (offset - (b.lead.take offset).length) ++ first := by
        rw [← hfront, List.take_left]
      have hbehind : (b.lead.take offset ++ Bytes.zeros (offset - (b.lead.take offset).length) ++
          first ++ b.lead.drop (offset + first.length)).drop
            (offset + first.length + second.length) =
          b.lead.drop (offset + (first ++ second).length) := by
        rw [← List.drop_drop]
        nth_rewrite 1 [← hfront]
        rw [List.drop_left, List.drop_drop, List.length_append, Nat.add_assoc]
      unfold write
      rw [if_neg hfirst, if_neg hsecond, if_neg hboth]
      refine congrArg (Block.mk b.size) ?_
      dsimp only
      rw [hlong, hbehind, hfront, Nat.sub_self]
      simp [Bytes.zeros]

/-- What is read has the length that was asked for. -/
theorem Heap.length_read (h : Heap) (id : BlockId) (offset n : Nat) :
    (h.read id offset n).length = n := by
  rw [read_eq_map, List.length_map, List.length_range]

/-- A pointer to the first byte of a block. -/
theorem Pointer.eq_of_block {p : Pointer} {id : BlockId} (hp : p.block? = some id) :
    p = .native id 0 := by
  unfold block? at hp
  split at hp
  · cases hp
    rfl
  · cases hp

/-- No more bytes are read than were asked for. -/
theorem Pointer.length_read_le (p : Pointer) (h : Heap) (n : Nat) : (p.read h n).length ≤ n := by
  cases p with
  | null => exact Nat.zero_le n
  | native id offset => exact Nat.le_of_eq (h.length_read id offset n)
  | host bytes => exact List.length_take_le n bytes

namespace OwnedBatch

/-- One round of the loop that fills the tables of a batch. -/
structure Round where
  /-- Where the length is written in the size table. -/
  slot : Nat
  size : Int32
  /-- Where the byte string is written in the data. -/
  start : Nat
  item : Bytes

/-- The rounds for some byte strings, from the round with a given number and from a given offset
on. -/
def rounds : Nat → Nat → List Bytes → List Round
  | _, _, [] => []
  | i, start, item :: items =>
      ⟨4 * i, Int32.ofNat item.length, start, item⟩ :: rounds (i + 1) (start + item.length) items

/-- What one round does. -/
def Round.run (sizes : BlockId) (data? : Option BlockId) (h : Heap) (r : Round) : Heap :=
  let h := h.write sizes r.slot (Bytes.ofInt32 r.size)
  match data? with
  | some data => h.write data r.start r.item
  | none => h

/-- The heap with new tables for some byte strings, not filled yet. -/
def withTables (items : List Bytes) (h : Heap) : Heap :=
  let h := (h.allocate (4 * items.length)).2
  if items.flatten.length = 0 then h else (h.allocate items.flatten.length).2

variable {items : List Bytes} {sizes : BlockId} {data? : Option BlockId} {h h' : Heap} {j : BlockId}

/-- Each round writes inside of both tables, and its length survives the size field. -/
theorem mem_rounds {r : Round} {i start : Nat} (hr : r ∈ rounds i start items)
    (hfits : ∀ item ∈ items, item.length ≤ nativeSizeLimit) :
    r.slot + 4 ≤ 4 * (i + items.length) ∧ r.start + r.item.length ≤ start + items.flatten.length ∧
      r.size.toInt = r.item.length := by
  induction items generalizing i start with
  | nil => cases hr
  | cons item items ih =>
      rw [List.flatten_cons, List.length_append, List.length_cons]
      rcases List.mem_cons.mp hr with rfl | hr
      · refine ⟨?_, ?_, toInt_ofNat_of_le (hfits item List.mem_cons_self)⟩
        · change 4 * i + 4 ≤ _
          omega
        · change start + item.length ≤ _
          omega
      · obtain ⟨hslot, hstart, hsize⟩ := ih hr fun x hx => hfits x (List.mem_cons_of_mem _ hx)
        exact ⟨by omega, by omega, hsize⟩

theorem block?_run_other (r : Round) (hsizes : j ≠ sizes) (hdata : data? ≠ some j) (h : Heap) :
    (r.run sizes data? h).block? j = h.block? j := by
  unfold Round.run
  cases data? with
  | none => exact Heap.block?_write_of_ne hsizes _ _
  | some data =>
      have hne : j ≠ data := by
        rintro rfl
        exact hdata rfl
      exact (Heap.block?_write_of_ne hne _ _).trans (Heap.block?_write_of_ne hsizes _ _)

theorem block?_run_sizes (r : Round) (hapart : data? ≠ some sizes) (h : Heap) :
    (r.run sizes data? h).block? sizes =
      (h.block? sizes).map (·.write r.slot (Bytes.ofInt32 r.size)) := by
  have hwritten : (h.write sizes r.slot (Bytes.ofInt32 r.size)).block? sizes =
      (h.block? sizes).map (·.write r.slot (Bytes.ofInt32 r.size)) := by
    rw [Heap.write, Heap.block?_update, if_pos rfl]
  unfold Round.run
  cases data? with
  | none => exact hwritten
  | some data =>
      have hne : sizes ≠ data := by
        rintro rfl
        exact hapart rfl
      exact (Heap.block?_write_of_ne hne _ _).trans hwritten

theorem block?_run_data {data : BlockId} (r : Round) (hapart : data ≠ sizes) (h : Heap) :
    (r.run sizes (some data) h).block? data = (h.block? data).map (·.write r.start r.item) := by
  change ((h.write sizes _ _).write data _ _).block? data = _
  rw [Heap.write, Heap.block?_update, if_pos rfl, Heap.block?_write_of_ne hapart]

/-- The loop leaves other blocks alone. -/
theorem block?_rounds_other (hsizes : j ≠ sizes) (hdata : data? ≠ some j) (i start : Nat) :
    ((rounds i start items).foldl (fun h r => r.run sizes data? h) h).block? j = h.block? j := by
  induction items generalizing i start h with
  | nil => rfl
  | cons item items ih =>
      rw [rounds, List.foldl_cons, ih]
      exact block?_run_other _ hsizes hdata h

/-- The loop writes the size table. -/
theorem block?_rounds_sizes (hapart : data? ≠ some sizes) (i start : Nat) :
    ((rounds i start items).foldl (fun h r => r.run sizes data? h) h).block? sizes =
      (h.block? sizes).map (·.write (4 * i) (sizeTable items)) := by
  induction items generalizing i start h with
  | nil => cases hb : h.block? sizes <;> simp [rounds, sizeTable, hb, Block.write]
  | cons item items ih =>
      have hlength : (Bytes.ofInt32 (Int32.ofNat item.length)).length = 4 :=
        Bytes.length_ofNatLE 4 _
      have htable : sizeTable (item :: items) =
          Bytes.ofInt32 (Int32.ofNat item.length) ++ sizeTable items := rfl
      rw [rounds, List.foldl_cons, ih, block?_run_sizes _ hapart, Option.map_map, htable]
      refine congrArg (fun f => (h.block? sizes).map f) (funext fun b => ?_)
      have hwrite := b.write_append (4 * i) (Bytes.ofInt32 (Int32.ofNat item.length))
        (sizeTable items)
      rw [hlength] at hwrite
      exact hwrite

/-- The loop writes the data. -/
theorem block?_rounds_data {data : BlockId} (hapart : data ≠ sizes) (i start : Nat) :
    ((rounds i start items).foldl (fun h r => r.run sizes (some data) h) h).block? data =
      (h.block? data).map (·.write start items.flatten) := by
  induction items generalizing i start h with
  | nil => cases hb : h.block? data <;> simp [rounds, hb, Block.write]
  | cons item items ih =>
      rw [rounds, List.foldl_cons, ih, block?_run_data _ hapart, Option.map_map, List.flatten_cons]
      refine congrArg (fun f => (h.block? data).map f) (funext fun b => ?_)
      exact b.write_append start item items.flatten

/-- A batch is made by the rounds of the loop: they leave every block as making the batch does. -/
theorem block?_copyFrom {b : OwnedBatch} {secrecy : Secrecy} (hsome : items ≠ [])
    (hc : copyFrom items secrecy h = (.ok b, h')) :
    ∃ sizes, b.sizes? = some sizes ∧ ∀ j, h'.block? j =
      ((rounds 0 0 items).foldl (fun h r => r.run sizes b.data? h)
        (withTables items h)).block? j := by
  cases copying_of_copyFrom hc with
  | empty hnone => exact absurd hnone hsome
  | @lengths total sizes made _ hzero hmeasure hsizes =>
      obtain ⟨-, rfl⟩ := fits_of_measure hmeasure
      have htables : withTables items h = made := by
        rw [withTables, hsizes]
        exact if_pos hzero
      refine ⟨sizes, rfl, fun j => ?_⟩
      rw [htables]
      by_cases hj : j = sizes
      · subst hj
        rw [block?_rounds_sizes (by simp), Heap.write, Heap.block?_update, if_pos rfl]
      · rw [block?_rounds_other hj (by simp), Heap.block?_write_of_ne hj]
  | @full total sizes data middle made _ hpos hmeasure hsizes hdata =>
      obtain ⟨-, rfl⟩ := fits_of_measure hmeasure
      have hapart : data ≠ sizes := Nat.ne_of_gt (Heap.request_lt hsizes hdata)
      have htables : withTables items h = made := by
        rw [withTables, hsizes]
        simp only [if_neg hpos, hdata]
      refine ⟨sizes, rfl, fun j => ?_⟩
      rw [htables]
      by_cases hj : j = data
      · subst hj
        rw [block?_rounds_data hapart, Heap.write, Heap.block?_update, if_pos rfl,
          Heap.block?_write_of_ne hapart]
      · rw [Heap.block?_write_of_ne hj]
        by_cases hs : j = sizes
        · subst hs
          rw [block?_rounds_sizes (by simpa using hapart), Heap.write, Heap.block?_update,
            if_pos rfl]
        · rw [block?_rounds_other hs (by simpa using Ne.symm hj), Heap.block?_write_of_ne hs]

/-- The parts that are read of the data of a batch: where each starts, and its length. -/
def slices : Nat → List Nat → List (Nat × Nat)
  | _, [] => []
  | start, n :: lengths => (start, n) :: slices (start + n) lengths

/-- Each part ends where the lengths together do, or before. -/
theorem mem_slices {part : Nat × Nat} {start : Nat} {lengths : List Nat}
    (h : part ∈ slices start lengths) : part.1 + part.2 ≤ start + totalOf lengths := by
  induction lengths generalizing start with
  | nil => cases h
  | cons n lengths ih =>
      change _ ≤ start + (n + totalOf lengths)
      rcases List.mem_cons.mp h with rfl | h
      · change start + n ≤ _
        omega
      · have hrest := ih h
        omega

theorem cut_read (h : Heap) (id : BlockId) (start : Nat) (lengths : List Nat) :
    cut lengths (h.read id start (totalOf lengths)) =
      (slices start lengths).map fun part => h.read id part.1 part.2 := by
  induction lengths generalizing start with
  | nil => rfl
  | cons n lengths ih =>
      have hsplit : h.read id start (totalOf (n :: lengths)) =
          h.read id start n ++ h.read id (start + n) (totalOf lengths) :=
        h.read_append id start n (totalOf lengths)
      have hfirst := h.length_read id start n
      rw [slices, List.map_cons, cut, hsplit, List.take_left' hfirst, List.drop_left' hfirst, ih]

/-- The byte strings of a batch are its parts, read one after the other. -/
theorem entries_eq_slices (b : OwnedBatch) (h : Heap) :
    b.entries h = (slices 0 (b.lengths h)).map fun part =>
      match b.data? with
      | some data => h.read data part.1 part.2
      | none => [] := by
  unfold entries
  cases b.data? with
  | some data => exact cut_read h data 0 _
  | none =>
      have hempty : ∀ (start : Nat) (lengths : List Nat),
          lengths.map (fun _ => ([] : Bytes)) = (slices start lengths).map fun _ => [] := by
        intro start lengths
        induction lengths generalizing start with
        | nil => rfl
        | cons n lengths ih => rw [slices, List.map_cons, List.map_cons, ih]
      exact hempty 0 _

/-- The size table of an accepted batch holds the lengths that were inspected. -/
theorem lengths_of_adopt {raw : RawBatch} {b : OwnedBatch} (ha : adopt raw h = (.ok b, h')) :
    b.lengths h = [] ∨ b.lengths h = (raw.lengths h).map fun n => n.toInt.toNat := by
  obtain ⟨-, -, hb⟩ := adopt_eq ha
  unfold lengths
  rw [hb]
  simp only
  split
  · rename_i id hid
    right
    rw [RawBatch.lengths, Pointer.eq_of_block hid]
    rfl
  · exact .inl rfl

/-- These add up to no more than the total that was found. -/
theorem totalOf_lengths_le {raw : RawBatch} {b : OwnedBatch} (ha : adopt raw h = (.ok b, h')) :
    totalOf (b.lengths h) ≤ b.total := by
  obtain ⟨-, hinspect, -⟩ := adopt_eq ha
  obtain ⟨hmeasured, htotal⟩ := RawBatch.measured_of_inspect hinspect
  rw [RawBatch.known_of_measured hmeasured] at htotal
  rcases lengths_of_adopt ha with hnone | hall
  · rw [hnone]
    exact Nat.zero_le _
  · rw [hall, htotal]

theorem lengths_congr (b : OwnedBatch) (hkept : ∀ id ∈ b.sizes?, h'.block? id = h.block? id) :
    b.lengths h' = b.lengths h := by
  unfold lengths
  split
  · rename_i id hid
    rw [Heap.read_congr (hkept id hid)]
  · rfl

/-- What making a batch of some byte strings relies on: no length, no offset and no sum on the way
is too large for its type, and nothing is written beyond a table. -/
structure InRange (items : List Bytes) : Prop where
  /-- The number of byte strings survives the count field. -/
  count : (Int32.ofNat items.length).toInt = items.length
  /-- The size table has a length. -/
  table : 4 * items.length ≤ Memory.largestLength
  running : ∀ k, totalOf ((items.map List.length).take k) ≤ items.flatten.length
  total : items.flatten.length ≤ nativeSizeLimit
  rounds : ∀ r ∈ rounds 0 0 items, r.slot + 4 ≤ 4 * items.length ∧
    r.start + r.item.length ≤ items.flatten.length ∧ r.size.toInt = r.item.length

/-- Byte strings that fit are in range. -/
theorem Fits.inRange (hf : Fits items) : InRange items where
  count := toInt_ofNat_of_le hf.count
  table := Nat.le_trans (Nat.mul_le_mul_left 4 hf.count) (by decide)
  running := fun k => by
    rw [← totalOf_lengths]
    exact totalOf_take_le_totalOf _ k
  total := hf.total
  rounds := fun r hr => by
    have hround := mem_rounds hr hf.each
    rwa [Nat.zero_add, Nat.zero_add] at hround

/-- How a batch of some byte strings was made. -/
structure Filled (b : OwnedBatch) (items : List Bytes) (h h' : Heap) : Prop where
  count : b.count = items.length
  total : b.total = items.flatten.length
  sizes : ∀ id ∈ b.sizes?, h'.size? id = some (4 * items.length)
  data : ∀ id ∈ b.data?, h'.size? id = some items.flatten.length
  /-- The rounds of the loop filled its tables. -/
  loop : ∃ sizes, b.sizes? = some sizes ∧ ∀ j, h'.block? j =
    ((OwnedBatch.rounds 0 0 items).foldl (fun h r => r.run sizes b.data? h)
      (withTables items h)).block? j

theorem filled_copyFrom {b : OwnedBatch} {secrecy : Secrecy} (hsome : items ≠ [])
    (hc : copyFrom items secrecy h = (.ok b, h')) : b.Filled items h h' := by
  obtain ⟨-, htotal, hdata, hsizes⟩ := sizes_copyFrom hc
  exact ⟨(written_copyFrom hc).count, htotal, hsizes, hdata, block?_copyFrom hsome hc⟩

end OwnedBatch

namespace RawBatch

/-- A size table has as many lengths as its batch has byte strings, or fewer if it is cut off. -/
theorem length_lengths_le (raw : RawBatch) (h : Heap) : (raw.lengths h).length ≤ raw.length := by
  have htable := Bytes.four_mul_length_toInt32s_le (raw.sizes.read h (4 * raw.length))
  have hread := raw.sizes.length_read_le h (4 * raw.length)
  unfold lengths
  omega

/-- The running total of any lengths that native code may choose stays far from overflowing. -/
theorem totalOf_take_le (raw : RawBatch) (h : Heap) (k : Nat) :
    totalOf (((raw.lengths h).map fun n => n.toInt.toNat).take k) ≤ 2 ^ 62 := by
  have hlimit : ∀ n ∈ (raw.lengths h).map fun n => n.toInt.toNat, n ≤ nativeSizeLimit := by
    intro n hn
    obtain ⟨m, -, rfl⟩ := List.mem_map.mp hn
    exact toNat_le_limit m
  have hcount : ((raw.lengths h).map fun n => n.toInt.toNat).length ≤ nativeSizeLimit := by
    rw [List.length_map]
    exact Nat.le_trans (raw.length_lengths_le h) (toNat_le_limit raw.count)
  calc totalOf (((raw.lengths h).map fun n => n.toInt.toNat).take k)
      ≤ totalOf ((raw.lengths h).map fun n => n.toInt.toNat) := totalOf_take_le_totalOf _ k
    _ ≤ ((raw.lengths h).map fun n => n.toInt.toNat).length * nativeSizeLimit := totalOf_le hlimit
    _ ≤ nativeSizeLimit * nativeSizeLimit := Nat.mul_le_mul_right _ hcount
    _ ≤ 2 ^ 62 := by decide

/-- How an accepted batch is read. -/
structure ReadAs (raw : RawBatch) (h : Heap) (b : OwnedBatch) : Prop where
  count : raw.count.toInt = b.count
  total : b.total = totalOf ((raw.lengths h).map fun n => n.toInt.toNat)
  /-- Its byte strings are its parts, and for as long as the size table stands these end where the
  total does, or before. -/
  parts : ∀ later : Heap, (∀ id ∈ b.sizes?, later.block? id = h.block? id) →
    b.entries later = ((OwnedBatch.slices 0 (b.lengths later)).map fun part =>
      match b.data? with
      | some data => later.read data part.1 part.2
      | none => []) ∧
    ∀ part ∈ OwnedBatch.slices 0 (b.lengths later), part.1 + part.2 ≤ b.total

theorem readAs_of_adopt {raw : RawBatch} {b : OwnedBatch} {h h' : Heap}
    (ha : OwnedBatch.adopt raw h = (.ok b, h')) : raw.ReadAs h b := by
  obtain ⟨-, hinspect, hb⟩ := OwnedBatch.adopt_eq ha
  obtain ⟨hmeasured, htotal⟩ := measured_of_inspect hinspect
  refine ⟨?_, htotal.trans (known_of_measured hmeasured), fun later hkept => ?_⟩
  · have hcount : ¬ raw.count < 0 := by
      intro hnegative
      unfold OwnedBatch.inspect at hinspect
      rw [if_pos hnegative] at hinspect
      cases hinspect
    have hint : ¬ raw.count.toInt < 0 := fun hlt => hcount (Int32.lt_iff_toInt_lt.mpr hlt)
    rw [hb]
    simp only [length]
    omega
  · refine ⟨b.entries_eq_slices later, fun part hpart => ?_⟩
    rw [b.lengths_congr hkept] at hpart
    have hend := OwnedBatch.mem_slices hpart
    rw [Nat.zero_add] at hend
    exact Nat.le_trans hend (OwnedBatch.totalOf_lengths_le ha)

end RawBatch

end NativeBoundary

import NativeBoundary.Proofs.Memory.Contents
import NativeBoundary.Proofs.Memory.Delivery

/-!
# Batches from native code

What native code hands over as a batch is two pointers and a count, and any of them may be wrong.
This file says which batches are accepted, and what becomes of their tables.

The specification looks at one entry of the size table at a time (`RawBatch.entry`).
`RawBatch.Breaks` says when a batch breaks a rule, `RawBatch.FirstBroken` which one is reported,
and `RawBatch.Acceptable` what is accepted, without a word of the rules.  Every batch is either
acceptable or breaks a first rule (`RawBatch.inspect_eq` is where both come from).

A table is released as a block of the heap: `Heap.FreesEach` says that the blocks of a list are
freed, each of them once, and that nothing else happens.

* `Process.foreign_batch` — acceptance, rejection and release of every batch that can be presented.
-/

namespace NativeBoundary

namespace Heap

variable {h h' h'' : Heap} {id : BlockId} {ids more : List BlockId}

/-- The blocks of a list are freed, one after the other and each once, and nothing else happens. -/
structure FreesEach (h : Heap) (ids : List BlockId) (h' : Heap) : Prop where
  freed : ∃ events, h'.trace = events ++ h.trace ∧
    events.reverse.map HeapEvent.freed? = ids.map some
  blocks : ∀ j, h'.block? j = if j ∈ ids then none else h.block? j
  next : h'.next = h.next
  granted : h'.granted = h.granted

theorem FreesEach.refl (h : Heap) : h.FreesEach [] h where
  freed := ⟨[], rfl, rfl⟩
  blocks := fun _ => rfl
  next := rfl
  granted := rfl

theorem FreesEach.trans (first : h.FreesEach ids h') (second : h'.FreesEach more h'') :
    h.FreesEach (ids ++ more) h'' where
  freed := by
    obtain ⟨early, hearly, hids⟩ := first.freed
    obtain ⟨late, hlate, hmore⟩ := second.freed
    refine ⟨late ++ early, by rw [hlate, hearly, List.append_assoc], ?_⟩
    rw [List.reverse_append, List.map_append, hids, hmore, List.map_append]
  blocks := fun j => by
    rw [second.blocks, first.blocks]
    by_cases hmore : j ∈ more <;> by_cases hids : j ∈ ids <;> simp [hmore, hids]
  next := second.next.trans first.next
  granted := second.granted.trans first.granted

/-- Blocks that were live are so until they are freed. -/
theorem FreesEach.live (hf : h.FreesEach ids h') {j : BlockId} (hj : j ∉ ids)
    (hl : (h.block? j).isSome) : (h'.block? j).isSome := by
  rw [hf.blocks, if_neg hj]
  exact hl

theorem freesEach_free (holding : Holding) (hl : (h.block? id).isSome) :
    h.FreesEach [id] (h.free id holding) := by
  obtain ⟨last, hlast⟩ := Option.isSome_iff_exists.mp hl
  constructor
  case freed => exact ⟨[.freed id last holding], trace_free_of_live holding hlast, rfl⟩
  case blocks =>
    intro j
    rw [block?_free]
    simp only [List.mem_singleton]
  case next => exact next_free h id holding
  case granted =>
    unfold free
    rw [hlast]

/-- Wiping a block before it is freed leaves no trace. -/
theorem freesEach_release (length : Nat) (wiped : Bool) (hl : (h.block? id).isSome) :
    h.FreesEach [id] (h.release id length wiped) := by
  unfold release
  cases wiped with
  | false => exact freesEach_free _ hl
  | true =>
      have hwiped : ((h.wipe id 0 length).block? id).isSome := by
        rw [wipe, block?_update, if_pos rfl, Option.isSome_map]
        exact hl
      obtain ⟨hfreed, hblocks, hnext, hgranted⟩ :=
        freesEach_free (.payload length true) hwiped
      refine ⟨hfreed, fun j => ?_, hnext, hgranted⟩
      refine (hblocks j).trans ?_
      by_cases hj : j = id
      · simp [hj]
      · rw [wipe, block?_update, if_neg hj]

/-- An array is the list of its entries. -/
theorem toInt32s_read (h : Heap) (id : BlockId) (offset count : Nat) :
    Bytes.toInt32s (h.read id offset (4 * count)) =
      (List.range count).map fun i => Bytes.toInt32 (h.read id (offset + 4 * i) 4) := by
  induction count generalizing offset with
  | zero => simp [read_eq_map, Bytes.toInt32s]
  | succ count ih =>
      have hfour : (h.read id offset 4).length = 4 := by
        rw [read_eq_map, List.length_map, List.length_range]
      have hsplit : h.read id offset (4 * (count + 1)) =
          Bytes.ofInt32 (Bytes.toInt32 (h.read id offset 4)) ++
            h.read id (offset + 4) (4 * count) := by
        rw [Bytes.ofInt32_toInt32 hfour, Nat.mul_succ, Nat.add_comm, read_append]
      rw [hsplit, Bytes.toInt32s_ofInt32_append, ih, List.range_succ_eq_map, List.map_cons,
        List.map_map]
      refine congrArg₂ _ rfl (List.map_congr_left fun i _ => ?_)
      rw [Function.comp_apply, Nat.mul_succ, Nat.add_comm (4 * i) 4, Nat.add_assoc]

end Heap

/-- A pointer that may be given for a table: null, or the first byte of a live block. -/
def Pointer.IsTable (p : Pointer) (h : Heap) : Prop :=
  p = .null ∨ ∃ id, p = .native id 0 ∧ (h.block? id).isSome

namespace Malformation

/-- The rules in the order in which they are looked at. -/
def order : List Malformation := [negativeCount, missingSizes, negativeLength, missingData]

theorem mem_order (r : Malformation) : r ∈ order := by
  cases r <;> decide

/-- Every rule has words of its own. -/
theorem fault_injective {r q : Malformation} (heq : r.fault = q.fault) : r = q := by
  revert heq
  cases r <;> cases q <;> decide

end Malformation

namespace RawBatch

variable {raw : RawBatch} {h : Heap}

/-- A batch as native code may present it: each table is null or a live block, they are not the
same block, and a size table has room for as many entries as the count says. -/
structure Presented (raw : RawBatch) (h : Heap) : Prop where
  data : raw.data.IsTable h
  sizes : raw.sizes.IsTable h
  distinct : raw.blocks.Nodup
  room : ∀ id ∈ raw.sizes.block?, ∀ b ∈ h.block? id, 4 * raw.length ≤ b.size

/-- The entry of the size table at an index. -/
def entry (raw : RawBatch) (h : Heap) (i : Nat) : Int32 :=
  match raw.sizes.block? with
  | some id => Bytes.toInt32 (h.read id (4 * i) 4)
  | none => 0

/-- The sum of the entries, where each of them is a length. -/
def sum (raw : RawBatch) (h : Heap) : Nat :=
  totalOf ((List.range raw.length).map fun i => (raw.entry h i).toInt.toNat)

/-- A batch breaks a rule. -/
def Breaks (raw : RawBatch) (h : Heap) : Malformation → Prop
  | .negativeCount => raw.count < 0
  | .missingSizes => 0 < raw.count ∧ raw.sizes = .null
  | .negativeLength => 0 < raw.count ∧ raw.sizes ≠ .null ∧ ∃ i < raw.length, raw.entry h i < 0
  | .missingData => 0 < raw.count ∧ raw.sizes ≠ .null ∧ raw.sum h ≠ 0 ∧ raw.data = .null

instance (raw : RawBatch) (h : Heap) : DecidablePred (raw.Breaks h)
  | .negativeCount => inferInstanceAs (Decidable (raw.count < 0))
  | .missingSizes => inferInstanceAs (Decidable (0 < raw.count ∧ raw.sizes = .null))
  | .negativeLength => inferInstanceAs (Decidable (0 < raw.count ∧ raw.sizes ≠ .null ∧
      ∃ i < raw.length, raw.entry h i < 0))
  | .missingData => inferInstanceAs (Decidable (0 < raw.count ∧ raw.sizes ≠ .null ∧
      raw.sum h ≠ 0 ∧ raw.data = .null))

/-- The first rule that a batch breaks. -/
def firstBroken? (raw : RawBatch) (h : Heap) : Option Malformation :=
  Malformation.order.find? (raw.Breaks h ·)

/-- A batch of no byte strings, or one with a size table that holds lengths only and with data
unless the lengths add up to nothing. -/
def Acceptable (raw : RawBatch) (h : Heap) : Prop :=
  raw.count = 0 ∨
    0 < raw.count ∧ raw.sizes ≠ .null ∧ (∀ i < raw.length, 0 ≤ raw.entry h i) ∧
      (raw.sum h = 0 ∨ raw.data ≠ .null)

theorem count_pos_iff (raw : RawBatch) : 0 < raw.count ↔ ¬ raw.count < 0 ∧ ¬ raw.count = 0 := by
  simp only [Int32.lt_iff_toInt_lt, ← Int32.toInt_inj, Int32.toInt_zero]
  omega

/-- The lengths of a batch are the entries of its size table. -/
theorem Presented.lengths_eq (hp : raw.Presented h) (hsizes : raw.sizes ≠ .null) :
    raw.lengths h = (List.range raw.length).map (raw.entry h) := by
  rcases hp.sizes with hnull | ⟨id, hid, -⟩
  · exact absurd hnull hsizes
  · unfold lengths
    rw [hid]
    refine (h.toInt32s_read id 0 raw.length).trans (List.map_congr_left fun i _ => ?_)
    simp only [entry, hid, Pointer.block?, Nat.zero_add]

/-- The rules are looked at one after the other. -/
theorem Presented.inspect_eq (hp : raw.Presented h) :
    OwnedBatch.inspect raw h =
      match raw.firstBroken? h with
      | some r => .error r
      | none => .ok (raw.sum h) := by
  have hnull : ∀ p : Pointer, p.isNull = true ↔ p = .null := fun p => by
    cases p <;> simp [Pointer.isNull]
  unfold OwnedBatch.inspect firstBroken? Malformation.order
  by_cases hnegative : raw.count < 0
  · simp [Breaks, hnegative]
  · by_cases hzero : raw.count = 0
    · have hsum : raw.sum h = 0 := by
        simp [sum, length, hzero, totalOf]
      simp [Breaks, hzero, hsum]
    · have hpos : 0 < raw.count := (count_pos_iff raw).mpr ⟨hnegative, hzero⟩
      by_cases hsizes : raw.sizes = .null
      · simp [Breaks, hnegative, hzero, hpos, hsizes, hnull]
      · have hlengths : Bytes.toInt32s (raw.sizes.read h (4 * raw.length)) = _ :=
          hp.lengths_eq hsizes
        have hany : ((List.range raw.length).map (raw.entry h)).any (· < 0) = true ↔
            ∃ i < raw.length, raw.entry h i < 0 := by
          simp [List.any_eq_true]
        have hsum : totalOf (((List.range raw.length).map (raw.entry h)).map fun n =>
            n.toInt.toNat) = raw.sum h := by
          rw [List.map_map]
          rfl
        rw [hlengths]
        simp only [hnegative, hzero, hnull, hsizes, hany, hsum, if_false]
        by_cases hentry : ∃ i < raw.length, raw.entry h i < 0
        · simp [Breaks, hnegative, hpos, hsizes, hentry]
        · by_cases hdata : raw.sum h ≠ 0 ∧ raw.data = .null <;>
            simp [Breaks, hnegative, hpos, hsizes, hentry, hdata, hnull, Nat.pos_iff_ne_zero]

/-- What is acceptable breaks no rule, and nothing else is. -/
theorem firstBroken?_eq_none_iff (raw : RawBatch) (h : Heap) :
    raw.firstBroken? h = none ↔ raw.Acceptable h := by
  unfold firstBroken?
  simp only [List.find?_eq_none, decide_eq_true_eq]
  constructor
  · intro hnone
    have hkept : ∀ r, ¬ raw.Breaks h r := fun r => hnone r r.mem_order
    by_cases hzero : raw.count = 0
    · exact .inl hzero
    · have hpos := (count_pos_iff raw).mpr ⟨hkept .negativeCount, hzero⟩
      have hsizes : raw.sizes ≠ .null := fun heq => hkept .missingSizes ⟨hpos, heq⟩
      refine .inr ⟨hpos, hsizes, fun i hi => ?_, ?_⟩
      · rw [← Int32.not_lt]
        exact fun hlt => hkept .negativeLength ⟨hpos, hsizes, i, hi, hlt⟩
      · by_contra hdata
        rw [not_or, not_ne_iff] at hdata
        exact hkept .missingData ⟨hpos, hsizes, hdata⟩
  · intro hacceptable r _ hbroken
    rcases hacceptable with hzero | ⟨hpos, hsizes, hentries, hdata⟩
    · cases r <;> simp [Breaks, hzero] at hbroken
    · cases r with
      | negativeCount => exact ((count_pos_iff raw).mp hpos).1 hbroken
      | missingSizes => exact hsizes hbroken.2
      | negativeLength =>
          obtain ⟨-, -, i, hi, hlt⟩ := hbroken
          exact Int32.not_lt.mpr (hentries i hi) hlt
      | missingData => exact hdata.elim hbroken.2.2.1 (fun hsome => hsome hbroken.2.2.2)

end RawBatch

namespace OwnedBatch

variable {raw : RawBatch} {b : OwnedBatch} {h : Heap}

theorem freesEach_freeRejected {table : Pointer}
    (hl : ∀ id ∈ table.block?.toList, (h.block? id).isSome) :
    h.FreesEach table.block?.toList (freeRejected table h) := by
  unfold freeRejected
  cases htable : table.block? with
  | none => exact .refl h
  | some id => exact Heap.freesEach_free _ (hl id (by simp [htable]))

/-- A rejected batch frees the data first. -/
theorem freesEach_reject (hl : ∀ id ∈ raw.blocks, (h.block? id).isSome)
    (hdistinct : raw.blocks.Nodup) :
    h.FreesEach raw.blocks (freeRejected raw.sizes (freeRejected raw.data h)) := by
  have hapart := (List.nodup_append.mp hdistinct).2.2
  have hdata : h.FreesEach raw.data.block?.toList (freeRejected raw.data h) :=
    freesEach_freeRejected fun id hid => hl id (List.mem_append_left _ hid)
  refine hdata.trans (freesEach_freeRejected fun id hid => ?_)
  exact hdata.live (fun hboth => hapart id hboth id hid rfl) (hl id (List.mem_append_right _ hid))

theorem freesEach_dropSizes (hl : ∀ id ∈ b.sizes?.toList, (h.block? id).isSome) :
    h.FreesEach b.sizes?.toList (b.dropSizes h) := by
  unfold dropSizes
  cases hsizes : b.sizes? with
  | none => exact .refl h
  | some id => exact Heap.freesEach_free _ (hl id (by simp [hsizes]))

/-- So does the owner of an accepted batch, after wiping them. -/
theorem freesEach_drop (hl : ∀ id ∈ b.blocks, (h.block? id).isSome)
    (hdistinct : b.blocks.Nodup) : h.FreesEach b.blocks (b.drop h) := by
  unfold drop blocks at *
  cases hdata : b.data? with
  | none => exact freesEach_dropSizes fun id hid => hl id (List.mem_append_right _ hid)
  | some id =>
      rw [hdata] at hl hdistinct
      have hrelease := Heap.freesEach_release b.total (b.secrecy = .secret) (hl id (by simp))
      refine hrelease.trans (freesEach_dropSizes fun j hj => ?_)
      have hapart := (List.nodup_append.mp hdistinct).2.2
      exact hrelease.live (fun hboth => hapart j hboth j hj rfl)
        (hl j (List.mem_append_right _ hj))

end OwnedBatch

namespace RawBatch

variable {raw : RawBatch} {h : Heap}

/-- What is presented leads to live blocks. -/
theorem Presented.live (hp : raw.Presented h) {id : BlockId} (hid : id ∈ raw.blocks) :
    (h.block? id).isSome := by
  have htable : ∀ {p : Pointer}, p.IsTable h → id ∈ p.block?.toList → (h.block? id).isSome := by
    rintro p (rfl | ⟨j, rfl, hlive⟩) hj
    · cases hj
    · rw [List.mem_singleton.mp hj]
      exact hlive
  rcases List.mem_append.mp hid with hdata | hsizes
  · exact htable hp.data hdata
  · exact htable hp.sizes hsizes

/-- The owner of an accepted batch shows the tables and the count that it was given. -/
theorem Presented.raw_adopt (hp : raw.Presented h) {owner : OwnedBatch} {h' : Heap}
    (ha : OwnedBatch.adopt raw h = (.ok owner, h')) : owner.raw = raw := by
  obtain ⟨-, hinspect, howner⟩ := OwnedBatch.adopt_eq ha
  have htable : ∀ {p : Pointer}, p.IsTable h → Pointer.ofBlock? p.block? = p := by
    rintro p (rfl | ⟨j, rfl, -⟩) <;> rfl
  have hcount : Int32.ofNat raw.length = raw.count := by
    have hnonneg : 0 ≤ raw.count := by
      rw [← Int32.not_lt]
      intro hnegative
      unfold OwnedBatch.inspect at hinspect
      rw [if_pos hnegative] at hinspect
      cases hinspect
    exact Int32.ofNat_toNatClampNeg raw.count hnonneg
  rw [howner]
  unfold OwnedBatch.raw
  rw [htable hp.data, htable hp.sizes, hcount]

end RawBatch

namespace Process

/-- A batch is rejected: its tables are freed, each once, and one warning names the rule. -/
structure RejectsBatch (p : Process) (raw : RawBatch) (r : Malformation) (q : Process) : Prop where
  freed : p.heap.FreesEach raw.blocks q.heap
  rest : q = { p.setHeap q.heap with notices := .malformedBatch raw.count r :: p.notices }
  warned : (Notice.malformedBatch raw.count r).level = .warn

/-- A batch is released: its tables are freed, each once, and nothing else happens. -/
structure ReleasesBatch (p : Process) (raw : RawBatch) (q : Process) : Prop where
  freed : p.heap.FreesEach raw.blocks q.heap
  rest : q = p.setHeap q.heap

/-- What happens to a batch from native code, in each of the ways to consume it. -/
structure ConsumesBatch (p : Process) (raw : RawBatch) : Prop where
  accepted : (∃ owner, (p.adoptBatch raw).1 = .ok owner) ↔ raw.Acceptable p.heap
  refused : ∀ fault, (p.adoptBatch raw).1 = .error fault ↔
    ∃ r, raw.firstBroken? p.heap = some r ∧ fault = r.fault
  /-- The text of the fault names the rule. -/
  named : ∀ r, (p.adoptBatch raw).1 = .error r.fault ↔ raw.firstBroken? p.heap = some r
  rejected : ∀ r, raw.firstBroken? p.heap = some r →
    p.RejectsBatch raw r (p.adoptBatch raw).2
  /-- An owner of the tables changes nothing until it is dropped. -/
  owned : ∀ owner, (p.adoptBatch raw).1 = .ok owner →
    (p.adoptBatch raw).2 = p ∧ owner.raw = raw ∧
      ∀ later : Heap, (∀ id ∈ raw.blocks, (later.block? id).isSome) →
        later.FreesEach raw.blocks (owner.drop later)
  copied : (∃ entries, (p.takeBatch raw).1 = .ok entries) ↔ raw.Acceptable p.heap
  uncopied : ∀ fault, (p.takeBatch raw).1 = .error fault ↔ (p.adoptBatch raw).1 = .error fault
  alike : (p.takeBatch raw).2 = p.discardBatch raw
  released : raw.Acceptable p.heap → p.ReleasesBatch raw (p.discardBatch raw)
  discarded : ∀ r, raw.firstBroken? p.heap = some r → p.RejectsBatch raw r (p.discardBatch raw)

variable {p : Process} {raw : RawBatch}

/-- A malformed batch comes to the same end in every way to consume it. -/
theorem consume_malformed {r : Malformation} (hinspect : OwnedBatch.inspect raw p.heap = .error r) :
    ∃ heap q, heap = OwnedBatch.freeRejected raw.sizes (OwnedBatch.freeRejected raw.data p.heap) ∧
      q = (p.setHeap heap).report (.malformedBatch raw.count r) ∧
      p.adoptBatch raw = (.error r.fault, q) ∧ p.takeBatch raw = (.error r.fault, q) ∧
        p.discardBatch raw = q := by
  refine ⟨_, _, rfl, rfl, ?_, ?_, ?_⟩
  · unfold adoptBatch OwnedBatch.adopt
    rw [hinspect]
  · unfold takeBatch RawBatch.take OwnedBatch.adopt
    rw [hinspect]
  · unfold discardBatch RawBatch.discard OwnedBatch.adopt
    rw [hinspect]

/-- A batch that is not malformed has an owner, and to copy it out or not to is all the same to its
tables. -/
theorem consume_wellFormed {total : Nat} (hinspect : OwnedBatch.inspect raw p.heap = .ok total) :
    ∃ owner, OwnedBatch.adopt raw p.heap = (.ok owner, p.heap) ∧
      p.adoptBatch raw = (.ok owner, p) ∧
      p.takeBatch raw = (.ok (owner.entries p.heap), p.setHeap (owner.drop p.heap)) ∧
        p.discardBatch raw = p.setHeap (owner.drop p.heap) := by
  obtain ⟨owner, hadopt⟩ : ∃ owner, OwnedBatch.adopt raw p.heap = (.ok owner, p.heap) := by
    unfold OwnedBatch.adopt
    rw [hinspect]
    exact ⟨_, rfl⟩
  refine ⟨owner, hadopt, ?_, ?_, ?_⟩
  · unfold adoptBatch
    rw [hadopt]
    exact congrArg _ p.setHeap_self
  · unfold takeBatch RawBatch.take
    rw [hadopt]
  · unfold discardBatch RawBatch.discard
    rw [hadopt]

/-- Whatever native code presents as a batch is accepted exactly when it is acceptable, otherwise
rejected for the first rule that it breaks, and in the end each of its tables is freed once. -/
theorem foreign_batch (hp : raw.Presented p.heap) : p.ConsumesBatch raw := by
  have hinspect := hp.inspect_eq
  have hdecided := raw.firstBroken?_eq_none_iff p.heap
  cases hfirst : raw.firstBroken? p.heap with
  | some r =>
      rw [hfirst] at hinspect hdecided
      have hunacceptable : ¬ raw.Acceptable p.heap := fun hok => nomatch hdecided.mpr hok
      have hfreed := OwnedBatch.freesEach_reject (fun id hid => hp.live hid) hp.distinct
      obtain ⟨heap, q, rfl, hq, hadopt, htake, hdiscard⟩ := consume_malformed hinspect
      have hrejects : p.RejectsBatch raw r q := by
        rw [hq]
        exact ⟨hfreed, rfl, rfl⟩
      constructor
      case accepted => simp [hadopt, hunacceptable]
      case refused => simp [hadopt, hfirst, eq_comm]
      case named =>
        intro other
        rw [hadopt, hfirst, Except.error.injEq, Option.some_inj]
        exact ⟨Malformation.fault_injective, congrArg _⟩
      case rejected => simp [hadopt, hfirst, hrejects]
      case owned => simp [hadopt]
      case copied => simp [htake, hunacceptable]
      case uncopied => simp [hadopt, htake]
      case alike => rw [htake, hdiscard]
      case released => exact fun hok => absurd hok hunacceptable
      case discarded => simp [hdiscard, hfirst, hrejects]
  | none =>
      rw [hfirst] at hinspect
      have hacceptable := hdecided.mp hfirst
      obtain ⟨owner, howner, hadopt, htake, hdiscard⟩ := consume_wellFormed hinspect
      obtain ⟨-, hblocks⟩ := OwnedBatch.adopt_ok howner
      have hdrop : ∀ later : Heap, (∀ id ∈ raw.blocks, (later.block? id).isSome) →
          later.FreesEach raw.blocks (owner.drop later) := by
        intro later hlive
        rw [← hblocks] at hlive ⊢
        exact OwnedBatch.freesEach_drop hlive (hblocks ▸ hp.distinct)
      constructor
      case accepted => simp [hadopt, hacceptable]
      case refused => simp [hadopt, hfirst]
      case named => simp [hadopt, hfirst]
      case rejected => simp [hfirst]
      case owned =>
        intro other hother
        rw [hadopt] at hother ⊢
        cases hother
        exact ⟨rfl, hp.raw_adopt howner, hdrop⟩
      case copied => simp [htake, hacceptable]
      case uncopied => simp [hadopt, htake]
      case alike => rw [htake, hdiscard]
      case released =>
        intro _
        rw [hdiscard]
        exact ⟨hdrop p.heap fun id hid => hp.live hid, rfl⟩
      case discarded => simp [hfirst]

theorem foreign_batch_misshapen :
    RawBatch.misshapen.Presented RawBatch.misshapenHeap ∧
      RawBatch.misshapen.firstBroken? RawBatch.misshapenHeap = some .negativeLength ∧
      ({ memory := { heap := RawBatch.misshapenHeap } } : Process).ConsumesBatch
        RawBatch.misshapen := by
  have hpresented : RawBatch.misshapen.Presented RawBatch.misshapenHeap := by
    constructor
    case data => exact .inr ⟨0, rfl, by decide⟩
    case sizes => exact .inr ⟨1, rfl, by decide⟩
    case distinct => decide
    case room =>
      intro id hid b hb
      cases hid
      cases hb
      decide
  exact ⟨hpresented, by decide, foreign_batch (by exact hpresented)⟩

end Process

end NativeBoundary

import NativeBoundary.Proofs.Memory.Owners

/-!
# What is freed, and in what state

The trace of the heap keeps, for every block that was freed, what the block held at that moment.
`Heap.Frees` says of a stretch of work that everything it freed was in a certain state, and
`Memory.Sheds` says it of the work that gives memory back: whatever is freed was the data of one
of the named owners, wiped as far as the owner goes unless it is spared, or the region of a pool,
wiped throughout, or one of the named size tables.  Nothing is allocated on the way, so the sizes of
blocks and the shapes of pools stay what they were.

Every release site is listed here once:

* `Memory.sheds_dropBuffer`, `Memory.sheds_dropBatch` — owned buffers and batches;
* `Memory.sheds_dropPool`, `Memory.sheds_releaseBlock` — pools and their blocks;
* `Memory.sheds_endScope` — scopes.

Work that makes something frees at most a size table that it has made itself: `Memory.Makes`.
-/

namespace NativeBoundary

/-- The first `n` bytes of a block are zero. -/
def Block.Clear (b : Block) (n : Nat) : Prop := ∀ i, i < n → b.byteAt i = 0

theorem Block.clear_wipe (b : Block) (n : Nat) : (b.wipe 0 n).Clear n := by
  intro i hi
  rw [byteAt_wipe, if_pos ⟨Nat.zero_le i, by omega⟩]

namespace Heap

variable {h h' h'' : Heap} {P Q : BlockId → Block → Holding → Prop}

/-- Whatever was freed between two heaps was freed as `P` says. -/
def Frees (h h' : Heap) (P : BlockId → Block → Holding → Prop) : Prop :=
  ∃ events, h'.trace = events ++ h.trace ∧
    ∀ id last holding, HeapEvent.freed id last holding ∈ events → P id last holding

theorem Frees.of_trace (ht : h'.trace = h.trace) : h.Frees h' P :=
  ⟨[], ht, fun _ _ _ hm => by cases hm⟩

theorem Frees.mono (hf : h.Frees h' P) (hi : ∀ {id last holding}, P id last holding →
    Q id last holding) : h.Frees h' Q := by
  obtain ⟨events, ht, hall⟩ := hf
  exact ⟨events, ht, fun id last holding hm => hi (hall id last holding hm)⟩

theorem Frees.trans (first : h.Frees h' P) (second : h'.Frees h'' P) : h.Frees h'' P := by
  obtain ⟨events, ht, hall⟩ := first
  obtain ⟨events', ht', hall'⟩ := second
  refine ⟨events' ++ events, by rw [ht', ht, List.append_assoc], fun id last holding hm => ?_⟩
  rcases List.mem_append.mp hm with hm | hm
  · exact hall' id last holding hm
  · exact hall id last holding hm

/-- A request frees nothing. -/
theorem frees_request {content : Block} {answer : Option BlockId}
    (hr : h.request content = (answer, h')) : h.Frees h' P := by
  cases answer with
  | none => exact ⟨[_], (request_refused hr).2, fun _ _ _ hm => by simp at hm⟩
  | some id => exact ⟨[_], (request_granted hr).2.2, fun _ _ _ hm => by simp at hm⟩

/-- A free is recorded with what the block held. -/
theorem frees_free (id : BlockId) (holding : Holding)
    (hP : ∀ last, h.block? id = some last → P id last holding) :
    h.Frees (h.free id holding) P := by
  cases hb : h.block? id with
  | none =>
      refine ⟨[.misfreed id], trace_free_of_dead holding hb, fun _ _ _ hm => ?_⟩
      simp at hm
  | some last =>
      refine ⟨[.freed id last holding], trace_free_of_live holding hb, fun _ _ _ hm => ?_⟩
      cases List.mem_singleton.mp hm
      exact hP last hb

/-- Work that only writes and frees: sizes stay what they were. -/
structure Sheds (h h' : Heap) (P : BlockId → Block → Holding → Prop) : Prop where
  frees : h.Frees h' fun id last holding => h.size? id = some last.size ∧ P id last holding
  sizes : ∀ id, h'.size? id = h.size? id ∨ h'.size? id = none

theorem Sheds.refl (h : Heap) : h.Sheds h P := ⟨.of_trace rfl, fun _ => .inl rfl⟩

theorem Sheds.trans (first : h.Sheds h' P) (second : h'.Sheds h'' P) : h.Sheds h'' P where
  frees := by
    refine first.frees.trans (second.frees.mono fun {id last _} ⟨hsize, hP⟩ => ⟨?_, hP⟩)
    rcases first.sizes id with hs | hs
    · rw [← hs, hsize]
    · rw [hs] at hsize
      cases hsize
  sizes := by
    intro id
    rcases second.sizes id with hs | hs
    · rw [hs]
      exact first.sizes id
    · exact .inr hs

theorem Sheds.mono (hs : h.Sheds h' P)
    (hi : ∀ {id last holding}, P id last holding → Q id last holding) : h.Sheds h' Q :=
  ⟨hs.frees.mono fun ⟨hsize, hP⟩ => ⟨hsize, hi hP⟩, hs.sizes⟩

theorem sheds_wipe (h : Heap) (id : BlockId) (offset n : Nat) :
    h.Sheds (h.wipe id offset n) P :=
  ⟨.of_trace rfl, fun j => .inl (size?_wipe h id j offset n)⟩

theorem Sheds.noteReturned (hs : h.Sheds h' P) (region : BlockId) (index : Nat) :
    h.Sheds (h'.noteReturned region index) P :=
  ⟨hs.frees, hs.sizes⟩

theorem sheds_free (id : BlockId) (holding : Holding)
    (hP : ∀ last, h.block? id = some last → P id last holding) :
    h.Sheds (h.free id holding) P where
  frees := by
    refine frees_free id holding fun last hb => ⟨?_, hP last hb⟩
    rw [size?, hb]
    rfl
  sizes := by
    intro j
    rw [size?_free]
    split
    · exact .inr rfl
    · exact .inl rfl

/-- A released block is clear as far as its owner goes, when it has to be. -/
theorem sheds_release (id : BlockId) (length : Nat) (wiped : Bool)
    (hP : ∀ last, (wiped = true → last.Clear length) → P id last (.payload length wiped)) :
    h.Sheds (h.release id length wiped) P := by
  cases wiped with
  | false => exact sheds_free id _ fun last _ => hP last fun hw => by cases hw
  | true =>
      refine (sheds_wipe h id 0 length).trans (sheds_free id _ fun last hlast => ?_)
      refine hP last fun _ => ?_
      rw [wipe, block?_update, if_pos rfl] at hlast
      obtain ⟨before, -, rfl⟩ := Option.map_eq_some_iff.mp hlast
      exact before.clear_wipe length

end Heap

namespace Memory

variable {m m' m'' : Memory} {owners owners' : List Owner} {tables tables' : List BlockId}

/-- How a block may be freed: as the data of an owner, as the region of a pool, or as a size
table. -/
def Discharges (m : Memory) (owners : List Owner) (tables : List BlockId) (id : BlockId)
    (last : Block) (holding : Holding) : Prop :=
  (∃ o ∈ owners, o.data = id ∧ (o.spared = false → last.Clear o.length)) ∨
  (∃ p, m.pool? id = some p ∧ last.Clear (p.count * p.blockSize)) ∨
  (holding = .sizeTable ∧ id ∈ tables)

/-- Work that gives memory back. -/
structure Sheds (m : Memory) (owners : List Owner) (tables : List BlockId) (m' : Memory) :
    Prop where
  heap : m.heap.Sheds m'.heap (m.Discharges owners tables)
  shape : ∀ {id p'}, m'.pool? id = some p' →
    ∃ p, m.pool? id = some p ∧ p'.count = p.count ∧ p'.blockSize = p.blockSize

theorem Sheds.refl (m : Memory) : m.Sheds [] [] m := ⟨.refl _, fun hp => ⟨_, hp, rfl, rfl⟩⟩

theorem Sheds.trans (first : m.Sheds owners tables m') (second : m'.Sheds owners' tables' m'') :
    m.Sheds (owners ++ owners') (tables ++ tables') m'' where
  heap := by
    refine (first.heap.mono ?_).trans (second.heap.mono ?_)
    · rintro id last holding (⟨o, ho, hwiped⟩ | hregion | ⟨htable, hid⟩)
      · exact .inl ⟨o, List.mem_append_left _ ho, hwiped⟩
      · exact .inr (.inl hregion)
      · exact .inr (.inr ⟨htable, List.mem_append_left _ hid⟩)
    · rintro id last holding (⟨o, ho, hwiped⟩ | ⟨p', hp', hclear⟩ | ⟨htable, hid⟩)
      · exact .inl ⟨o, List.mem_append_right _ ho, hwiped⟩
      · obtain ⟨p, hp, hcount, hsize⟩ := first.shape hp'
        exact .inr (.inl ⟨p, hp, by rw [← hcount, ← hsize]; exact hclear⟩)
      · exact .inr (.inr ⟨htable, List.mem_append_right _ hid⟩)
  shape := by
    intro id p'' hp''
    obtain ⟨p', hp', hcount', hsize'⟩ := second.shape hp''
    obtain ⟨p, hp, hcount, hsize⟩ := first.shape hp'
    exact ⟨p, hp, hcount'.trans hcount, hsize'.trans hsize⟩

/-- Work on the heap alone. -/
theorem sheds_of_heap {h' : Heap} (hs : m.heap.Sheds h' (m.Discharges owners tables)) :
    m.Sheds owners tables { m with heap := h' } :=
  ⟨hs, fun hp => ⟨_, hp, rfl, rfl⟩⟩

theorem sheds_dropBuffer (m : Memory) (b : OwnedBuffer) :
    m.Sheds b.owners [] { m with heap := b.drop m.heap } := by
  refine sheds_of_heap ?_
  unfold OwnedBuffer.drop
  cases hb : b.block? with
  | none => exact .refl _
  | some id =>
      refine Heap.sheds_release id b.length b.mustWipe fun last hclear => .inl ?_
      refine ⟨_, List.mem_map.mpr ⟨id, by simp [hb], rfl⟩, rfl, fun hspared => hclear ?_⟩
      have hnot : ¬ b.mustWipe = false := fun hw =>
        of_decide_eq_false hspared ((b.secrecy.mustWipe_eq_false_iff b.wipePublic).mp hw)
      exact eq_true_of_ne_false hnot

theorem sheds_dropSizes (m : Memory) (b : OwnedBatch) :
    m.Sheds [] b.sizes?.toList { m with heap := b.dropSizes m.heap } := by
  refine sheds_of_heap ?_
  unfold OwnedBatch.dropSizes
  cases ht : b.sizes? with
  | none => exact .refl _
  | some id => exact Heap.sheds_free id _ fun _ _ => .inr (.inr ⟨rfl, by simp⟩)

theorem sheds_dropBatch (m : Memory) (b : OwnedBatch) :
    m.Sheds b.owners b.sizes?.toList { m with heap := b.drop m.heap } := by
  unfold OwnedBatch.drop
  cases hd : b.data? with
  | none =>
      have hnone : b.owners = [] := by simp [OwnedBatch.owners, hd]
      rw [hnone]
      exact sheds_dropSizes m b
  | some id =>
      have hdata : m.Sheds b.owners []
          { m with heap := m.heap.release id b.total (b.secrecy = .secret) } := by
        refine sheds_of_heap (Heap.sheds_release id b.total _ fun last hclear => .inl ?_)
        refine ⟨_, List.mem_map.mpr ⟨id, by simp [hd], rfl⟩, rfl, fun hspared => hclear ?_⟩
        have hnot : b.secrecy ≠ .exposed := of_decide_eq_false hspared
        cases hs : b.secrecy with
        | secret => rfl
        | exposed => exact absurd hs hnot
      have hall := hdata.trans (sheds_dropSizes _ b)
      rw [List.append_nil, List.nil_append] at hall
      exact hall

/-- A new record for a pool that keeps its shape. -/
theorem sheds_record {id : PoolId} {p p' : Pool} {h' : Heap} (hp : m.pool? id = some p)
    (hheap : m.heap.Sheds h' (m.Discharges owners tables))
    (hshape : p'.count = p.count ∧ p'.blockSize = p.blockSize) :
    m.Sheds owners tables { heap := h', pools := m.pools.insert id p' } := by
  refine ⟨hheap, fun {j q} hq => ?_⟩
  have hinsert : (m.pools.insert id p').get? j = some q := hq
  rw [Table.get?_insert] at hinsert
  split at hinsert
  · rename_i hj
    cases hinsert
    exact ⟨p, hj ▸ hp, hshape⟩
  · exact ⟨q, hinsert, rfl, rfl⟩

/-- The region of a pool that loses its last user is wiped throughout. -/
theorem sheds_dropPool (m : Memory) (id : PoolId) : m.Sheds [] [] (m.dropPool id) := by
  unfold dropPool
  split
  · exact .refl m
  · rename_i p hp
    split
    · refine ⟨Heap.sheds_release id _ true fun last hclear => .inr (.inl ⟨p, hp, hclear rfl⟩),
        fun {j p'} hp' => ⟨p', ?_, rfl, rfl⟩⟩
      have herase : (m.pools.erase id).get? j = some p' := hp'
      rw [Table.get?_erase] at herase
      split at herase
      · cases herase
      · exact herase
    · exact sheds_record hp (.refl _) ⟨rfl, rfl⟩

theorem sheds_releaseBlock (m : Memory) (b : PoolBlock) : m.Sheds [] [] (m.releaseBlock b) := by
  unfold releaseBlock
  split
  · exact .refl m
  · rename_i p hp
    have hheap : m.heap.Sheds (m.takeBack p b).heap (m.Discharges [] []) :=
      (Heap.sheds_wipe _ _ _ _).noteReturned b.pool b.index
    have hback : m.Sheds [] [] (m.takeBack p b) := sheds_record hp hheap ⟨rfl, rfl⟩
    exact hback.trans (sheds_dropPool _ b.pool)

theorem sheds_releaseCopy (m : Memory) (copy : ScopeCopy) :
    m.Sheds copy.owners copy.tables (m.releaseCopy copy) := by
  cases copy with
  | pooled b => exact sheds_releaseBlock m b
  | heap b => exact sheds_dropBuffer m b
  | batch b => exact sheds_dropBatch m b

theorem sheds_releaseCopies (m : Memory) (copies : List ScopeCopy) :
    m.Sheds (copies.flatMap ScopeCopy.owners) (copies.flatMap ScopeCopy.tables)
      (m.releaseCopies copies) := by
  induction copies generalizing m with
  | nil => exact .refl m
  | cons copy copies ih => exact (sheds_releaseCopy m copy).trans (ih (m.releaseCopy copy))

theorem sheds_endScope (m : Memory) (s : Scope) :
    m.Sheds (s.copies.flatMap ScopeCopy.owners) (s.copies.flatMap ScopeCopy.tables)
      (m.endScope s) := by
  have hcopies := sheds_releaseCopies m s.copies
  unfold endScope
  split
  · exact hcopies
  · rename_i id _
    have hall := hcopies.trans (sheds_dropPool _ id)
    rw [List.append_nil, List.append_nil] at hall
    exact hall

/-- Work that frees at most what it has made itself, and that a size table. -/
def Makes (h h' : Heap) : Prop :=
  h.Frees h' fun id _ holding => holding = .sizeTable ∧ h.next ≤ id

section

variable {h h' : Heap}

theorem Makes.trans {h'' : Heap} (first : Makes h h') (hnext : h.next ≤ h'.next)
    (second : Makes h' h'') : Makes h h'' :=
  Heap.Frees.trans first (second.mono fun ⟨htable, hid⟩ => ⟨htable, Nat.le_trans hnext hid⟩)

theorem makes_copyBuffer (h : Heap) (bytes : Bytes) (secrecy : Secrecy) :
    Makes h (OwnedBuffer.copyFrom bytes secrecy h).2 := by
  rcases hc : OwnedBuffer.copyFrom bytes secrecy h with ⟨fault | b, h'⟩
  · cases OwnedBuffer.refusal_of_copyFrom hc with
    | oversized hlong => exact .of_trace rfl
    | noMemory hsome hfits hblock => exact Heap.frees_request hblock
  · cases OwnedBuffer.copying_of_copyFrom hc with
    | empty hnone => exact .of_trace rfl
    | block hsome hfits hblock => exact (Heap.frees_request hblock).trans (.of_trace rfl)

/-- A batch for which there is not enough memory gives back its size table. -/
theorem makes_copyBatch (h : Heap) (items : List Bytes) (secrecy : Secrecy) :
    Makes h (OwnedBatch.copyFrom items secrecy h).2 := by
  rcases hc : OwnedBatch.copyFrom items secrecy h with ⟨fault | b, h'⟩
  · cases OwnedBatch.refusal_of_copyFrom hc with
    | oversized hmeasure => exact .of_trace rfl
    | noSizes reason hsizes => exact Heap.frees_request hsizes
    | @noData total sizes middle refused reason hsizes hdata =>
        refine ((Heap.frees_request hsizes).trans (Heap.frees_request hdata)).trans
          (Heap.frees_free sizes .sizeTable fun _ _ => ⟨rfl, ?_⟩)
        exact Nat.le_of_eq (Heap.request_granted hsizes).1.symm
  · cases OwnedBatch.copying_of_copyFrom hc with
    | empty hnone => exact .of_trace rfl
    | lengths hsome hzero hmeasure hsizes =>
        exact (Heap.frees_request hsizes).trans (.of_trace rfl)
    | full hsome hpos hmeasure hsizes hdata =>
        exact ((Heap.frees_request hsizes).trans (Heap.frees_request hdata)).trans (.of_trace rfl)

theorem makes_allocate (bytes : Bytes) : Makes h (RawBuffer.allocate bytes h).2 := by
  have hcopied := makes_copyBuffer h bytes .secret
  unfold RawBuffer.allocate
  split <;> rename_i hcopy <;> rw [hcopy] at hcopied <;> exact hcopied

theorem makes_nativeTable (content? : Option Bytes) : Makes h (nativeTable h content?).2 := by
  unfold nativeTable
  cases content? with
  | none => exact .of_trace rfl
  | some content =>
      simp only
      cases hr : h.request ⟨content.length, content⟩ with
      | mk id? h' => exact Heap.frees_request hr

theorem next_nativeTable (h : Heap) (content? : Option Bytes) :
    h.next ≤ (nativeTable h content?).2.next := by
  unfold nativeTable
  cases content? with
  | none => exact Nat.le_refl _
  | some content =>
      simp only
      cases hr : h.request ⟨content.length, content⟩ with
      | mk id? h' =>
          cases id? with
          | none => exact Nat.le_of_eq (Heap.request_refused hr).1.symm
          | some id =>
              rw [(Heap.request_granted hr).2.1]
              exact Nat.le_succ _

theorem makes_createPool (m : Memory) (count blockSize : Nat) :
    Makes m.heap (m.createPool count blockSize).2.heap := by
  unfold createPool
  split
  · split
    · rename_i h' hr
      exact Heap.frees_request hr
    · rename_i id h' hr
      exact Heap.frees_request hr
  · exact .of_trace rfl

end

theorem makes_writeBlock (m : Memory) (b : PoolBlock) (data : Bytes) :
    Makes m.heap (m.writeBlock b data).2.heap := by
  unfold writeBlock
  split
  · exact .of_trace rfl
  · split
    · exact .of_trace rfl
    · exact .of_trace rfl

theorem heap_acquire (m : Memory) (id : PoolId) : (m.acquire id).2.heap = m.heap := by
  unfold acquire
  repeat' split
  all_goals rfl

theorem makes_acquire (m : Memory) (id : PoolId) : Makes m.heap (m.acquire id).2.heap :=
  .of_trace (congrArg Heap.trace (heap_acquire m id))

theorem makes_acquireWith (m : Memory) (id : PoolId) (data : Bytes) :
    Makes m.heap (m.acquireWith id data).2.heap := by
  unfold acquireWith
  split
  · exact .of_trace rfl
  · split
    · exact .of_trace rfl
    · split
      · rename_i m' hacquire
        have hheap := heap_acquire m id
        rw [hacquire] at hheap
        exact .of_trace (congrArg Heap.trace hheap)
      · rename_i b m' hacquire
        have hheap := heap_acquire m id
        rw [hacquire] at hheap
        change m'.heap = m.heap at hheap
        rw [← hheap]
        exact makes_writeBlock m' b data

theorem makes_inputBlock (m : Memory) (s : Scope) (bytes : Bytes) :
    Makes m.heap (m.inputBlock s bytes).2.heap := by
  unfold inputBlock
  split
  · exact .of_trace rfl
  · exact makes_acquireWith m _ bytes

theorem makes_input (m : Memory) (s : Scope) (bytes : Bytes) (secrecy : Secrecy) :
    Makes m.heap (m.input s bytes secrecy).2.2.heap := by
  rcases hc : m.input s bytes secrecy with ⟨result, s', m'⟩
  have hcopied := makes_copyBuffer m.heap bytes secrecy
  have hblock := makes_inputBlock m s bytes
  rcases input_cases hc with ⟨-, rfl⟩ | ⟨fault, h', hcopy, -, rfl⟩ | ⟨b, hpool, -⟩ |
    ⟨b, h', hcopy, -, rfl⟩
  · exact .of_trace rfl
  · rw [hcopy] at hcopied
    exact hcopied
  · rw [hpool] at hblock
    exact hblock
  · rw [hcopy] at hcopied
    exact hcopied

theorem makes_inputBatch (m : Memory) (s : Scope) (items : List Bytes) :
    Makes m.heap (m.inputBatch s items).2.2.heap := by
  rcases hc : m.inputBatch s items with ⟨result, s', m'⟩
  have hcopied := makes_copyBatch m.heap items .secret
  rcases inputBatch_cases hc with ⟨fault, h', hcopy, -, rfl⟩ | ⟨b, h', hcopy, -, rfl⟩ <;>
    rw [hcopy] at hcopied <;> exact hcopied

end Memory

end NativeBoundary

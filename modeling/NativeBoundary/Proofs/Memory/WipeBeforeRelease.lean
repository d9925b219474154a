import NativeBoundary.Proofs.Memory.Faithful

/-!
# Wiped before it is freed

Data leave native memory clean.  Whenever a data block is freed, in whatever run, the bytes that
its owner describes are zero at that moment, unless the owner is a public buffer or a public batch
that may be spared.  A block that was allocated for a secret is zero over its whole size, whatever
hands it went through in between; a block that native code has held is wiped even if it was public
before.

The one condition is on native code: batches that it hands in are well formed.  A malformed batch
is rejected, and what happens to its tables is not the subject of this file.

* `Memory.Operation.frees` — what a single operation frees, and in what state;
* `Ledger.wiped_before_release` — the statement about whole runs.
-/

namespace NativeBoundary

namespace Memory

variable {m m' : Memory} {owners : List Owner} {tables : List BlockId}

/-- How an operation on some holders may free a block: as the data of an owner among them, or of
a pool, wiped unless it is spared; or as a size table, theirs or a new one. -/
def Proper (m : Memory) (concerned : List Holder) (id : BlockId) (last : Block)
    (holding : Holding) : Prop :=
  (m.heap.size? id = some last.size ∧
    ∃ o, m.Owns concerned o ∧ o.data = id ∧ (o.spared = false → last.Clear o.length)) ∨
  (holding = .sizeTable ∧ ((∃ x ∈ concerned, id ∈ x.tables) ∨ m.heap.next ≤ id))

/-- Work that gives back what one holder owns. -/
theorem proper_of_sheds {concerned : List Holder} (hs : m.Sheds owners tables m')
    (howners : ∀ o ∈ owners, ∃ x ∈ concerned, o ∈ x.owners m.heap)
    (htables : ∀ id ∈ tables, ∃ x ∈ concerned, id ∈ x.tables) :
    m.heap.Frees m'.heap (m.Proper concerned) := by
  refine hs.heap.frees.mono ?_
  rintro id last holding ⟨hsize, ⟨o, ho, hdata, hclear⟩ | ⟨p, hp, hclear⟩ | ⟨htable, hid⟩⟩
  · exact .inl ⟨hsize, o, .inl (howners o ho), hdata, hclear⟩
  · exact .inl ⟨hsize, ⟨id, p.count * p.blockSize, false⟩, .inr ⟨p, hp, rfl⟩, rfl,
      fun _ => hclear⟩
  · exact .inr ⟨htable, .inl (htables id hid)⟩

/-- Work that makes something. -/
theorem proper_of_makes {concerned : List Holder} {h' : Heap} (hm : Makes m.heap h') :
    m.heap.Frees h' (m.Proper concerned) :=
  hm.mono fun ⟨htable, hid⟩ => .inr ⟨htable, .inr hid⟩

/-- A batch that is accepted is freed like one that the host has made. -/
theorem proper_discardBatch (m : Memory) {raw : RawBatch} {total : Nat}
    (haccept : OwnedBatch.inspect raw m.heap = .ok total) :
    m.heap.Frees (raw.discard m.heap).2 (m.Proper [.rawBatch raw]) := by
  cases hadopt : OwnedBatch.adopt raw m.heap with
  | mk result h =>
      cases result with
      | error reason =>
          have herror := (OwnedBatch.adopt_error hadopt).1
          rw [haccept] at herror
          cases herror
      | ok b =>
          obtain ⟨rfl, -, hb⟩ := OwnedBatch.adopt_eq hadopt
          have hdrop : (raw.discard m.heap).2 = b.drop m.heap := by
            unfold RawBatch.discard
            rw [hadopt]
          rw [hdrop]
          refine proper_of_sheds (sheds_dropBatch m b)
            (fun o ho => ⟨_, List.mem_singleton.mpr rfl, ?_⟩)
            fun id hid => ⟨_, List.mem_singleton.mpr rfl, ?_⟩
          · simp only [Holder.owners, hadopt]
            exact ho
          · rw [hb] at hid
            exact hid

/-- The batch that an operation takes over from native code. -/
def Operation.handsIn? : Operation → Option RawBatch
  | adoptBatch raw | takeBatch raw | discardBatch raw => some raw
  | _ => none

/-- Whatever an operation frees, it frees properly. -/
theorem Operation.frees (p : Process) (op : Operation)
    (haccept : ∀ raw, op.handsIn? = some raw →
      ∃ total, OwnedBatch.inspect raw p.heap = .ok total) :
    p.heap.Frees (op.effect p).process.heap (p.memory.Proper op.owner?.toList) := by
  have hself : ∀ {x : Holder} {os : List Owner}, os = x.owners p.heap →
      ∀ o ∈ os, ∃ y ∈ [x], o ∈ y.owners p.memory.heap :=
    fun heq o ho => ⟨_, List.mem_singleton.mpr rfl, heq ▸ ho⟩
  have htables : ∀ {x : Holder} {ids : List BlockId}, ids = x.tables →
      ∀ id ∈ ids, ∃ y ∈ [x], id ∈ y.tables :=
    fun heq id hid => ⟨_, List.mem_singleton.mpr rfl, heq ▸ hid⟩
  cases op with
  | copyBuffer bytes secrecy =>
      have hmakes := makes_copyBuffer p.memory.heap bytes secrecy
      simp only [effect]
      split <;> rename_i hcopy <;> rw [show p.memory.heap = p.heap from rfl, hcopy] at hmakes <;>
        exact proper_of_makes hmakes
  | dropBuffer b =>
      exact proper_of_sheds (sheds_dropBuffer p.memory b) (hself rfl) (htables rfl)
  | allocate bytes => exact proper_of_makes (makes_allocate bytes)
  | takeBuffer raw =>
      simp only [effect, RawBuffer.take]
      split
      · exact .of_trace rfl
      · exact proper_of_sheds (sheds_dropBuffer p.memory (.adopt raw)) (hself rfl) (htables rfl)
  | discardBuffer raw =>
      exact proper_of_sheds (sheds_dropBuffer p.memory (.adopt raw)) (hself rfl) (htables rfl)
  | copyBatch items secrecy =>
      have hmakes := makes_copyBatch p.memory.heap items secrecy
      simp only [effect]
      split <;> rename_i hcopy <;> rw [show p.memory.heap = p.heap from rfl, hcopy] at hmakes <;>
        exact proper_of_makes hmakes
  | dropBatch b =>
      exact proper_of_sheds (sheds_dropBatch p.memory b) (hself rfl) (htables rfl)
  | adoptBatch raw =>
      obtain ⟨total, hinspect⟩ := haccept raw rfl
      simp only [effect, Process.adoptBatch, OwnedBatch.adopt, hinspect]
      exact .of_trace rfl
  | takeBatch raw =>
      obtain ⟨total, hinspect⟩ := haccept raw rfl
      simp only [effect, Process.heap, memory_takeBatch, heap_take_eq_discard]
      exact proper_discardBatch p.memory hinspect
  | discardBatch raw =>
      obtain ⟨total, hinspect⟩ := haccept raw rfl
      simp only [effect, Process.heap, memory_discardBatch]
      exact proper_discardBatch p.memory hinspect
  | createPool count blockSize =>
      have hmakes := makes_createPool p.memory count blockSize
      simp only [effect]
      split <;> rename_i hcreate <;> rw [hcreate] at hmakes <;> exact proper_of_makes hmakes
  | dropPool id =>
      exact proper_of_sheds (sheds_dropPool p.memory id) (fun _ ho => by cases ho)
        fun _ hid => by cases hid
  | acquire id =>
      have hmakes := makes_acquire p.memory id
      simp only [effect]
      split <;> rename_i hacquire <;> rw [hacquire] at hmakes <;> exact proper_of_makes hmakes
  | acquireWith id data =>
      have hmakes := makes_acquireWith p.memory id data
      simp only [effect]
      split <;> rename_i hacquire <;> rw [hacquire] at hmakes <;> exact proper_of_makes hmakes
  | writeBlock b data =>
      have hmakes := makes_writeBlock p.memory b data
      simp only [effect]
      split <;> rename_i hwrite <;> rw [hwrite] at hmakes <;> exact proper_of_makes hmakes
  | dropBlock b =>
      exact proper_of_sheds (sheds_releaseBlock p.memory b) (fun _ ho => by cases ho)
        fun _ hid => by cases hid
  | openScope strategy pool? wipePublic => cases pool? <;> exact .of_trace rfl
  | input s bytes secrecy => exact proper_of_makes (makes_input p.memory s bytes secrecy)
  | inputBatch s items => exact proper_of_makes (makes_inputBatch p.memory s items)
  | endScope s => exact proper_of_sheds (sheds_endScope p.memory s) (hself rfl) (htables rfl)
  | nativeBuffer content size =>
      exact proper_of_makes (makes_nativeTable (h := p.memory.heap) (some content))
  | nativeBatch data sizes count =>
      have hdata : Makes p.memory.heap (nativeTable p.memory.heap data).2 := makes_nativeTable data
      exact proper_of_makes (hdata.trans (next_nativeTable _ data) (makes_nativeTable sizes))
  | nativeWrite x offset data =>
      refine .of_trace ?_
      simp only [effect, Process.setHeap, Memory.nativeWrite]
      repeat' split
      all_goals rfl
  | refuse _ | flagBuffer _ _ | handBuffer _ | adoptBuffer _ | handBatch _ | sharePool _ =>
      exact .of_trace rfl

end Memory

section

variable {h : Heap} {secrets crossed : List BlockId} {o : Owner}

/-- What the marks of a block say about its owner. -/
def Owner.Keeps (h : Heap) (secrets crossed : List BlockId) (o : Owner) : Prop :=
  (o.data ∈ secrets → o.spared = false ∧ h.size? o.data = some o.length) ∧
    (o.data ∈ crossed → o.spared = false)

theorem OwnedBuffer.Faithful.keeps {b : OwnedBuffer} (hb : b.Faithful h secrets crossed)
    (ho : o ∈ b.owners) : o.Keeps h secrets crossed := by
  obtain ⟨id, hid, rfl⟩ := List.mem_map.mp ho
  obtain ⟨hsecret, hback⟩ := hb id (Option.mem_toList.mp hid)
  refine ⟨fun hs => ?_, fun hc => ?_⟩
  · obtain ⟨hsecrecy, hsize, -⟩ := hsecret hs
    exact ⟨by simp [hsecrecy], hsize⟩
  · simp [hback hc]

theorem OwnedBatch.Faithful.keeps {b : OwnedBatch} (hb : b.Faithful h secrets crossed)
    (ho : o ∈ b.owners) : o.Keeps h secrets crossed := by
  obtain ⟨id, hid, rfl⟩ := List.mem_map.mp ho
  have hdata := Option.mem_toList.mp hid
  obtain ⟨hsecret, hback⟩ := hb id hdata
  refine ⟨fun hs => ?_, fun hc => ?_⟩
  · obtain ⟨hsecrecy, hdescribes⟩ := hsecret hs
    exact ⟨by simp [hsecrecy], hdescribes.size id hdata⟩
  · simp [hback hc]

/-- The owner of a block that was allocated for a secret covers the whole block, and neither such
a block nor one that native code has held is spared. -/
theorem Holder.Faithful.keeps {x : Holder} (hx : x.Faithful h secrets crossed)
    (ho : o ∈ x.owners h) : o.Keeps h secrets crossed := by
  have hdata := hx.data
  cases x with
  | buffer b => exact OwnedBuffer.Faithful.keeps hdata ho
  | batch b => exact OwnedBatch.Faithful.keeps hdata ho
  | scope s =>
      obtain ⟨copy, hcopy, ho⟩ := List.mem_flatMap.mp ho
      have hcopied := hdata copy hcopy
      cases copy with
      | pooled b => cases ho
      | heap b => exact OwnedBuffer.Faithful.keeps hcopied ho
      | batch b => exact OwnedBatch.Faithful.keeps hcopied ho
  | rawBuffer raw =>
      obtain ⟨id, hid, rfl⟩ := List.mem_map.mp ho
      rw [OwnedBuffer.block?_adopt, Option.mem_toList] at hid
      have hadopt : OwnedBuffer.adopt raw =
          { block? := some id, length := raw.size.toInt.toNat, secrecy := .secret } := by
        simp [OwnedBuffer.adopt, hid]
      rw [hadopt]
      exact ⟨fun hs => ⟨rfl, hdata id hid hs⟩, fun _ => rfl⟩
  | rawBatch raw =>
      simp only [owners] at ho
      split at ho
      · rename_i b h' hadopt
        have hb : (Holder.batch b).Faithful h' secrets crossed :=
          Memory.faithful_adoptBatch hadopt hx
        obtain ⟨rfl, -, -⟩ := OwnedBatch.adopt_eq hadopt
        exact OwnedBatch.Faithful.keeps hb.data ho
      · cases ho
  | block b => cases ho
  | pool id => cases ho
  | bridge b => cases ho

end

namespace Ledger

variable {s : Ledger} {o : Owner}

/-- Who owns which data block. -/
def Owns (s : Ledger) (o : Owner) : Prop := s.memory.Owns s.holders o

theorem Marked.keeps (hb : s.Balanced) (hm : s.Marked) (ho : s.Owns o) :
    o.Keeps s.process.heap s.secrets s.crossed := by
  rcases ho with ⟨x, hx, ho⟩ | ⟨p, hp, hregion⟩
  · exact (hm.holders x hx).keeps ho
  · have hsize := ((hb.pools o.data).pool hp).2
    rw [hregion]
    exact ⟨fun _ => ⟨rfl, hsize⟩, fun _ => rfl⟩

/-- How a block leaves native memory. -/
structure Wiped (s : Ledger) (id : BlockId) (last : Block) (holding : Holding) : Prop where
  /-- Only a size table has no owner. -/
  owned : holding = .sizeTable ∨ ∃ o, s.Owns o ∧ o.data = id
  /-- What the owner describes is zero, unless it may be spared; and nothing is spared that native
  code has held. -/
  described : ∀ o, s.Owns o → o.data = id → o.spared = false ∨ id ∈ s.crossed →
    last.Clear o.length
  /-- What was allocated for a secret is zero throughout. -/
  secret : id ∈ s.secrets → last.Clear last.size

/-- A block that an operation on some holders of a ledger frees properly is wiped. -/
theorem wiped_of_proper (hb : s.Balanced) (hm : s.Marked) {concerned : List Holder}
    (hsub : ∀ x ∈ concerned, x ∈ s.holders) {id : BlockId} {last : Block} {holding : Holding}
    (hp : s.memory.Proper concerned id last holding) : s.Wiped id last holding := by
  rcases hp with ⟨hsize, o, ho, rfl, hclear⟩ | ⟨htable, htables⟩
  · have hown : s.Owns o := by
      rcases ho with ⟨x, hx, ho⟩ | hregion
      · exact .inl ⟨x, hsub x hx, ho⟩
      · exact .inr hregion
    obtain ⟨hsecret, hback⟩ := hm.keeps hb hown
    refine ⟨.inr ⟨o, hown, rfl⟩, fun o' ho' hdata hwiped => ?_, fun hmark => ?_⟩
    · rw [← hb.owner_unique hown ho' hdata] at hwiped ⊢
      rcases hwiped with hspared | hcrossed
      · exact hclear hspared
      · exact hclear (hback hcrossed)
    · obtain ⟨hspared, hwhole⟩ := hsecret hmark
      have hlength : last.size = o.length := by
        rw [show s.process.heap.size? o.data = some last.size from hsize] at hwhole
        exact Option.some.inj hwhole
      rw [hlength]
      exact hclear hspared
  · have hnone : ∀ o, ¬ (s.Owns o ∧ o.data = id) := by
      intro o ⟨ho, hdata⟩
      rcases htables with ⟨x, hx, hid⟩ | hnew
      · exact hb.not_owned_of_table (hsub x hx) hid ⟨ho, hdata⟩
      · have hlive := hb.sound.lt_next (hb.owned_live ho)
        rw [hdata] at hlive
        exact absurd hlive (Nat.not_lt.mpr hnew)
    refine ⟨.inl htable, fun o ho hdata => absurd ⟨ho, hdata⟩ (hnone o), fun hmark => ?_⟩
    rcases htables with ⟨x, hx, hid⟩ | hnew
    · exact absurd hmark ((hm.holders x (hsub x hx)).tables id hid)
    · exact absurd hmark (hm.secrets.not_mem hnew)

/-- A native batch that an operation hands in is well formed. -/
def accepts (s : Ledger) (op : Memory.Operation) : Bool :=
  match op.handsIn? with
  | none => true
  | some raw =>
      !(.rawBatch raw ∈ s.holders : Bool) || (OwnedBatch.inspect raw s.process.heap).isOk

/-- Every native batch that is handed in during a run is well formed. -/
def acceptsAll (s : Ledger) : List Memory.Operation → Bool
  | [] => true
  | op :: ops => s.accepts op && (s.act op).acceptsAll ops

/-- What one operation frees is wiped. -/
theorem frees_act (hb : s.Balanced) (hm : s.Marked) {op : Memory.Operation}
    (haccept : s.accepts op = true) :
    s.process.heap.Frees (s.act op).process.heap s.Wiped := by
  have hstep : (∀ x ∈ op.owner?.toList, x ∈ s.holders) →
      s.process.heap.Frees (op.effect s.process).process.heap s.Wiped := by
    intro hsub
    refine (op.frees s.process fun raw hraw => ?_).mono (wiped_of_proper hb hm hsub)
    have howner : op.owner? = some (.rawBatch raw) := by
      cases op <;> simp only [Memory.Operation.handsIn?, reduceCtorEq, Option.some.injEq] at hraw
      all_goals rw [hraw]; rfl
    have hheld : Holder.rawBatch raw ∈ s.holders := hsub _ (by rw [howner]; simp)
    simp only [accepts, hraw, hheld, decide_true, Bool.not_true, Bool.false_or] at haccept
    cases hinspect : OwnedBatch.inspect raw s.process.heap with
    | ok total => exact ⟨total, rfl⟩
    | error reason =>
        rw [hinspect] at haccept
        cases haccept
  unfold Ledger.act Ledger.perform
  cases howner : op.owner? with
  | none =>
      rw [howner] at hstep
      exact hstep fun x hx => by cases hx
  | some x =>
      simp only
      split
      · rename_i hx
        rw [howner] at hstep
        exact hstep fun y hy => by rwa [List.mem_singleton.mp hy]
      · exact .of_trace rfl

theorem after_append (ops : List Memory.Operation) (op : Memory.Operation) :
    after (ops ++ [op]) = (after ops).act op := by
  unfold after
  rw [List.foldl_append]
  rfl

theorem accepts_last (s : Ledger) (ops : List Memory.Operation) (op : Memory.Operation)
    (hall : s.acceptsAll (ops ++ [op]) = true) : (ops.foldl Ledger.act s).accepts op = true := by
  induction ops generalizing s with
  | nil => exact (Bool.and_eq_true_iff.mp hall).1
  | cons first rest ih => exact ih (s.act first) (Bool.and_eq_true_iff.mp hall).2

/-- Data leave native memory clean.  After any run, whatever the next operation frees is wiped:
the bytes that the owner of the block describes are zero, unless it is a public owner that may be
spared; the whole block is zero if it was allocated for a secret; and a block that native code has
held is not spared. -/
theorem wiped_before_release (ops : List Memory.Operation) (op : Memory.Operation)
    (hwell : acceptsAll {} (ops ++ [op]) = true) :
    (after ops).process.heap.Frees (after (ops ++ [op])).process.heap (after ops).Wiped := by
  rw [after_append]
  exact frees_act (balanced_after ops) (marked_after ops) (accepts_last {} ops op hwell)

/-- A secret batch goes to native code, which writes into it. -/
def lentBatch : List Memory.Operation :=
  [.copyBatch [[1, 2], [3]] .secret, .handBatch ⟨some 1, some 0, 2, 3, .secret⟩,
    .nativeWrite (.rawBatch ⟨.native 1 0, .native 0 0, 2⟩) 0 [7]]

/-- The batch as native code gives it back. -/
def returnedBatch : Memory.Operation := .discardBatch ⟨.native 1 0, .native 0 0, 2⟩

theorem wiped_before_release_returned :
    acceptsAll {} (lentBatch ++ [returnedBatch]) = true ∧
      (after lentBatch).process.heap.live = [0, 1] ∧
      (after (lentBatch ++ [returnedBatch])).process.heap.live = [] ∧
      (after lentBatch).process.heap.Frees (after (lentBatch ++ [returnedBatch])).process.heap
        (after lentBatch).Wiped :=
  ⟨by decide, by decide, by decide, wiped_before_release lentBatch returnedBatch (by decide)⟩

end Ledger

end NativeBoundary

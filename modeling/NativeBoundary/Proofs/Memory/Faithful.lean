import NativeBoundary.Proofs.Memory.Frees

/-!
# Faithful holders

Wiping goes as far as the owner of a block believes that it goes.  So for a block that was
allocated for a secret the owner has to know all of it, after every change of hands: the length
that a buffer is handed out with, and the size table that a batch is handed out with, have to come
back as they went.  And what has been with native code must not be spared, whatever it was before.

`Holder.Faithful` says so of one holder, relative to the blocks that were allocated for a secret
and the blocks that native code has held.  `Ledger.marked_after` says it of every holder after
every run.
-/

namespace NativeBoundary

/-- What a copy of host bytes looks like. -/
theorem OwnedBuffer.copyFrom_ok {bytes : Bytes} {secrecy : Secrecy} {h h' : Heap}
    {b : OwnedBuffer} (hc : copyFrom bytes secrecy h = (.ok b, h')) :
    b.secrecy = secrecy ∧ b.length ≤ nativeSizeLimit ∧
      ∀ id, b.block? = some id → h.next ≤ id ∧ h'.size? id = some b.length := by
  cases copying_of_copyFrom hc with
  | empty hnone => exact ⟨rfl, Nat.zero_le _, fun id hid => by cases hid⟩
  | block hsome hfits hblock =>
      refine ⟨rfl, hfits, fun id hid => ?_⟩
      cases hid
      refine ⟨Nat.le_of_eq (Heap.request_granted hblock).1.symm, ?_⟩
      rw [Heap.size?_write, Heap.size?, Heap.block?_granted hblock]
      rfl

/-- What a batch was made from is secret when it was meant to be, and its tables are new. -/
theorem OwnedBatch.copyFrom_ok {items : List Bytes} {secrecy : Secrecy} {h h' : Heap}
    {b : OwnedBatch} (hs : h.Sound) (hc : copyFrom items secrecy h = (.ok b, h')) :
    b.secrecy = secrecy ∧ b.Describes h' ∧ b.blocks.Nodup ∧ ∀ id ∈ b.blocks, h.next ≤ id := by
  have hchange := change_copyFrom hs hc
  obtain ⟨hdescribes, hsecrecy⟩ := describes_copyFrom hc
  refine ⟨hsecrecy, hdescribes, ?_, fun id hid => (hchange.fresh id hid).1⟩
  rw [List.nodup_iff_count]
  intro id
  by_cases hid : id ∈ b.blocks
  · have hcount := hchange.count id
    have hone := h'.liveCount_le_one id
    rw [List.count_nil] at hcount
    omega
  · rw [List.count_eq_zero.mpr hid]
    exact Nat.zero_le 1

section

variable (h : Heap) (secrets crossed : List BlockId)

/-- A buffer whose block was allocated for a secret is secret and knows the whole block; one that
native code has held is secret. -/
def OwnedBuffer.Faithful (b : OwnedBuffer) : Prop :=
  ∀ id, b.block? = some id →
    (id ∈ secrets → b.secrecy = .secret ∧ h.size? id = some b.length ∧
      b.length ≤ nativeSizeLimit) ∧
    (id ∈ crossed → b.secrecy = .secret)

/-- A batch whose data were allocated for a secret is secret and describes its tables; one that
native code has held is secret. -/
def OwnedBatch.Faithful (b : OwnedBatch) : Prop :=
  ∀ id, b.data? = some id →
    (id ∈ secrets → b.secrecy = .secret ∧ b.Describes h) ∧ (id ∈ crossed → b.secrecy = .secret)

/-- A copy of a scope, likewise. -/
def ScopeCopy.Faithful : ScopeCopy → Prop
  | pooled _ => True
  | heap b => b.Faithful h secrets crossed
  | batch b => b.Faithful h secrets crossed

/-- What native code was handed still says of a secret block what the host said. -/
def Holder.FaithfulData : Holder → Prop
  | buffer b => b.Faithful h secrets crossed
  | batch b => b.Faithful h secrets crossed
  | scope s => ∀ copy ∈ s.copies, copy.Faithful h secrets crossed
  | rawBuffer raw => ∀ id, raw.data.block? = some id → id ∈ secrets →
      h.size? id = some raw.size.toInt.toNat
  | rawBatch raw => ∀ id, raw.data.block? = some id → id ∈ secrets →
      ∃ b : OwnedBatch, b.raw = raw ∧ b.Describes h
  | block _ | pool _ | bridge _ => True

/-- A faithful holder; a secret block is never one of its size tables. -/
structure Holder.Faithful (x : Holder) : Prop where
  data : x.FaithfulData h secrets crossed
  tables : ∀ id ∈ x.tables, id ∉ secrets

end

section

variable {h h' : Heap} {secrets crossed secrets' crossed' : List BlockId}

theorem OwnedBuffer.Faithful.frame {b : OwnedBuffer} (hb : b.Faithful h secrets crossed)
    (hkept : ∀ id ∈ b.blocks, h'.block? id = h.block? id)
    (hsecrets : ∀ id ∈ b.blocks, id ∈ secrets' → id ∈ secrets)
    (hcrossed : ∀ id ∈ b.blocks, id ∈ crossed' → id ∈ crossed) :
    b.Faithful h' secrets' crossed' := by
  intro id hid
  have hm : id ∈ b.blocks := by simp [blocks, hid]
  obtain ⟨hsecret, hback⟩ := hb id hid
  refine ⟨fun hs => ?_, fun hc => hback (hcrossed id hm hc)⟩
  have hsize : h'.size? id = h.size? id := congrArg _ (hkept id hm)
  rw [hsize]
  exact hsecret (hsecrets id hm hs)

theorem OwnedBatch.Describes.frame {b : OwnedBatch} (hd : b.Describes h)
    (hkept : ∀ id ∈ b.blocks, h'.block? id = h.block? id) : b.Describes h' := by
  refine hd.congr (fun id hid => hkept id ?_) (fun id hid => congrArg _ (hkept id ?_))
  · simp [blocks, hid]
  · simp [blocks, hid]

theorem OwnedBatch.Faithful.frame {b : OwnedBatch} (hb : b.Faithful h secrets crossed)
    (hkept : ∀ id ∈ b.blocks, h'.block? id = h.block? id)
    (hsecrets : ∀ id ∈ b.blocks, id ∈ secrets' → id ∈ secrets)
    (hcrossed : ∀ id ∈ b.blocks, id ∈ crossed' → id ∈ crossed) :
    b.Faithful h' secrets' crossed' := by
  intro id hid
  have hm : id ∈ b.blocks := by simp [blocks, hid]
  obtain ⟨hsecret, hback⟩ := hb id hid
  refine ⟨fun hs => ?_, fun hc => hback (hcrossed id hm hc)⟩
  obtain ⟨hsecrecy, hdescribes⟩ := hsecret (hsecrets id hm hs)
  exact ⟨hsecrecy, hdescribes.frame hkept⟩

theorem ScopeCopy.Faithful.frame {copy : ScopeCopy} (hb : copy.Faithful h secrets crossed)
    (hkept : ∀ id ∈ copy.blocks, h'.block? id = h.block? id)
    (hsecrets : ∀ id ∈ copy.blocks, id ∈ secrets' → id ∈ secrets)
    (hcrossed : ∀ id ∈ copy.blocks, id ∈ crossed' → id ∈ crossed) :
    copy.Faithful h' secrets' crossed' := by
  cases copy with
  | pooled b => trivial
  | heap b => exact OwnedBuffer.Faithful.frame hb hkept hsecrets hcrossed
  | batch b => exact OwnedBatch.Faithful.frame hb hkept hsecrets hcrossed

/-- A holder stays faithful while its blocks stay what they are and get no new marks. -/
theorem Holder.Faithful.frame {x : Holder} (hx : x.Faithful h secrets crossed)
    (hkept : ∀ id ∈ x.blocks, h'.block? id = h.block? id)
    (hsecrets : ∀ id ∈ x.blocks, id ∈ secrets' → id ∈ secrets)
    (hcrossed : ∀ id ∈ x.blocks, id ∈ crossed' → id ∈ crossed) :
    x.Faithful h' secrets' crossed' where
  data := by
    have hdata := hx.data
    cases x with
    | buffer b => exact OwnedBuffer.Faithful.frame hdata hkept hsecrets hcrossed
    | batch b => exact OwnedBatch.Faithful.frame hdata hkept hsecrets hcrossed
    | scope s =>
        intro copy hcopy
        have hsub : ∀ id ∈ copy.blocks, id ∈ (Holder.scope s).blocks :=
          fun id hid => List.mem_flatMap.mpr ⟨copy, hcopy, hid⟩
        exact (hdata copy hcopy).frame (fun id hid => hkept id (hsub id hid))
          (fun id hid => hsecrets id (hsub id hid)) (fun id hid => hcrossed id (hsub id hid))
    | rawBuffer raw =>
        intro id hid hs
        have hm : id ∈ (Holder.rawBuffer raw).blocks := by simp [blocks, hid]
        have hsize : h'.size? id = h.size? id := congrArg _ (hkept id hm)
        rw [hsize]
        exact hdata id hid (hsecrets id hm hs)
    | rawBatch raw =>
        intro id hid hs
        have hm : id ∈ (Holder.rawBatch raw).blocks := by simp [blocks, RawBatch.blocks, hid]
        obtain ⟨b, rfl, hdescribes⟩ := hdata id hid (hsecrets id hm hs)
        refine ⟨b, rfl, hdescribes.frame fun j hj => hkept j ?_⟩
        rw [blocks, OwnedBatch.blocks_raw]
        exact hj
    | block b => trivial
    | pool id => trivial
    | bridge b => trivial
  tables := fun id hid hs => hx.tables id hid (hsecrets id (x.mem_blocks_of_table hid) hs)

end

namespace Memory

section

variable {m m' : Memory} {h h' : Heap} {secrets crossed : List BlockId}

/-- Marks name blocks that were given out. -/
def Old (h : Heap) (ids : List BlockId) : Prop := ∀ id ∈ ids, id < h.next

theorem Old.not_mem {id : BlockId} {ids : List BlockId} (ho : Old h ids) (hid : h.next ≤ id) :
    id ∉ ids :=
  fun hm => absurd (ho id hm) (Nat.not_lt.mpr hid)

theorem faithful_copyBuffer {bytes : Bytes} {secrecy : Secrecy} {b : OwnedBuffer}
    (hc : OwnedBuffer.copyFrom bytes secrecy h = (.ok b, h')) (hsecrets : Old h secrets)
    (hcrossed : Old h crossed) (wipePublic : Bool) :
    OwnedBuffer.Faithful h' (b.secretBlocks ++ secrets) crossed { b with wipePublic } := by
  obtain ⟨-, hfits, hfresh⟩ := OwnedBuffer.copyFrom_ok hc
  intro id hid
  obtain ⟨hnew, hsize⟩ := hfresh id hid
  refine ⟨fun hs => ?_, fun hm => absurd hm (hcrossed.not_mem hnew)⟩
  rcases List.mem_append.mp hs with hs | hs
  · unfold OwnedBuffer.secretBlocks at hs
    split at hs
    · rename_i hsecret
      exact ⟨hsecret, hsize, hfits⟩
    · cases hs
  · exact absurd hs (hsecrets.not_mem hnew)

theorem faithful_copyBatch {items : List Bytes} {secrecy : Secrecy} {b : OwnedBatch}
    (hsound : h.Sound) (hc : OwnedBatch.copyFrom items secrecy h = (.ok b, h'))
    (hsecrets : Old h secrets) (hcrossed : Old h crossed) :
    b.Faithful h' (b.secretBlocks ++ secrets) crossed ∧
      ∀ id ∈ b.sizes?.toList, id ∉ b.secretBlocks ++ secrets := by
  obtain ⟨-, hdescribes, hnodup, hfresh⟩ := OwnedBatch.copyFrom_ok hsound hc
  constructor
  · intro id hid
    have hnew := hfresh id (by simp [OwnedBatch.blocks, hid])
    refine ⟨fun hs => ?_, fun hm => absurd hm (hcrossed.not_mem hnew)⟩
    rcases List.mem_append.mp hs with hs | hs
    · unfold OwnedBatch.secretBlocks at hs
      split at hs
      · rename_i hsecret
        exact ⟨hsecret, hdescribes⟩
      · cases hs
    · exact absurd hs (hsecrets.not_mem hnew)
  · intro id hid hs
    have hnew := hfresh id (List.mem_append_right _ hid)
    rcases List.mem_append.mp hs with hs | hs
    · unfold OwnedBatch.secretBlocks at hs
      split at hs
      · exact OwnedBatch.data_ne_sizes (List.nodup_iff_count.mp hnodup id) hs hid
      · cases hs
    · exact absurd hs (hsecrets.not_mem hnew)

/-- A raw buffer that was made for native code says how large its block is. -/
theorem size_allocate {bytes : Bytes} {id : BlockId}
    (hid : (RawBuffer.allocate bytes h).1.data.block? = some id) :
    (RawBuffer.allocate bytes h).2.size? id =
      some (RawBuffer.allocate bytes h).1.size.toInt.toNat := by
  unfold RawBuffer.allocate at hid ⊢
  split at hid
  · rename_i b h' hcopy
    obtain ⟨-, hfits, hfresh⟩ := OwnedBuffer.copyFrom_ok hcopy
    rw [OwnedBuffer.block?_raw] at hid
    have hraw : b.raw.size = Int32.ofNat b.length := by simp [OwnedBuffer.raw, hid]
    simp only [hraw, toNat_ofNat_of_le hfits]
    exact (hfresh id hid).2
  · cases hid

/-- A batch that comes back is the batch that was handed out. -/
theorem faithful_adoptBatch {raw : RawBatch} {b : OwnedBatch} {crossed' : List BlockId}
    (hadopt : OwnedBatch.adopt raw h = (.ok b, h'))
    (hraw : (Holder.rawBatch raw).Faithful h secrets crossed) :
    (Holder.batch b).Faithful h' secrets crossed' := by
  obtain ⟨rfl, -, hb⟩ := OwnedBatch.adopt_eq hadopt
  constructor
  · intro id hid
    refine ⟨fun hs => ?_, fun _ => by rw [hb]⟩
    rw [hb] at hid
    obtain ⟨b', rfl, hdescribes⟩ := hraw.data id hid hs
    rw [hdescribes.adopt_raw] at hadopt
    cases hadopt
    exact ⟨rfl, hdescribes.count, hdescribes.accepted, hdescribes.size⟩
  · intro id hid
    refine hraw.tables id ?_
    rw [Holder.tables, hb] at hid
    exact hid

/-- What native code makes itself is no secret of the host. -/
theorem nativeTable_not_mem (hsound : h.Sound) (content? : Option Bytes) {ids : List BlockId}
    (ho : Old h ids) {id : BlockId} (hid : (nativeTable h content?).1.block? = some id) :
    id ∉ ids := by
  have hfresh := (change_nativeTable hsound content?).fresh id (by simp [hid])
  exact ho.not_mem hfresh.1

/-- A write by native code changes neither the size of a block nor a size table. -/
theorem faithful_nativeWrite {x : Holder} (hone : ∀ id, x.blocks.count id ≤ 1)
    (hx : x.Faithful h secrets crossed) (offset : Nat) (data : Bytes) :
    x.Faithful (Memory.nativeWrite h x offset data) secrets crossed := by
  unfold Memory.nativeWrite
  cases hw : writable? x with
  | none => exact hx
  | some id =>
      simp only
      split
      · refine ⟨?_, hx.tables⟩
        have hdata := hx.data
        cases x <;> simp only [writable?, reduceCtorEq] at hw
        · intro j hj hs
          rw [Heap.size?_write]
          exact hdata j hj hs
        · rename_i raw
          intro j hj hs
          obtain ⟨b, rfl, hdescribes⟩ := hdata j hj hs
          refine ⟨b, rfl, hdescribes.congr (fun k hk => ?_) fun k _ => Heap.size?_write _ _ _ _ _⟩
          have hid : b.data? = some id := by simpa [OwnedBatch.raw] using hw
          have hne : k ≠ id := by
            rintro rfl
            have hblocks : b.blocks.count k ≤ 1 := by
              rw [← OwnedBatch.blocks_raw]
              exact hone k
            exact OwnedBatch.data_ne_sizes hblocks (by simp [hid]) (by simp [hk])
          exact Heap.block?_write_of_ne hne offset data
      · exact hx

/-- A scope that got copies stays faithful, if the new copies are. -/
theorem faithful_scope {s s' : Scope} {others : List Holder} (added : List ScopeCopy)
    (ha : m.Accounts (.scope s :: others)) (he : m.Extends s m' s')
    (hs' : s'.copies = added ++ s.copies)
    (hs : (Holder.scope s).Faithful m.heap secrets crossed)
    (hadded : ∀ copy ∈ added,
      copy.Faithful m'.heap (s'.secretBlocks.filter (m.heap.next ≤ ·) ++ secrets) crossed ∧
      ∀ id ∈ copy.tables, id ∉ s'.secretBlocks.filter (m.heap.next ≤ ·) ++ secrets) :
    (Holder.scope s').Faithful m'.heap
      (s'.secretBlocks.filter (m.heap.next ≤ ·) ++ secrets) crossed := by
  have hframe : (Holder.scope s).Faithful m'.heap
      (s'.secretBlocks.filter (m.heap.next ≤ ·) ++ secrets) crossed := by
    refine hs.frame (he.kept ha) (fun id hid hm => ?_) fun _ _ hm => hm
    have hlt := ha.sound.lt_next (ha.has.live (List.mem_append_left _ hid))
    rcases List.mem_append.mp hm with hm | hm
    · exact absurd hlt (Nat.not_lt.mpr (of_decide_eq_true (List.mem_filter.mp hm).2))
    · exact hm
  constructor
  · intro copy hcopy
    rw [hs'] at hcopy
    rcases List.mem_append.mp hcopy with hcopy | hcopy
    · exact (hadded copy hcopy).1
    · exact hframe.data copy hcopy
  · intro id hid
    rw [Holder.tables, hs', List.flatMap_append] at hid
    rcases List.mem_append.mp hid with hid | hid
    · obtain ⟨copy, hcopy, hid⟩ := List.mem_flatMap.mp hid
      exact (hadded copy hcopy).2 id hid
    · exact hframe.tables id hid

end

/-- The secret blocks of a scope that are new are those of its new copies. -/
theorem new_secret_of_scope {m : Memory} {s s' : Scope} {others : List Holder} {copy : ScopeCopy}
    {secrets : List BlockId} (ha : m.Accounts (.scope s :: others))
    (hs' : s'.copies = copy :: s.copies) {id : BlockId}
    (hm : id ∈ s'.secretBlocks.filter (m.heap.next ≤ ·) ++ secrets) :
    id ∈ copy.secretBlocks ++ secrets := by
  rcases List.mem_append.mp hm with hm | hm
  · obtain ⟨hm, hnew⟩ := List.mem_filter.mp hm
    rw [Scope.secretBlocks, hs', List.flatMap_cons] at hm
    rcases List.mem_append.mp hm with hm | hm
    · exact List.mem_append_left _ hm
    · obtain ⟨old, hold, hm⟩ := List.mem_flatMap.mp hm
      have hheld : id ∈ blocksOf (.scope s :: others) :=
        List.mem_append_left _ (List.mem_flatMap.mpr ⟨old, hold, old.mem_blocks_of_secret hm⟩)
      have hlt := ha.sound.lt_next (ha.has.live hheld)
      exact absurd hlt (Nat.not_lt.mpr (of_decide_eq_true hnew))
  · exact List.mem_append_right _ hm

theorem faithful_input {m m' : Memory} {s s' : Scope} {others : List Holder} {bytes : Bytes}
    {secrecy : Secrecy} {result : Except Fault RawBuffer} {secrets crossed : List BlockId}
    (ha : m.Accounts (.scope s :: others))
    (hs : (Holder.scope s).Faithful m.heap secrets crossed)
    (hsecrets : Old m.heap secrets) (hcrossed : Old m.heap crossed)
    (hc : m.input s bytes secrecy = (result, s', m')) :
    (Holder.scope s').Faithful m'.heap
      (s'.secretBlocks.filter (m.heap.next ≤ ·) ++ secrets) crossed := by
  have he := extends_input hc
  rcases input_cases hc with ⟨rfl, -⟩ | ⟨fault, h', -, rfl, -⟩ | ⟨b, -, rfl⟩ |
    ⟨b, h', hcopy, rfl, rfl⟩
  · exact faithful_scope [] ha he rfl hs fun _ hm => by cases hm
  · exact faithful_scope [] ha he rfl hs fun _ hm => by cases hm
  · refine faithful_scope [.pooled b] ha he rfl hs fun copy hm => ?_
    cases List.mem_singleton.mp hm
    exact ⟨trivial, fun id hid => by cases hid⟩
  · refine faithful_scope [.heap { b with wipePublic := s.wipePublic }] ha he rfl hs
      fun copy hm => ?_
    cases List.mem_singleton.mp hm
    have hb := faithful_copyBuffer hcopy hsecrets hcrossed s.wipePublic
    refine ⟨OwnedBuffer.Faithful.frame hb (fun _ _ => rfl) (fun id _ hm => ?_) fun _ _ hm => hm,
      fun id hid => by cases hid⟩
    exact new_secret_of_scope ha rfl hm

theorem faithful_inputBatch {m m' : Memory} {s s' : Scope} {others : List Holder}
    {items : List Bytes} {result : Except Fault RawBatch} {secrets crossed : List BlockId}
    (ha : m.Accounts (.scope s :: others))
    (hs : (Holder.scope s).Faithful m.heap secrets crossed)
    (hsecrets : Old m.heap secrets) (hcrossed : Old m.heap crossed)
    (hc : m.inputBatch s items = (result, s', m')) :
    (Holder.scope s').Faithful m'.heap
      (s'.secretBlocks.filter (m.heap.next ≤ ·) ++ secrets) crossed := by
  have he := extends_inputBatch hc
  rcases inputBatch_cases hc with ⟨fault, h', -, rfl, -⟩ | ⟨b, h', hcopy, rfl, rfl⟩
  · exact faithful_scope [] ha he rfl hs fun _ hm => by cases hm
  · refine faithful_scope [.batch b] ha he rfl hs fun copy hm => ?_
    cases List.mem_singleton.mp hm
    obtain ⟨hb, htables⟩ := faithful_copyBatch ha.sound hcopy hsecrets hcrossed
    refine ⟨OwnedBatch.Faithful.frame hb (fun _ _ => rfl) (fun id _ hm => ?_) fun _ _ hm => hm,
      fun id hid hm => htables id hid ?_⟩
    · exact new_secret_of_scope ha rfl hm
    · exact new_secret_of_scope ha rfl hm

/-- What an operation leaves behind is faithful, if what it was given was. -/
theorem Operation.faithful {p : Process} {op : Operation} {others : List Holder}
    {secrets crossed : List BlockId} (ha : p.memory.Accounts (op.owner?.toList ++ others))
    (hx : ∀ x ∈ op.owner?.toList, x.Faithful p.heap secrets crossed)
    (hsecrets : Old p.heap secrets) (hcrossed : Old p.heap crossed) :
    ∀ x ∈ (op.effect p).gained, x.Faithful (op.effect p).process.heap
      ((op.effect p).secrets ++ secrets)
      (blocksOf ((op.effect p).gained.filter Holder.isNative) ++ crossed) := by
  have hplain : ∀ {x : Holder} {h : Heap} {ss cs : List BlockId},
      x.FaithfulData h ss cs → x.tables = [] → x.Faithful h ss cs :=
    fun hdata hnone => ⟨hdata, by simp [hnone]⟩
  cases op with
  | refuse granted => exact fun x hm => by cases hm
  | copyBuffer bytes secrecy =>
      simp only [effect]
      split
      · rename_i b h' hcopy
        intro x hm
        cases List.mem_singleton.mp hm
        exact hplain (faithful_copyBuffer hcopy hsecrets hcrossed b.wipePublic) rfl
      · exact fun x hm => by cases hm
  | flagBuffer b wipePublic =>
      intro x hm
      cases List.mem_singleton.mp hm
      have hb : b.Faithful p.heap secrets crossed := (hx (.buffer b) (by simp [owner?])).data
      exact hplain hb rfl
  | handBuffer b =>
      intro x hm
      cases List.mem_singleton.mp hm
      refine hplain (fun id hid hs => ?_) rfl
      have hb : b.Faithful p.heap secrets crossed := (hx (.buffer b) (by simp [owner?])).data
      rw [OwnedBuffer.block?_raw] at hid
      obtain ⟨-, hsize, hfits⟩ := (hb id hid).1 hs
      have hraw : b.raw.size = Int32.ofNat b.length := by simp [OwnedBuffer.raw, hid]
      rw [hraw, toNat_ofNat_of_le hfits]
      exact hsize
  | dropBuffer b => exact fun x hm => by cases hm
  | allocate bytes =>
      intro x hm
      cases List.mem_singleton.mp hm
      exact hplain (fun id hid _ => size_allocate hid) rfl
  | adoptBuffer raw =>
      intro x hm
      cases List.mem_singleton.mp hm
      have hraw := (hx (.rawBuffer raw) (by simp [owner?])).data
      refine hplain (fun id hid => ?_) rfl
      rw [OwnedBuffer.block?_adopt] at hid
      have hadopt : OwnedBuffer.adopt raw =
          { block? := some id, length := raw.size.toInt.toNat, secrecy := .secret } := by
        simp [OwnedBuffer.adopt, hid]
      rw [hadopt]
      exact ⟨fun hs => ⟨rfl, hraw id hid hs, toNat_le_limit raw.size⟩, fun _ => rfl⟩
  | takeBuffer raw =>
      intro x hm
      simp only [effect] at hm ⊢
      by_cases he : raw.isEmpty
      · rw [if_pos he] at hm
        cases List.mem_singleton.mp hm
        have hraw := hx (.rawBuffer raw) (by simp [owner?])
        have hheap : (raw.take p.heap).2 = p.heap := by simp [RawBuffer.take, he]
        rw [hheap]
        exact hplain hraw.data rfl
      · rw [if_neg he] at hm
        cases hm
  | discardBuffer raw => exact fun x hm => by cases hm
  | copyBatch items secrecy =>
      simp only [effect]
      split
      · rename_i b h' hcopy
        intro x hm
        cases List.mem_singleton.mp hm
        obtain ⟨hdata, htables⟩ := faithful_copyBatch ha.sound hcopy hsecrets hcrossed
        exact ⟨hdata, htables⟩
      · exact fun x hm => by cases hm
  | handBatch b =>
      intro x hm
      cases List.mem_singleton.mp hm
      have hb := hx (.batch b) (by simp [owner?])
      refine ⟨fun id hid hs => ⟨b, rfl, ?_⟩, fun id hid => ?_⟩
      · have hdata : b.data? = some id := by simpa [OwnedBatch.raw] using hid
        have hfaithful : b.Faithful p.heap secrets crossed := hb.data
        exact ((hfaithful id hdata).1 hs).2
      · exact hb.tables id (by simpa [Holder.tables, OwnedBatch.raw] using hid)
  | dropBatch b => exact fun x hm => by cases hm
  | adoptBatch raw =>
      simp only [effect, Process.adoptBatch]
      cases hadopt : OwnedBatch.adopt raw p.heap with
      | mk result h =>
          cases result with
          | ok b =>
              intro x hm
              cases List.mem_singleton.mp hm
              exact faithful_adoptBatch hadopt (hx (.rawBatch raw) (by simp [owner?]))
          | error reason => exact fun x hm => by cases hm
  | takeBatch raw => exact fun x hm => by cases hm
  | discardBatch raw => exact fun x hm => by cases hm
  | createPool count blockSize =>
      simp only [effect]
      split
      · intro x hm
        cases List.mem_singleton.mp hm
        exact hplain trivial rfl
      · exact fun x hm => by cases hm
  | sharePool id =>
      intro x hm
      have hpool : x = .pool id := by simpa [effect] using hm
      rw [hpool]
      exact hplain trivial rfl
  | dropPool id => exact fun x hm => by cases hm
  | acquire id =>
      simp only [effect]
      split <;> intro x hm <;> simp only [List.mem_cons, List.not_mem_nil, or_false] at hm
      · rcases hm with rfl | rfl <;> exact hplain trivial rfl
      · rw [hm]
        exact hplain trivial rfl
  | acquireWith id data =>
      simp only [effect]
      split <;> intro x hm <;> simp only [List.mem_cons, List.not_mem_nil, or_false] at hm
      · rcases hm with rfl | rfl <;> exact hplain trivial rfl
      · rw [hm]
        exact hplain trivial rfl
  | writeBlock b data =>
      simp only [effect]
      split <;> intro x hm <;> rw [List.mem_singleton.mp hm] <;> exact hplain trivial rfl
  | dropBlock b => exact fun x hm => by cases hm
  | openScope strategy pool? wipePublic =>
      intro x hm
      rcases List.mem_cons.mp hm with rfl | hm
      · exact hplain (fun copy hcopy => by cases hcopy) rfl
      · obtain ⟨id, -, rfl⟩ := List.mem_map.mp hm
        exact hplain trivial rfl
  | input s bytes secrecy =>
      intro x hm
      cases List.mem_singleton.mp hm
      exact faithful_input ha (hx (.scope s) (by simp [owner?])) hsecrets hcrossed rfl
  | inputBatch s items =>
      intro x hm
      cases List.mem_singleton.mp hm
      exact faithful_inputBatch ha (hx (.scope s) (by simp [owner?])) hsecrets hcrossed rfl
  | endScope s => exact fun x hm => by cases hm
  | nativeBuffer content size =>
      intro x hm
      cases List.mem_singleton.mp hm
      exact hplain (fun id hid hs =>
        absurd hs (nativeTable_not_mem ha.sound (some content) hsecrets hid)) rfl
  | nativeBatch data sizes count =>
      intro x hm
      cases List.mem_singleton.mp hm
      have hdata := change_nativeTable ha.sound data
      refine ⟨fun id hid hs => absurd hs (nativeTable_not_mem ha.sound data hsecrets hid),
        fun id hid => nativeTable_not_mem hdata.sound sizes (fun j hj => ?_) ?_⟩
      · exact Nat.lt_of_lt_of_le (hsecrets j hj) hdata.next
      · exact Option.mem_toList.mp hid
  | nativeWrite x offset data =>
      intro y hm
      cases List.mem_singleton.mp hm
      have hfaithful := faithful_nativeWrite (ha.count_le_one (by simp [owner?]))
        (hx x (by simp [owner?])) offset data
      -- what is said of native code does not depend on what native code has held
      cases x <;> exact ⟨hfaithful.data, hfaithful.tables⟩

end Memory

/-- What an operation allocates for a secret is held afterwards, or is the region of a pool that
is. -/
theorem Memory.Operation.secrets_held (p : Process) (op : Memory.Operation) :
    ∀ id ∈ (op.effect p).secrets,
      id ∈ blocksOf (op.effect p).gained ∨ id ∈ poolsOf (op.effect p).gained := by
  intro id
  cases op with
  | copyBuffer bytes secrecy =>
      simp only [effect]
      split
      · intro hm
        exact .inl (List.mem_append_left _ (OwnedBuffer.mem_blocks_of_secret hm))
      · exact fun hm => by cases hm
  | allocate bytes => exact fun hm => .inl (List.mem_append_left _ hm)
  | copyBatch items secrecy =>
      simp only [effect]
      split
      · intro hm
        exact .inl (List.mem_append_left _ (OwnedBatch.mem_blocks_of_secret hm))
      · exact fun hm => by cases hm
  | createPool count blockSize =>
      simp only [effect]
      split
      · exact fun hm => .inr hm
      · exact fun hm => by cases hm
  | input s bytes secrecy =>
      intro hm
      have hm := (List.mem_filter.mp hm).1
      exact .inl (List.mem_append_left _ (Scope.mem_blocks_of_secret hm))
  | inputBatch s items =>
      intro hm
      have hm := (List.mem_filter.mp hm).1
      exact .inl (List.mem_append_left _ (Scope.mem_blocks_of_secret hm))
  | adoptBatch raw =>
      simp only [effect]
      split <;> exact fun hm => by cases hm
  | acquire pool | acquireWith pool data | writeBlock b data =>
      simp only [effect]
      split <;> exact fun hm => by cases hm
  | refuse _ | flagBuffer _ _ | handBuffer _ | dropBuffer _ | adoptBuffer _ | takeBuffer _
  | discardBuffer _ | handBatch _ | dropBatch _ | takeBatch _ | discardBatch _ | sharePool _
  | dropPool _ | dropBlock _ | openScope _ _ _ | endScope _ | nativeBuffer _ _
  | nativeBatch _ _ _ | nativeWrite _ _ _ => exact fun hm => by cases hm

namespace Ledger

variable {s : Ledger}

/-- Every holder is faithful to the marks of the ledger. -/
structure Marked (s : Ledger) : Prop where
  holders : ∀ x ∈ s.holders, x.Faithful s.process.heap s.secrets s.crossed
  secrets : Memory.Old s.process.heap s.secrets
  crossed : Memory.Old s.process.heap s.crossed

theorem marked_empty : Marked {} where
  holders := fun x hm => by cases hm
  secrets := fun id hm => by cases hm
  crossed := fun id hm => by cases hm

/-- Holders that an operation does not concern stay faithful, because nothing that they hold is
marked by it. -/
theorem Marked.settle {e : Effect} {old others : List Holder} (hm : s.Marked)
    (hold : ∀ x ∈ others, x ∈ s.holders) (ha : s.memory.Accounts (old ++ others))
    (ht : s.memory.Trade old e.process.memory e.gained)
    (hsecrets : ∀ id ∈ e.secrets, id ∈ blocksOf e.gained ∨ id ∈ poolsOf e.gained)
    (hgained : ∀ x ∈ e.gained, x.Faithful e.process.heap (e.secrets ++ s.secrets)
      (blocksOf (e.gained.filter Holder.isNative) ++ s.crossed)) : (s.settle e others).Marked := by
  obtain ⟨ha', hspares⟩ := ht others ha
  have hnative : ∀ id ∈ blocksOf (e.gained.filter Holder.isNative), id ∈ blocksOf e.gained := by
    intro id hid
    obtain ⟨x, hx, hid⟩ := List.mem_flatMap.mp hid
    exact List.mem_flatMap.mpr ⟨x, (List.mem_filter.mp hx).1, hid⟩
  have hlive : ∀ id, id ∈ blocksOf e.gained → id < e.process.heap.next := fun id hid =>
    ha'.sound.lt_next (ha'.has.live (by simp [hid]))
  have hsecretLive : ∀ id ∈ e.secrets, id < e.process.heap.next := by
    intro id hid
    rcases hsecrets id hid with hid | hid
    · exact hlive id hid
    · obtain ⟨p, hp⟩ : ∃ p, e.process.memory.pool? id = some p := ha'.pool_live (by simp [hid])
      exact ha'.sound.lt_next (ha'.region_live hp)
  refine ⟨fun x hx => ?_, fun id hid => ?_, fun id hid => ?_⟩
  · rcases List.mem_append.mp hx with hx | hx
    · exact hgained x hx
    · have hblocks : ∀ id ∈ x.blocks, id ∈ blocksOf others := fun id hid =>
        List.mem_flatMap.mpr ⟨x, hx, hid⟩
      have hdisjoint : ∀ id ∈ x.blocks, id ∉ blocksOf e.gained := fun id hid hg =>
        ha'.disjoint hg (hblocks id hid)
      refine (hm.holders x (hold x hx)).frame (fun id hid => hspares.kept id (hblocks id hid))
        (fun id hid hmark => ?_) fun id hid hmark => ?_
      · rcases List.mem_append.mp hmark with hmark | hmark
        · rcases hsecrets id hmark with hg | hg
          · exact absurd hg (hdisjoint id hid)
          · obtain ⟨p, hp⟩ : ∃ p, e.process.memory.pool? id = some p :=
              ha'.pool_live (by simp [hg])
            rw [ha'.pool?_of_held (by simp [hblocks id hid])] at hp
            cases hp
        · exact hmark
      · rcases List.mem_append.mp hmark with hmark | hmark
        · exact absurd (hnative id hmark) (hdisjoint id hid)
        · exact hmark
  · rcases List.mem_append.mp hid with hid | hid
    · exact hsecretLive id hid
    · exact Nat.lt_of_lt_of_le (hm.secrets id hid) hspares.next
  · rcases List.mem_append.mp hid with hid | hid
    · exact hlive id (hnative id hid)
    · exact Nat.lt_of_lt_of_le (hm.crossed id hid) hspares.next

/-- Operations keep every holder faithful. -/
theorem Marked.act (hb : s.Balanced) (hm : s.Marked) (op : Memory.Operation) :
    (s.act op).Marked := by
  have hstep : ∀ others, (∀ x ∈ op.owner?.toList ++ others, x ∈ s.holders) →
      s.memory.Accounts (op.owner?.toList ++ others) →
      (s.settle (op.effect s.process) others).Marked := by
    intro others hsub ha
    refine hm.settle (fun x hx => hsub x (List.mem_append_right _ hx)) ha (op.trade s.process)
      (op.secrets_held s.process) ?_
    exact Memory.Operation.faithful ha
      (fun x hx => hm.holders x (hsub x (List.mem_append_left _ hx))) hm.secrets hm.crossed
  unfold Ledger.act Ledger.perform
  cases howner : op.owner? with
  | none =>
      rw [howner] at hstep
      exact hstep s.holders (fun x hx => hx) hb
  | some x =>
      rw [howner] at hstep
      simp only
      split
      · rename_i hx
        have hsplit := hb.congr (.of_perm (List.perm_cons_erase hx))
        refine hstep (s.holders.erase x) (fun y hy => ?_) hsplit
        rcases List.mem_cons.mp hy with rfl | hy
        · exact hx
        · exact List.mem_of_mem_erase hy
      · exact hm

/-- Every holder is faithful after every run. -/
theorem marked_after (ops : List Memory.Operation) : (after ops).Marked := by
  have hboth := after_induction (P := fun s => s.Balanced ∧ s.Marked)
    ⟨balanced_empty, marked_empty⟩ (fun s op hs => ⟨hs.1.act op, hs.2.act hs.1 op⟩) ops
  exact hboth.2

end Ledger

end NativeBoundary

import NativeBoundary.Proofs.Memory.CleanPools
import NativeBoundary.Proofs.Process.Shortage

/-!
# Every operation keeps pools clean

What an operation does to pools is one of three things: it works on the heap alone, and then it
changes no block from before but those of the holder that it names (`Heap.Confined`); or it is one
of the operations on pools and their blocks; or it marshals or ends a scope, which does both in
turn.  So each of them is a trade that keeps pools clean and leaves alone what others hold.

* `Memory.Operation.tends`, `Process.Operation.tends` — every operation, as such a trade;
* `Memory.tends_endScope` — the end of a scope, copy by copy;
* `Ledger.tended_work` — one step of a run, beside whoever is not in the ledger.
-/

namespace NativeBoundary

open Memory (SameHoldings Tends tends_heap)

namespace Heap

variable {h : Heap}

theorem confined_dropBuffer (b : OwnedBuffer) (h : Heap) : h.Confined b.blocks (b.drop h) := by
  unfold OwnedBuffer.drop OwnedBuffer.blocks
  cases b.block? with
  | none => exact .refl h []
  | some id => exact h.confined_release id _ _

theorem confined_discardBuffer (raw : RawBuffer) (h : Heap) :
    h.Confined raw.data.block?.toList (raw.discard h) := by
  have hdrop := confined_dropBuffer (.adopt raw) h
  rw [OwnedBuffer.blocks, OwnedBuffer.block?_adopt] at hdrop
  exact hdrop

theorem confined_takeBuffer (raw : RawBuffer) (h : Heap) :
    h.Confined raw.data.block?.toList (raw.take h).2 := by
  unfold RawBuffer.take
  split
  · exact .refl h _
  · exact confined_discardBuffer raw h

theorem confined_dropSizes (b : OwnedBatch) (h : Heap) :
    h.Confined b.sizes?.toList (b.dropSizes h) := by
  unfold OwnedBatch.dropSizes
  cases b.sizes? with
  | none => exact .refl h []
  | some id => exact h.confined_free id _

theorem confined_dropBatch (b : OwnedBatch) (h : Heap) : h.Confined b.blocks (b.drop h) := by
  unfold OwnedBatch.drop OwnedBatch.blocks
  cases b.data? with
  | none => exact confined_dropSizes b h
  | some id =>
      have hdata : h.Confined ([id] ++ b.sizes?.toList)
          (h.release id b.total (b.secrecy = .secret)) :=
        (h.confined_release id _ _).mono fun j hj => List.mem_append_left _ hj
      exact hdata.append (confined_dropSizes b _) fun j hj _ => List.mem_append_right _ hj

theorem confined_freeRejected (table : Pointer) (h : Heap) :
    h.Confined table.block?.toList (OwnedBatch.freeRejected table h) := by
  unfold OwnedBatch.freeRejected
  cases table.block? with
  | none => exact .refl h []
  | some id => exact h.confined_free id _

/-- A batch that is taken over is left alone, and a malformed one loses its tables. -/
theorem confined_adoptBatch (raw : RawBatch) (h : Heap) :
    h.Confined raw.blocks (OwnedBatch.adopt raw h).2 := by
  unfold OwnedBatch.adopt RawBatch.blocks
  split
  · have hdata : h.Confined (raw.data.block?.toList ++ raw.sizes.block?.toList)
        (OwnedBatch.freeRejected raw.data h) :=
      (confined_freeRejected raw.data h).mono fun j hj => List.mem_append_left _ hj
    exact hdata.append (confined_freeRejected raw.sizes _) fun j hj _ => List.mem_append_right _ hj
  · exact .refl h _

theorem confined_discardBatch (raw : RawBatch) (h : Heap) :
    h.Confined raw.blocks (raw.discard h).2 := by
  have hadopted := confined_adoptBatch raw h
  unfold RawBatch.discard
  split <;> rename_i hadopt <;> rw [hadopt] at hadopted
  · have hblocks := (OwnedBatch.adopt_ok hadopt).2
    exact hadopted.append (confined_dropBatch _ _) fun j hj _ => hblocks ▸ hj
  · exact hadopted

theorem confined_nativeTable (content? : Option Bytes) (h : Heap) :
    h.Confined [] (Memory.nativeTable h content?).2 := by
  unfold Memory.nativeTable
  cases content? with
  | none => exact .refl h []
  | some content => exact confined_request rfl

theorem confined_nativeWrite (x : Holder) (offset : Nat) (data : Bytes) (h : Heap) :
    h.Confined x.blocks (Memory.nativeWrite h x offset data) := by
  unfold Memory.nativeWrite
  cases hw : Memory.writable? x with
  | none => exact .refl h _
  | some id =>
      simp only
      split
      · refine (h.confined_update id _).mono fun j hj => ?_
        rw [List.mem_singleton.mp hj]
        cases x <;> simp only [Memory.writable?, reduceCtorEq] at hw
        · simp [Holder.blocks, hw]
        · simp [Holder.blocks, RawBatch.blocks, hw]
      · exact .refl h _

end Heap

namespace Memory

variable {m m' : Memory} {s s' : Scope}

@[simp] theorem poolBlocks_holder (copy : ScopeCopy) : copy.holder.poolBlocks = copy.poolBlocks := by
  cases copy <;> rfl

theorem poolBlocksOf_copies (copies : List ScopeCopy) :
    poolBlocksOf (copies.map ScopeCopy.holder) = copies.flatMap ScopeCopy.poolBlocks := by
  rw [poolBlocksOf, List.flatMap_map]
  exact List.flatMap_congr fun copy _ => poolBlocks_holder copy

theorem poolBlocksOf_poolHolder (s : Scope) : poolBlocksOf s.poolHolder = [] := by
  unfold Scope.poolHolder
  cases s.pool? <;> rfl

/-- A scope holds what its copies and its pool do. -/
theorem holdings_scope (s : Scope) :
    SameHoldings [.scope s] (s.copies.map ScopeCopy.holder ++ s.poolHolder) := by
  refine ⟨stakes_scope s, fun b => ?_⟩
  rw [poolBlocksOf_append, poolBlocksOf_copies, poolBlocksOf_poolHolder]
  simp [Holder.poolBlocks]

/-- Copies that were made with the help of the pool of a scope alone. -/
theorem tends_extends {added : List ScopeCopy}
    (ht : m.Tends s.poolHolder m' (added.map ScopeCopy.holder ++ s.poolHolder)) :
    m.Tends [.scope s] m' [.scope { s with copies := added ++ s.copies }] := by
  have hold := (holdings_scope s).trans (.of_perm List.perm_append_comm)
  have hnew := (holdings_scope { s with copies := added ++ s.copies }).symm
  refine (ht.frame (s.copies.map ScopeCopy.holder)).congr hold (SameHoldings.trans ?_ hnew)
  rw [List.map_append, List.append_assoc, List.append_assoc]
  exact SameHoldings.append_left (.of_perm List.perm_append_comm) (added.map ScopeCopy.holder)

theorem tends_copyBuffer {bytes : Bytes} {secrecy : Secrecy} {h' : Heap} {b : OwnedBuffer}
    (hc : OwnedBuffer.copyFrom bytes secrecy m.heap = (.ok b, h')) :
    m.Tends [] { m with heap := h' } [.buffer b] :=
  tends_heap (trade_copyBuffer hc) rfl (OwnedBuffer.attempt_copyFrom hc).confined fun _ hb => hb

/-- The rule of a scope for public copies does not change what a copy holds. -/
theorem tends_copyForScope {bytes : Bytes} {secrecy : Secrecy} {h' : Heap} {b : OwnedBuffer}
    (hc : OwnedBuffer.copyFrom bytes secrecy m.heap = (.ok b, h')) (wipePublic : Bool) :
    m.Tends [] { m with heap := h' } [(ScopeCopy.heap { b with wipePublic }).holder] :=
  (tends_copyBuffer hc).congr (.refl []) ⟨⟨fun _ => rfl, fun _ => rfl, fun _ => rfl⟩, fun _ => .rfl⟩

theorem tends_copyBuffer_error {bytes : Bytes} {secrecy : Secrecy} {h' : Heap} {fault : Fault}
    (hc : OwnedBuffer.copyFrom bytes secrecy m.heap = (.error fault, h')) :
    m.Tends [] { m with heap := h' } [] :=
  tends_heap (trade_copyBuffer_error hc) rfl (OwnedBuffer.attempt_copyFrom_error hc).2.confined
    fun _ hb => hb

theorem tends_copyBatch {items : List Bytes} {secrecy : Secrecy} {h' : Heap} {b : OwnedBatch}
    (hc : OwnedBatch.copyFrom items secrecy m.heap = (.ok b, h')) :
    m.Tends [] { m with heap := h' } [.batch b] :=
  tends_heap (trade_copyBatch hc) rfl (OwnedBatch.attempt_copyFrom hc).confined fun _ hb => hb

theorem tends_copyBatch_error {items : List Bytes} {secrecy : Secrecy} {h' : Heap} {fault : Fault}
    (hc : OwnedBatch.copyFrom items secrecy m.heap = (.error fault, h')) :
    m.Tends [] { m with heap := h' } [] :=
  tends_heap (trade_copyBatch_error hc) rfl (OwnedBatch.attempt_copyFrom_error hc).2.confined
    fun _ hb => hb

theorem tends_dropBuffer (m : Memory) (b : OwnedBuffer) :
    m.Tends [.buffer b] { m with heap := b.drop m.heap } [] := by
  refine tends_heap (trade_dropBuffer m b) rfl ?_ fun _ hb => by cases hb
  simpa [Holder.blocks] using Heap.confined_dropBuffer b m.heap

theorem tends_dropBatch (m : Memory) (b : OwnedBatch) :
    m.Tends [.batch b] { m with heap := b.drop m.heap } [] := by
  refine tends_heap (trade_dropBatch m b) rfl ?_ fun _ hb => by cases hb
  simpa [Holder.blocks] using Heap.confined_dropBatch b m.heap

theorem tends_inputBlock {bytes : Bytes} {b : PoolBlock}
    (hc : m.inputBlock s bytes = (some b, m')) :
    m.Tends s.poolHolder m' ([ScopeCopy.pooled b].map ScopeCopy.holder ++ s.poolHolder) := by
  obtain ⟨id, hpool, hacquire⟩ := inputBlock_some hc
  unfold Scope.poolHolder
  rw [hpool]
  exact (tends_acquireWith hacquire).congr (.refl _) (.of_perm (List.Perm.swap _ _ _))

/-- An input keeps pools clean, wherever its copy is made. -/
theorem tends_input {bytes : Bytes} {secrecy : Secrecy} {result : Except Fault RawBuffer}
    (hc : m.input s bytes secrecy = (result, s', m')) : m.Tends [.scope s] m' [.scope s'] := by
  rcases input_cases hc with ⟨rfl, rfl⟩ | ⟨fault, h', hcopy, rfl, rfl⟩ | ⟨b, hblock, rfl⟩ |
    ⟨b, h', hcopy, rfl, rfl⟩
  · exact .refl _ _
  · exact (tends_copyBuffer_error hcopy).frame _
  · exact tends_extends (tends_inputBlock hblock)
  · have hmade : m.Tends s.poolHolder { m with heap := h' }
        ([ScopeCopy.heap { b with wipePublic := s.wipePublic }].map ScopeCopy.holder ++
          s.poolHolder) := (tends_copyForScope hcopy s.wipePublic).frame s.poolHolder
    exact tends_extends hmade

theorem tends_inputBatch {items : List Bytes} {result : Except Fault RawBatch}
    (hc : m.inputBatch s items = (result, s', m')) : m.Tends [.scope s] m' [.scope s'] := by
  rcases inputBatch_cases hc with ⟨fault, h', hcopy, rfl, rfl⟩ | ⟨b, h', hcopy, rfl, rfl⟩
  · exact (tends_copyBatch_error hcopy).frame _
  · have hmade : m.Tends s.poolHolder { m with heap := h' }
        ([ScopeCopy.batch b].map ScopeCopy.holder ++ s.poolHolder) :=
      (tends_copyBatch hcopy).frame s.poolHolder
    exact tends_extends hmade

theorem tends_releaseCopy (m : Memory) (copy : ScopeCopy) :
    m.Tends [copy.holder] (m.releaseCopy copy) [] := by
  cases copy with
  | pooled b => exact tends_releaseBlock m b
  | heap b => exact tends_dropBuffer m b
  | batch b => exact tends_dropBatch m b

theorem tends_releaseCopies (m : Memory) (copies : List ScopeCopy) :
    m.Tends (copies.map ScopeCopy.holder) (m.releaseCopies copies) [] := by
  induction copies generalizing m with
  | nil => exact .refl _ _
  | cons copy copies ih =>
      have hfirst := (tends_releaseCopy m copy).frame (copies.map ScopeCopy.holder)
      exact hfirst.trans (ih (m.releaseCopy copy))

/-- A scope that leaves its pool is one user of it fewer. -/
theorem tends_leavePool (m : Memory) (s : Scope) :
    m.Tends s.poolHolder (match s.pool? with | none => m | some id => m.dropPool id) [] := by
  unfold Scope.poolHolder
  cases s.pool? with
  | none => exact .refl _ _
  | some id => exact tends_dropPool m id

/-- A scope that ends gives back its copies one by one, and its share of its pool. -/
theorem tends_endScope (m : Memory) (s : Scope) : m.Tends [.scope s] (m.endScope s) [] := by
  have hcopies := (tends_releaseCopies m s.copies).frame s.poolHolder
  exact (hcopies.trans (tends_leavePool _ s)).congr (holdings_scope s) (.refl [])

/-- A scope that gets a pool leaves the one that it had. -/
theorem tends_equip (m : Memory) (s : Scope) (id : PoolId) :
    m.Tends [.scope s, .pool id] (m.equip s id).2 [.scope (m.equip s id).1] := by
  have hleave := (tends_leavePool m s).frame (s.copies.map ScopeCopy.holder ++ [.pool id])
  refine hleave.congr ?_ (holdings_scope (m.equip s id).1).symm
  have hparts := (holdings_scope s).trans (.of_perm List.perm_append_comm)
  rw [← List.append_assoc]
  exact hparts.append_right [.pool id]

/-- Work on the heap alone, by a holder that has no block of a pool. -/
theorem tends_holder {x : Holder} {new : List Holder} (ht : m.Trade [x] m' new)
    (hpools : m'.pools = m.pools) (hc : m.heap.Confined x.blocks m'.heap)
    (hheld : poolBlocksOf new = []) : m.Tends [x] m' new := by
  refine tends_heap ht hpools ?_ fun b hb => ?_
  · rw [blocksOf_cons, blocksOf_nil, List.append_nil]
    exact hc
  · rw [hheld] at hb
    cases hb

/-- Holders that only change hands. -/
theorem tends_exchange {x y : Holder} (hs : SameStakes [x] [y]) (hx : x.poolBlocks = [])
    (hy : y.poolBlocks = []) : m.Tends [x] m [y] := by
  refine (Tends.refl m [x]).congr (.refl _) ⟨hs, fun b => ?_⟩
  simp [hx, hy]

/-- Every operation keeps pools clean. -/
theorem Operation.tends (p : Process) (op : Operation) :
    p.memory.Tends op.owner?.toList (op.effect p).process.memory (op.effect p).gained := by
  have ht := op.trade p
  cases op with
  | refuse granted =>
      exact tends_heap ht rfl ⟨Nat.le_refl _, List.suffix_refl _, fun _ _ _ => rfl⟩ fun _ hb => hb
  | copyBuffer bytes secrecy =>
      simp only [effect]
      split <;> rename_i hcopy
      · exact tends_copyBuffer hcopy
      · exact tends_copyBuffer_error hcopy
  | flagBuffer b wipePublic =>
      exact tends_exchange ⟨fun _ => rfl, fun _ => rfl, fun _ => rfl⟩ rfl rfl
  | handBuffer b => exact tends_exchange (stakes_rawBuffer b) rfl rfl
  | dropBuffer b => exact tends_dropBuffer p.memory b
  | allocate bytes =>
      obtain ⟨ok, htries, -⟩ := RawBuffer.tries_allocate bytes p.heap
      exact tends_heap ht rfl htries.confined fun _ hb => by cases hb
  | adoptBuffer raw => exact tends_exchange (stakes_adoptBuffer raw) rfl rfl
  | takeBuffer raw =>
      refine tends_holder ht rfl (Heap.confined_takeBuffer raw p.heap) ?_
      simp only [effect]
      split <;> rfl
  | discardBuffer raw => exact tends_holder ht rfl (Heap.confined_discardBuffer raw p.heap) rfl
  | copyBatch items secrecy =>
      simp only [effect]
      split <;> rename_i hcopy
      · exact tends_copyBatch hcopy
      · exact tends_copyBatch_error hcopy
  | handBatch b => exact tends_exchange (stakes_rawBatch b) rfl rfl
  | dropBatch b => exact tends_dropBatch p.memory b
  | adoptBatch raw =>
      have hconfined := Heap.confined_adoptBatch raw p.heap
      simp only [effect, Process.adoptBatch] at ht ⊢
      rcases hadopt : OwnedBatch.adopt raw p.heap with ⟨reason | b, h⟩ <;>
        rw [hadopt] at ht hconfined <;> exact tends_holder ht rfl hconfined rfl
  | takeBatch raw =>
      have hmemory := memory_takeBatch p raw
      rw [heap_take_eq_discard] at hmemory
      refine tends_holder ht ?_ ?_ rfl
      · exact (congrArg pools hmemory).trans rfl
      · exact (congrArg heap hmemory) ▸ Heap.confined_discardBatch raw p.heap
  | discardBatch raw =>
      have hmemory := memory_discardBatch p raw
      refine tends_holder ht ?_ ?_ rfl
      · exact (congrArg pools hmemory).trans rfl
      · exact (congrArg heap hmemory) ▸ Heap.confined_discardBatch raw p.heap
  | createPool count blockSize =>
      simp only [effect]
      split <;> rename_i hcreate
      · exact tends_createPool hcreate
      · exact tends_createPool_none hcreate
  | sharePool id => exact tends_sharePool p.memory id
  | dropPool id => exact tends_dropPool p.memory id
  | acquire id =>
      simp only [effect]
      split <;> rename_i hacquire
      · exact tends_acquire hacquire
      · rw [acquire_none hacquire]
        exact .refl _ _
  | acquireWith id data =>
      simp only [effect]
      split <;> rename_i hacquire
      · exact tends_acquireWith hacquire
      · rw [acquireWith_none hacquire]
        exact .refl _ _
  | writeBlock b data =>
      simp only [effect]
      split <;> rename_i hwrite
      · exact tends_writeBlock hwrite
      · rw [writeBlock_none hwrite]
        exact .refl _ _
  | dropBlock b => exact tends_releaseBlock p.memory b
  | openScope strategy pool? wipePublic =>
      cases pool? with
      | none =>
          exact (Tends.refl p.memory []).congr (.refl _)
            ⟨⟨fun _ => rfl, fun _ => rfl, fun _ => rfl⟩, fun _ => .rfl⟩
      | some id =>
          exact (tends_sharePool p.memory id).congr (.refl _)
            ⟨⟨fun _ => rfl, fun _ => rfl, fun _ => rfl⟩, fun _ => .rfl⟩
  | input s bytes secrecy => exact tends_input rfl
  | inputBatch s items => exact tends_inputBatch rfl
  | endScope s => exact tends_endScope p.memory s
  | nativeBuffer content size =>
      exact tends_heap ht rfl (Heap.confined_nativeTable (some content) p.heap) fun _ hb => hb
  | nativeBatch data sizes count =>
      refine tends_heap ht rfl ?_ fun _ hb => hb
      exact (Heap.confined_nativeTable data p.heap).trans (Heap.confined_nativeTable sizes _)
  | nativeWrite x offset data =>
      refine tends_heap ht rfl ?_ fun _ hb => hb
      change p.heap.Confined (blocksOf [x]) (Memory.nativeWrite p.heap x offset data)
      rw [blocksOf_cons, blocksOf_nil, List.append_nil]
      exact Heap.confined_nativeWrite x offset data p.heap

end Memory

namespace Process

variable {p p' : Process}

theorem poolBlocksOf_inBuffer (out : Option RawBuffer) : poolBlocksOf (inBuffer out) = [] := by
  cases out <;> rfl

theorem poolBlocksOf_inBatch (out : Option RawBatch) : poolBlocksOf (inBatch out) = [] := by
  cases out <;> rfl

/-- Native code is handed no block of a pool. -/
theorem Callback.poolBlocksOf_given (c : Callback) (answer : c.Answer) :
    poolBlocksOf (c.given answer) = [] := by
  cases c with
  | encapsulate encapsulationKey seed ciphertext secret =>
      simp [given, poolBlocksOf_inBuffer]
  | decapsulate key ciphertext out | derivePublic key out => exact poolBlocksOf_inBuffer _
  | send context receiver message => rfl
  | receive context sender out =>
      simp only [given, ReceiveReply.given]
      split
      · exact poolBlocksOf_inBuffer _
      · rfl
  | receiveAll context senders count out =>
      simp only [given, ReceiveAllReply.given]
      split
      · exact poolBlocksOf_inBatch _
      · rfl

/-- An entry point makes at most something new. -/
theorem Callback.tends (p : Process) (c : Callback) :
    p.memory.Tends [] (c.run p).2.memory (c.given (c.run p).1) := by
  obtain ⟨ok, htries, hpools, -⟩ := c.supplies p
  refine tends_heap (c.trade p) hpools htries.confined fun b hb => ?_
  rw [c.poolBlocksOf_given] at hb
  cases hb

/-- A bridge holds what a pool value does. -/
theorem holdings_bridge (b : Bridge) : SameHoldings (b.pool?.toList.map .pool) [.bridge b] := by
  refine ⟨stakes_bridge b, fun c => ?_⟩
  cases b.pool? <;> simp [Holder.poolBlocks]

theorem tends_bridgeOf {b : Bridge} {c : Config} (hc : p.bridgeOf c = (.ok b, p')) :
    p.memory.Tends [] p'.memory [.bridge b] := by
  rcases bridgeOf_ok hc with ⟨id, memory, hcreate, rfl, rfl⟩ | ⟨rfl, rfl⟩
  · exact (Memory.tends_createPool hcreate).congr (.refl []) (holdings_bridge ⟨c, some id⟩)
  · exact (Tends.refl _ _).congr (.refl []) (holdings_bridge ⟨c, none⟩)

theorem tends_bridgeOf_error {fault : Fault} {c : Config}
    (hc : p.bridgeOf c = (.error fault, p')) : p.memory.Tends [] p'.memory [] := by
  rcases bridgeOf_error hc with ⟨memory, hcreate, rfl⟩ | rfl
  · exact Memory.tends_createPool_none hcreate
  · exact .refl _ _

theorem tends_defaultBridge (p : Process) :
    p.memory.Tends [] p.defaultBridge.2.memory [.bridge p.defaultBridge.1] := by
  unfold defaultBridge
  rcases hcreate : p.memory.createPool defaultBlocks defaultBlockSize with ⟨_ | id, memory⟩
  · exact (Memory.tends_createPool_none hcreate).congr (.refl []) (holdings_bridge ⟨_, none⟩)
  · exact (Memory.tends_createPool hcreate).congr (.refl []) (holdings_bridge ⟨_, some id⟩)

/-- One more user of the pool of a bridge, whoever it is. -/
theorem tends_sharePool? {x : Holder} (p : Process) (b : Bridge)
    (hx : SameHoldings (b.pool?.toList.map .pool) [x]) :
    p.memory.Tends [.bridge b] (p.sharePool? b.pool?).memory [x, .bridge b] := by
  have hbridge := holdings_bridge b
  have hnew := (hx.append_right _).trans (hbridge.append_left [x])
  unfold sharePool?
  cases hpool : b.pool? with
  | none =>
      rw [hpool] at hbridge hnew
      exact (Tends.refl _ _).congr hbridge.symm hnew
  | some id =>
      rw [hpool] at hbridge hnew
      exact (Memory.tends_sharePool p.memory id).congr hbridge.symm hnew

theorem tends_dropBridge (p : Process) (b : Bridge) :
    p.memory.Tends [.bridge b] (p.dropBridge b).memory [] := by
  have hbridge := holdings_bridge b
  unfold dropBridge dropPool?
  cases hpool : b.pool? with
  | none =>
      rw [hpool] at hbridge
      exact (Tends.refl _ _).congr hbridge.symm (.refl [])
  | some id =>
      rw [hpool] at hbridge
      exact (Memory.tends_dropPool p.memory id).congr hbridge.symm (.refl [])

/-- Every operation keeps pools clean. -/
theorem Operation.tends (p : Process) (op : Operation) :
    p.memory.Tends op.owner?.toList (op.effect p).process.memory (op.effect p).gained := by
  have hsame : ∀ {q : Process}, q.memory = p.memory → p.memory.Tends [] q.memory [] := by
    intro q hq
    rw [hq]
    exact .refl _ _
  cases op with
  | memory op => exact op.tends p
  | createBridge c =>
      simp only [effect]
      split <;> rename_i hcreate
      · exact tends_bridgeOf hcreate
      · exact tends_bridgeOf_error hcreate
  | defaultBridge => exact p.tends_defaultBridge
  | shareBridge b => exact p.tends_sharePool? b (holdings_bridge b)
  | dropBridge b => exact p.tends_dropBridge b
  | bridgePool b =>
      exact (p.tends_sharePool? b (holdings_bridge b)).congr (.refl _)
        ((holdings_bridge b).symm.append_right [.bridge b])
  | bridgeScope b shape =>
      exact p.tends_sharePool? b (Memory.holdings_scope (b.scope shape)).symm
  | call c => exact c.tends p
  | bind policy => exact hsame (p.memory_bind policy)
  | unbind b => exact hsame (p.memory_unbind b)
  | setSlot pointer => exact hsame (p.memory_setSlot pointer)
  | release r handle => exact hsame (p.memory_releaseHandle r handle)
  | dropGuard g => exact hsame (p.memory_dropGuard g)
  | closeTransport s => exact hsame (p.memory_dropGuard s.guard)
  | clearSlot | createRegistry | register _ _ | addTransport _ | addMesh _ | openTransport _ =>
      exact .refl _ _

end Process

namespace Ledger

variable {s : Ledger} {extra : List Holder}

/-- One operation leaves alone whoever is not among the holders of the ledger. -/
theorem tended_work (op : Process.Operation) (ha : s.memory.Accounts (s.holders ++ extra))
    (hc : s.memory.Clean (s.holders ++ extra)) :
    s.memory.Tended extra (s.work op).memory ((s.work op).holders ++ extra) := by
  have htends := op.tends s.process
  unfold Ledger.work Ledger.perform
  cases howner : op.owner? with
  | none =>
      rw [howner] at htends
      have hdone := (htends (s.holders ++ extra) ha hc).mono
      rw [← List.append_assoc] at hdone
      exact hdone
  | some x =>
      rw [howner] at htends
      simp only
      split
      · rename_i hx
        have hsplit : SameHoldings (s.holders ++ extra) ([x] ++ (s.holders.erase x ++ extra)) :=
          SameHoldings.append_right (.of_perm (List.perm_cons_erase hx)) extra
        have hdone := (htends (s.holders.erase x ++ extra) (ha.congr hsplit.stakes)
          (hc.congr hsplit)).mono
        rw [← List.append_assoc] at hdone
        exact hdone
      · exact .refl ha hc

end Ledger

end NativeBoundary

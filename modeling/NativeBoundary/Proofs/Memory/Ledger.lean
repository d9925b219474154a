import NativeBoundary.Proofs.Memory.Scopes

/-!
# The ledger of native memory

A ledger is a process together with everybody who holds native memory: host code, which holds
owned buffers and batches, pools, blocks and scopes, and native code, which holds what it was
handed.  Operations change both sides at once.  An operation that consumes or changes a holder
names it, and nothing happens when the ledger has no such holder; so nothing is used after it was
given up, and nothing is given back twice.

Native code is free in what it does with its own memory: it may hand in buffers and batches that
it allocated itself, with any size field, and it may write into every data block that it holds.

`Memory.Operation.trade` says that every operation trades the holder it names for the holders it
leaves behind, and `Ledger.balanced_after` follows for whole runs: the books of memory agree with
the holders, whatever was done in whatever order.

Two lists are kept beside the books and never read by an operation: the data blocks that were
allocated for a secret owner, and the blocks that native code has held.
-/

namespace NativeBoundary

/-- What an operation does: the process after it, and the holders that it leaves behind. -/
structure Effect where
  process : Process
  gained : List Holder
  /-- The data blocks that were allocated for a secret owner. -/
  secrets : List BlockId := []

/-- A process and everybody who holds native memory. -/
structure Ledger where
  process : Process := {}
  holders : List Holder := []
  /-- The data blocks that were allocated for a secret owner so far. -/
  secrets : List BlockId := []
  /-- The blocks that native code holds or has held. -/
  crossed : List BlockId := []

namespace Ledger

/-- The memory of the process. -/
def memory (s : Ledger) : Memory := s.process.memory

/-- The ledger after an effect, beside the holders that it did not concern. -/
def settle (s : Ledger) (e : Effect) (others : List Holder) : Ledger where
  process := e.process
  holders := e.gained ++ others
  secrets := e.secrets ++ s.secrets
  crossed := blocksOf (e.gained.filter Holder.isNative) ++ s.crossed

/-- An operation that concerns one holder, or none.  Nothing happens when that holder is not
there. -/
def perform (s : Ledger) (owner? : Option Holder) (effect : Process → Effect) : Ledger :=
  match owner? with
  | none => s.settle (effect s.process) s.holders
  | some x => if x ∈ s.holders then s.settle (effect s.process) (s.holders.erase x) else s

/-- The books of memory agree with the holders. -/
def Balanced (s : Ledger) : Prop := s.memory.Accounts s.holders

end Ledger

/-- The block of a buffer that is secret. -/
def OwnedBuffer.secretBlocks (b : OwnedBuffer) : List BlockId :=
  if b.secrecy = .secret then b.blocks else []

/-- The data block of a batch that is secret. -/
def OwnedBatch.secretBlocks (b : OwnedBatch) : List BlockId :=
  if b.secrecy = .secret then b.data?.toList else []

/-- The data block of a copy that is secret. -/
def ScopeCopy.secretBlocks : ScopeCopy → List BlockId
  | pooled _ => []
  | heap b => b.secretBlocks
  | batch b => b.secretBlocks

/-- The data blocks of the secret copies of a scope. -/
def Scope.secretBlocks (s : Scope) : List BlockId := s.copies.flatMap ScopeCopy.secretBlocks

section

variable {id : BlockId}

theorem OwnedBuffer.mem_blocks_of_secret {b : OwnedBuffer} (hm : id ∈ b.secretBlocks) :
    id ∈ b.blocks := by
  unfold secretBlocks at hm
  split at hm
  · exact hm
  · cases hm

theorem OwnedBatch.mem_blocks_of_secret {b : OwnedBatch} (hm : id ∈ b.secretBlocks) :
    id ∈ b.blocks := by
  unfold secretBlocks at hm
  split at hm
  · exact List.mem_append_left _ hm
  · cases hm

theorem ScopeCopy.mem_blocks_of_secret {copy : ScopeCopy} (hm : id ∈ copy.secretBlocks) :
    id ∈ copy.blocks := by
  cases copy with
  | pooled b => cases hm
  | heap b => exact OwnedBuffer.mem_blocks_of_secret hm
  | batch b => exact OwnedBatch.mem_blocks_of_secret hm

theorem Scope.mem_blocks_of_secret {s : Scope} (hm : id ∈ s.secretBlocks) : id ∈ s.blocks := by
  obtain ⟨copy, hcopy, hm⟩ := List.mem_flatMap.mp hm
  exact List.mem_flatMap.mpr ⟨copy, hcopy, ScopeCopy.mem_blocks_of_secret hm⟩

end

namespace Memory

/-- What host code and native code do with native memory. -/
inductive Operation
  /-- The allocator refuses the request that so many others come before. -/
  | refuse (granted : Option Nat)
  | copyBuffer (bytes : Bytes) (secrecy : Secrecy)
  | flagBuffer (b : OwnedBuffer) (wipePublic : Bool)
  | handBuffer (b : OwnedBuffer)
  | dropBuffer (b : OwnedBuffer)
  /-- A copy that is made for native code. -/
  | allocate (bytes : Bytes)
  | adoptBuffer (raw : RawBuffer)
  | takeBuffer (raw : RawBuffer)
  | discardBuffer (raw : RawBuffer)
  | copyBatch (items : List Bytes) (secrecy : Secrecy)
  | handBatch (b : OwnedBatch)
  | dropBatch (b : OwnedBatch)
  | adoptBatch (raw : RawBatch)
  | takeBatch (raw : RawBatch)
  | discardBatch (raw : RawBatch)
  | createPool (count blockSize : Nat)
  | sharePool (id : PoolId)
  | dropPool (id : PoolId)
  | acquire (id : PoolId)
  | acquireWith (id : PoolId) (data : Bytes)
  | writeBlock (b : PoolBlock) (data : Bytes)
  | dropBlock (b : PoolBlock)
  | openScope (strategy : Strategy) (pool? : Option PoolId) (wipePublic : Bool)
  | input (s : Scope) (bytes : Bytes) (secrecy : Secrecy)
  | inputBatch (s : Scope) (items : List Bytes)
  | endScope (s : Scope)
  /-- Native code makes a buffer of its own. -/
  | nativeBuffer (content : Bytes) (size : Int32)
  /-- Native code makes a batch of its own. -/
  | nativeBatch (data sizes : Option Bytes) (count : Int32)
  /-- Native code writes into the data of a buffer or batch that it holds. -/
  | nativeWrite (x : Holder) (offset : Nat) (data : Bytes)

/-- A block that native code makes, if it wants one and there is memory. -/
def nativeTable (h : Heap) (content? : Option Bytes) : Pointer × Heap :=
  match content? with
  | none => (.null, h)
  | some content =>
      let (id?, h) := h.request ⟨content.length, content⟩
      (.ofBlock? id?, h)

/-- The data block that native code may write into. -/
def writable? : Holder → Option BlockId
  | .rawBuffer raw => raw.data.block?
  | .rawBatch raw => raw.data.block?
  | _ => none

/-- Native code writes into a block that it holds, inside of it. -/
def nativeWrite (h : Heap) (x : Holder) (offset : Nat) (data : Bytes) : Heap :=
  match writable? x with
  | none => h
  | some id =>
      if (h.size? id).any (offset + data.length ≤ ·) then h.write id offset data else h

namespace Operation

/-- The holder that an operation consumes or changes. -/
def owner? : Operation → Option Holder
  | refuse _ | copyBuffer _ _ | allocate _ | copyBatch _ _ | createPool _ _ | nativeBuffer _ _
  | nativeBatch _ _ _ => none
  | flagBuffer b _ | handBuffer b | dropBuffer b => some (.buffer b)
  | adoptBuffer raw | takeBuffer raw | discardBuffer raw => some (.rawBuffer raw)
  | handBatch b | dropBatch b => some (.batch b)
  | adoptBatch raw | takeBatch raw | discardBatch raw => some (.rawBatch raw)
  | sharePool id | dropPool id | acquire id | acquireWith id _ => some (.pool id)
  | writeBlock b _ | dropBlock b => some (.block b)
  | openScope _ pool? _ => pool?.map .pool
  | input s _ _ | inputBatch s _ | endScope s => some (.scope s)
  | nativeWrite x _ _ => some x

/-- What an operation does. -/
def effect (p : Process) : Operation → Effect
  | refuse granted => ⟨p.setHeap { p.heap with granted }, [], []⟩
  | copyBuffer bytes secrecy =>
      match OwnedBuffer.copyFrom bytes secrecy p.heap with
      | (.ok b, h) => ⟨p.setHeap h, [.buffer b], b.secretBlocks⟩
      | (.error _, h) => ⟨p.setHeap h, [], []⟩
  | flagBuffer b wipePublic => ⟨p, [.buffer { b with wipePublic }], []⟩
  | handBuffer b => ⟨p, [.rawBuffer b.raw], []⟩
  | dropBuffer b => ⟨p.setHeap (b.drop p.heap), [], []⟩
  | allocate bytes =>
      let (raw, h) := RawBuffer.allocate bytes p.heap
      ⟨p.setHeap h, [.rawBuffer raw], raw.data.block?.toList⟩
  | adoptBuffer raw => ⟨p, [.buffer (.adopt raw)], []⟩
  | takeBuffer raw =>
      ⟨p.setHeap (raw.take p.heap).2, if raw.isEmpty then [.rawBuffer raw] else [], []⟩
  | discardBuffer raw => ⟨p.setHeap (raw.discard p.heap), [], []⟩
  | copyBatch items secrecy =>
      match OwnedBatch.copyFrom items secrecy p.heap with
      | (.ok b, h) => ⟨p.setHeap h, [.batch b], b.secretBlocks⟩
      | (.error _, h) => ⟨p.setHeap h, [], []⟩
  | handBatch b => ⟨p, [.rawBatch b.raw], []⟩
  | dropBatch b => ⟨p.setHeap (b.drop p.heap), [], []⟩
  | adoptBatch raw =>
      match p.adoptBatch raw with
      | (.ok b, p) => ⟨p, [.batch b], []⟩
      | (.error _, p) => ⟨p, [], []⟩
  | takeBatch raw => ⟨(p.takeBatch raw).2, [], []⟩
  | discardBatch raw => ⟨p.discardBatch raw, [], []⟩
  | createPool count blockSize =>
      match p.memory.createPool count blockSize with
      | (some id, m) => ⟨p.setMemory m, [.pool id], [id]⟩
      | (none, m) => ⟨p.setMemory m, [], []⟩
  | sharePool id => ⟨p.setMemory (p.memory.sharePool id), [.pool id, .pool id], []⟩
  | dropPool id => ⟨p.setMemory (p.memory.dropPool id), [], []⟩
  | acquire id =>
      match p.memory.acquire id with
      | (some b, m) => ⟨p.setMemory m, [.pool id, .block b], []⟩
      | (none, m) => ⟨p.setMemory m, [.pool id], []⟩
  | acquireWith id data =>
      match p.memory.acquireWith id data with
      | (some b, m) => ⟨p.setMemory m, [.pool id, .block b], []⟩
      | (none, m) => ⟨p.setMemory m, [.pool id], []⟩
  | writeBlock b data =>
      match p.memory.writeBlock b data with
      | (some b, m) => ⟨p.setMemory m, [.block b], []⟩
      | (none, m) => ⟨p.setMemory m, [.block b], []⟩
  | dropBlock b => ⟨p.setMemory (p.memory.releaseBlock b), [], []⟩
  | openScope strategy pool? wipePublic =>
      let (s, p) := p.openScope { strategy, pool?, wipePublic }
      ⟨p, .scope s :: pool?.toList.map .pool, []⟩
  | input s bytes secrecy =>
      let (_, s, m) := p.memory.input s bytes secrecy
      ⟨p.setMemory m, [.scope s], s.secretBlocks.filter (p.heap.next ≤ ·)⟩
  | inputBatch s items =>
      let (_, s, m) := p.memory.inputBatch s items
      ⟨p.setMemory m, [.scope s], s.secretBlocks.filter (p.heap.next ≤ ·)⟩
  | endScope s => ⟨p.endScope s, [], []⟩
  | nativeBuffer content size =>
      let (data, h) := nativeTable p.heap (some content)
      ⟨p.setHeap h, [.rawBuffer ⟨data, size⟩], []⟩
  | nativeBatch data sizes count =>
      let (data, h) := nativeTable p.heap data
      let (sizes, h) := nativeTable h sizes
      ⟨p.setHeap h, [.rawBatch ⟨data, sizes, count⟩], []⟩
  | nativeWrite x offset data => ⟨p.setHeap (Memory.nativeWrite p.heap x offset data), [x], []⟩

end Operation

section

variable {m : Memory}

theorem trade_allocate (m : Memory) (bytes : Bytes) :
    m.Trade [] { m with heap := (RawBuffer.allocate bytes m.heap).2 }
      [.rawBuffer (RawBuffer.allocate bytes m.heap).1] := by
  unfold RawBuffer.allocate
  split
  · rename_i b h hcopy
    exact (trade_copyBuffer hcopy).congr (.refl []) (stakes_rawBuffer b)
  · rename_i fault h hcopy
    -- an empty raw buffer holds nothing
    exact (trade_copyBuffer_error hcopy).congr (.refl [])
      ⟨fun _ => rfl, fun _ => rfl, fun _ => rfl⟩

/-- Discarding a raw buffer frees its block. -/
theorem trade_discardBuffer (m : Memory) (raw : RawBuffer) :
    m.Trade [.rawBuffer raw] { m with heap := raw.discard m.heap } [] :=
  (trade_dropBuffer m (.adopt raw)).congr (stakes_adoptBuffer raw) (.refl [])

/-- Taking a raw buffer frees its block, unless it counts as empty. -/
theorem trade_takeBuffer (m : Memory) (raw : RawBuffer) :
    m.Trade [.rawBuffer raw] { m with heap := (raw.take m.heap).2 }
      (if raw.isEmpty then [.rawBuffer raw] else []) := by
  unfold RawBuffer.take
  by_cases he : raw.isEmpty
  · rw [if_pos he, if_pos he]
    exact .refl _ _
  · rw [if_neg he, if_neg he]
    exact trade_discardBuffer m raw

/-- Discarding a raw batch frees its tables, malformed or not. -/
theorem trade_discardBatch (m : Memory) (raw : RawBatch) :
    m.Trade [.rawBatch raw] { m with heap := (raw.discard m.heap).2 } [] := by
  unfold RawBatch.discard
  split
  · rename_i b h hadopt
    have heap_eq := (OwnedBatch.adopt_ok hadopt).1
    rw [heap_eq]
    exact (trade_dropBatch m b).congr (stakes_adoptBatch hadopt) (.refl [])
  · rename_i reason h hadopt
    exact trade_rejectBatch hadopt

/-- Taking a raw batch does the same to memory as discarding it. -/
theorem heap_take_eq_discard (raw : RawBatch) (h : Heap) : (raw.take h).2 = (raw.discard h).2 := by
  unfold RawBatch.take RawBatch.discard
  split <;> rfl

theorem memory_takeBatch (p : Process) (raw : RawBatch) :
    (p.takeBatch raw).2.memory = { p.memory with heap := (raw.take p.heap).2 } := by
  unfold Process.takeBatch
  split <;> rename_i ht <;> rw [ht] <;> rfl

theorem memory_discardBatch (p : Process) (raw : RawBatch) :
    (p.discardBatch raw).memory = { p.memory with heap := (raw.discard p.heap).2 } := by
  unfold Process.discardBatch
  split <;> rename_i ht <;> rw [ht] <;> rfl

theorem change_nativeTable {h : Heap} (hs : h.Sound) (content? : Option Bytes) :
    h.Change [] (nativeTable h content?).2 (nativeTable h content?).1.block?.toList := by
  unfold nativeTable
  cases content? with
  | none => exact .refl hs
  | some content =>
      simp only
      cases hr : h.request ⟨content.length, content⟩ with
      | mk id? h' =>
          cases id? with
          | none => exact hs.change_refused hr
          | some id => exact hs.change_request hr

theorem trade_nativeBuffer (m : Memory) (content : Bytes) (size : Int32) :
    m.Trade [] { m with heap := (nativeTable m.heap (some content)).2 }
      [.rawBuffer ⟨(nativeTable m.heap (some content)).1, size⟩] := by
  refine trade_heap (fun hs _ => ?_) (fun _ => rfl) (fun _ => rfl)
  simpa [Holder.blocks] using change_nativeTable hs (some content)

theorem trade_nativeBatch (m : Memory) (data sizes : Option Bytes) (count : Int32) :
    m.Trade [] { m with heap := (nativeTable (nativeTable m.heap data).2 sizes).2 }
      [.rawBatch ⟨(nativeTable m.heap data).1, (nativeTable (nativeTable m.heap data).2 sizes).1,
        count⟩] := by
  refine trade_heap (fun hs _ => ?_) (fun _ => rfl) (fun _ => rfl)
  have hdata := change_nativeTable hs data
  have hsizes := change_nativeTable hdata.sound sizes
  simpa [Holder.blocks, RawBatch.blocks] using hdata.trans hsizes

/-- A write by native code changes a block that native code holds. -/
theorem trade_nativeWrite (m : Memory) (x : Holder) (offset : Nat) (data : Bytes) :
    m.Trade [x] { m with heap := Memory.nativeWrite m.heap x offset data } [x] := by
  refine trade_heap (fun hs _ => ?_) (fun _ => rfl) (fun _ => rfl)
  have hsame : m.heap.Change (blocksOf [x]) m.heap (blocksOf [x]) :=
    (Heap.Change.refl hs).rebook (fun _ => by simp) (by simp)
  unfold Memory.nativeWrite
  cases hw : writable? x with
  | none => exact hsame
  | some id =>
      simp only
      split
      · have hwrite := hs.change_update id (·.write offset data)
        refine hwrite.rebook (fun j => Nat.add_comm _ _) fun j hj _ => ?_
        rw [List.mem_singleton.mp hj]
        cases x <;> simp only [writable?, reduceCtorEq] at hw
        · simp [Holder.blocks, hw]
        · simp [Holder.blocks, RawBatch.blocks, hw]
      · exact hsame

end

/-- Every operation trades the holder that it names for the holders that it leaves behind. -/
theorem Operation.trade (p : Process) (op : Operation) :
    p.memory.Trade op.owner?.toList (op.effect p).process.memory (op.effect p).gained := by
  cases op with
  | refuse granted =>
      exact trade_heap (fun hs _ => ⟨⟨hs.balance, hs.proper⟩, fun _ => rfl, Nat.le_refl _,
        fun _ _ _ => rfl⟩) (fun _ => rfl) (fun _ => rfl)
  | copyBuffer bytes secrecy =>
      simp only [effect]
      split
      · rename_i b h hcopy
        exact trade_copyBuffer hcopy
      · rename_i fault h hcopy
        exact trade_copyBuffer_error hcopy
  | flagBuffer b wipePublic =>
      exact (Trade.refl _ _).congr (.refl _) ⟨fun _ => rfl, fun _ => rfl, fun _ => rfl⟩
  | handBuffer b => exact (Trade.refl _ _).congr (.refl _) (stakes_rawBuffer b)
  | dropBuffer b => exact trade_dropBuffer p.memory b
  | allocate bytes => exact trade_allocate p.memory bytes
  | adoptBuffer raw => exact (Trade.refl _ _).congr (.refl _) (stakes_adoptBuffer raw)
  | takeBuffer raw => exact trade_takeBuffer p.memory raw
  | discardBuffer raw => exact trade_discardBuffer p.memory raw
  | copyBatch items secrecy =>
      simp only [effect]
      split
      · rename_i b h hcopy
        exact trade_copyBatch hcopy
      · rename_i fault h hcopy
        exact trade_copyBatch_error hcopy
  | handBatch b => exact (Trade.refl _ _).congr (.refl _) (stakes_rawBatch b)
  | dropBatch b => exact trade_dropBatch p.memory b
  | adoptBatch raw =>
      simp only [effect, Process.adoptBatch]
      cases hadopt : OwnedBatch.adopt raw p.heap with
      | mk result h =>
          cases result with
          | ok b =>
              rw [(OwnedBatch.adopt_ok hadopt).1]
              exact (Trade.refl _ _).congr (.refl _) (stakes_adoptBatch hadopt)
          | error reason => exact trade_rejectBatch hadopt
  | takeBatch raw =>
      simp only [effect, memory_takeBatch, heap_take_eq_discard]
      exact trade_discardBatch p.memory raw
  | discardBatch raw =>
      simp only [effect, memory_discardBatch]
      exact trade_discardBatch p.memory raw
  | createPool count blockSize =>
      simp only [effect]
      split
      · rename_i id m hcreate
        exact trade_createPool hcreate
      · rename_i m hcreate
        exact trade_createPool_none hcreate
  | sharePool id => exact trade_sharePool p.memory id
  | dropPool id => exact trade_dropPool p.memory id
  | acquire id =>
      simp only [effect]
      split
      · rename_i b m hacquire
        exact trade_acquire hacquire
      · rename_i m hacquire
        rw [acquire_none hacquire]
        exact .refl _ _
  | acquireWith id data =>
      simp only [effect]
      split
      · rename_i b m hacquire
        exact trade_acquireWith hacquire
      · rename_i m hacquire
        rw [acquireWith_none hacquire]
        exact .refl _ _
  | writeBlock b data =>
      simp only [effect]
      split
      · rename_i b' m hwrite
        exact trade_writeBlock hwrite
      · rename_i m hwrite
        rw [writeBlock_none hwrite]
        exact .refl _ _
  | dropBlock b => exact trade_releaseBlock p.memory b
  | openScope strategy pool? wipePublic =>
      cases pool? with
      | none => exact (Trade.refl _ _).congr (.refl _) ⟨fun _ => rfl, fun _ => rfl, fun _ => rfl⟩
      | some id =>
          exact (trade_sharePool p.memory id).congr (.refl _)
            ⟨fun _ => rfl, fun _ => rfl, fun _ => rfl⟩
  | input s bytes secrecy => exact (extends_input rfl).trade
  | inputBatch s items => exact (extends_inputBatch rfl).trade
  | endScope s => exact trade_endScope p.memory s
  | nativeBuffer content size => exact trade_nativeBuffer p.memory content size
  | nativeBatch data sizes count => exact trade_nativeBatch p.memory data sizes count
  | nativeWrite x offset data => exact trade_nativeWrite p.memory x offset data

end Memory

namespace Ledger

variable {s : Ledger}

/-- A new ledger is balanced. -/
theorem balanced_empty : Balanced {} := Memory.accounts_empty

/-- An operation that trades the holder it names keeps the books, and whoever it does not name
keeps what they hold. -/
theorem Balanced.perform {owner? : Option Holder} {effect : Process → Effect}
    (hb : s.Balanced)
    (ht : s.memory.Trade owner?.toList (effect s.process).process.memory
      (effect s.process).gained) : (s.perform owner? effect).Balanced := by
  unfold Ledger.perform
  cases owner? with
  | none => exact (ht s.holders hb).1
  | some x =>
      simp only
      split
      · rename_i hm
        have hsplit : s.memory.Accounts ([x] ++ s.holders.erase x) :=
          hb.congr (.of_perm (List.perm_cons_erase hm))
        exact (ht _ hsplit).1
      · exact hb

/-- One operation. -/
def act (s : Ledger) (op : Memory.Operation) : Ledger := s.perform op.owner? op.effect

/-- The ledger after some operations in a new process. -/
def after (ops : List Memory.Operation) : Ledger := ops.foldl act {}

/-- What holds of a new process and is kept by every operation holds after every run. -/
theorem after_induction {P : Ledger → Prop} (hnew : P {})
    (hstep : ∀ s op, P s → P (Ledger.act s op)) (ops : List Memory.Operation) : P (after ops) :=
  List.foldlRecOn ops Ledger.act hnew fun s hs op _ => hstep s op hs

theorem Balanced.act (hb : s.Balanced) (op : Memory.Operation) : (s.act op).Balanced :=
  hb.perform (op.trade s.process)

/-- The books of memory agree with the holders after every run. -/
theorem balanced_after (ops : List Memory.Operation) : (after ops).Balanced :=
  after_induction balanced_empty (fun _ op hb => hb.act op) ops

end Ledger

end NativeBoundary

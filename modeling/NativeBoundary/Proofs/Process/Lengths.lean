import NativeBoundary.Proofs.Call.Neutral
import NativeBoundary.Proofs.Memory.Extents
import NativeBoundary.Proofs.Process.PoolHistories

/-!
# Lengths that survive the size field

The host counts in 64 bits and the boundary in 31.  A length is checked where a buffer or a batch is
made, or it came from a size field in the first place, and a block of a pool holds no more than a
block size that was checked with the pool; from then on it is narrowed without a check.  Offsets are
never checked at all: they stay inside of a table, of data or of a region because the sums and
products behind them do.

* `RawBuffer.Reports`, `OwnedBuffer.Made.reports` — buffers, from whichever constructor;
* `Ledger.exact_use`, `Ledger.exact_afterUses` — everybody's lengths, step by step and after a run;
* `Ledger.InRange`, `Ledger.Clean.inRange` — what holds of blocks and pools at one moment;
* `Ledger.lengths_in_range` — all of it, with batches in both directions.
-/

namespace NativeBoundary

/-- A length fits the size field, and a raw buffer reports it unchanged. -/
structure RawBuffer.Reports (raw : RawBuffer) (n : Nat) : Prop where
  fits : n ≤ nativeSizeLimit
  size : raw.size.toInt = n
  length : raw.length = n

theorem RawBuffer.reports_empty : RawBuffer.empty.Reports 0 := ⟨Nat.zero_le _, rfl, rfl⟩

/-- So does a raw buffer with a narrowed length. -/
theorem RawBuffer.reports_of_le {data : Pointer} {n : Nat} (hdata : data.isNull = false)
    (hn : n ≤ nativeSizeLimit) : RawBuffer.Reports ⟨data, Int32.ofNat n⟩ n where
  fits := hn
  size := toInt_ofNat_of_le hn
  length := length_of_size hdata hn

namespace OwnedBuffer

/-- How the host comes by a buffer. -/
inductive Made : OwnedBuffer → Prop
  | empty (secrecy : Secrecy) : Made (empty secrecy)
  | copied {bytes : Bytes} {secrecy : Secrecy} {h h' : Heap} {b : OwnedBuffer}
      (hcopy : copyFrom bytes secrecy h = (.ok b, h')) : Made b
  | adopted (raw : RawBuffer) : Made (adopt raw)
  | flagged {b : OwnedBuffer} (hb : Made b) (wipePublic : Bool) : Made { b with wipePublic }

variable {b : OwnedBuffer}

/-- A buffer reports its length if that fits, and if a buffer without a block has no bytes. -/
theorem reports_raw (hfits : b.length ≤ nativeSizeLimit) (hnone : b.block? = none → b.length = 0) :
    b.raw.Reports b.length := by
  unfold raw
  split
  · exact RawBuffer.reports_of_le rfl hfits
  · rename_i hblock
    rw [hnone hblock]
    exact RawBuffer.reports_empty

theorem length_of_copyFrom {bytes : Bytes} {secrecy : Secrecy} {h h' : Heap}
    (hcopy : copyFrom bytes secrecy h = (.ok b, h')) (hblock : b.block? = none) : b.length = 0 := by
  cases copying_of_copyFrom hcopy with
  | empty hnone => rfl
  | block hsome hfits hgranted => cases hblock

/-- Every buffer reports its length. -/
theorem Made.reports (hb : b.Made) : b.raw.Reports b.length := by
  induction hb with
  | empty secrecy => exact RawBuffer.reports_empty
  | copied hcopy => exact reports_raw (copyFrom_ok hcopy).2.1 (length_of_copyFrom hcopy)
  | adopted raw =>
      unfold adopt
      split
      · exact reports_raw (toNat_le_limit raw.size) nofun
      · exact RawBuffer.reports_empty
  | flagged hb wipePublic ih => exact ih

end OwnedBuffer

namespace OwnedBatch

variable {b : OwnedBatch} {h h' : Heap}

/-- The number of byte strings survives the count field. -/
def Counts (b : OwnedBatch) : Prop := b.raw.count.toInt = b.count

theorem counts_copyFrom {items : List Bytes} {secrecy : Secrecy}
    (hcopy : copyFrom items secrecy h = (.ok b, h')) : b.Counts := by
  have hwritten := written_copyFrom hcopy
  rw [Counts, hwritten.count]
  exact hwritten.encodes.count

theorem counts_adopt {raw : RawBatch} (hadopt : adopt raw h = (.ok b, h')) : b.Counts := by
  obtain ⟨-, -, hb⟩ := adopt_eq hadopt
  have hcount : b.count = raw.length := by rw [hb]
  have hlimit := toNat_le_limit raw.count
  change raw.length ≤ _ at hlimit
  rw [← hcount] at hlimit
  exact toInt_ofNat_of_le hlimit

end OwnedBatch

/-- What a copy in a scope says of its length.  For a block of a pool its pool matters. -/
def ScopeCopy.Exact : ScopeCopy → Prop
  | pooled _ => True
  | heap b => b.raw.Reports b.length
  | batch b => b.Counts

/-- What a holder says of its length. -/
def Holder.Exact : Holder → Prop
  | buffer b => b.raw.Reports b.length
  | batch b => b.Counts
  | scope s => ∀ copy ∈ s.copies, copy.Exact
  | _ => True

theorem Holder.exact_of_isNative {x : Holder} (hx : x.isNative = true) : x.Exact := by
  cases x with
  | rawBuffer raw | rawBatch raw => trivial
  | buffer _ | batch _ | block _ | pool _ | scope _ | bridge _ => cases hx

/-- Pools have nothing to say. -/
theorem Holder.exact_pools (ids : List PoolId) : ∀ x ∈ ids.map Holder.pool, x.Exact := by
  intro x hx
  obtain ⟨id, -, rfl⟩ := List.mem_map.mp hx
  trivial

/-- A scope with one copy more. -/
theorem Holder.exact_scope_cons {s : Scope} {copy : ScopeCopy} (hs : (Holder.scope s).Exact)
    (hcopy : copy.Exact) : (Holder.scope { s with copies := copy :: s.copies }).Exact := by
  intro x hx
  rcases List.mem_cons.mp hx with rfl | hx
  · exact hcopy
  · exact hs x hx

namespace Memory

variable {m m' : Memory} {s s' : Scope}

theorem exact_input {bytes : Bytes} {secrecy : Secrecy} {result : Except Fault RawBuffer}
    (hs : (Holder.scope s).Exact) (hc : m.input s bytes secrecy = (result, s', m')) :
    (Holder.scope s').Exact := by
  rcases input_cases hc with ⟨rfl, -⟩ | ⟨fault, h', hcopy, rfl, -⟩ | ⟨b, hblock, rfl⟩ |
    ⟨b, h', hcopy, rfl, -⟩
  · exact hs
  · exact hs
  · exact Holder.exact_scope_cons hs trivial
  · have hmade := (OwnedBuffer.Made.copied hcopy).flagged s.wipePublic
    have hcopied : (ScopeCopy.heap { b with wipePublic := s.wipePublic }).Exact := hmade.reports
    exact Holder.exact_scope_cons hs hcopied

theorem exact_inputBatch {items : List Bytes} {result : Except Fault RawBatch}
    (hs : (Holder.scope s).Exact) (hc : m.inputBatch s items = (result, s', m')) :
    (Holder.scope s').Exact := by
  rcases inputBatch_cases hc with ⟨fault, h', hcopy, rfl, -⟩ | ⟨b, h', hcopy, rfl, -⟩
  · exact hs
  · have hcopied : (ScopeCopy.batch b).Exact := OwnedBatch.counts_copyFrom hcopy
    exact Holder.exact_scope_cons hs hcopied

/-- An operation leaves nobody behind who says something wrong, if whom it names does not. -/
theorem Operation.exact_gained (p : Process) {op : Memory.Operation}
    (howner : ∀ x, op.owner? = some x → x.Exact) : ∀ x ∈ (op.effect p).gained, x.Exact := by
  cases op with
  | copyBuffer bytes secrecy =>
      simp only [effect]
      split
      · rename_i hcopy
        exact List.forall_mem_singleton.mpr (OwnedBuffer.Made.copied hcopy).reports
      · exact List.forall_mem_nil _
  | flagBuffer b wipePublic => exact List.forall_mem_singleton.mpr (howner (.buffer b) rfl)
  | adoptBuffer raw => exact List.forall_mem_singleton.mpr (OwnedBuffer.Made.adopted raw).reports
  | takeBuffer raw =>
      simp only [effect]
      split
      · exact List.forall_mem_singleton.mpr trivial
      · exact List.forall_mem_nil _
  | copyBatch items secrecy =>
      simp only [effect]
      split
      · rename_i hcopy
        exact List.forall_mem_singleton.mpr (OwnedBatch.counts_copyFrom hcopy)
      · exact List.forall_mem_nil _
  | adoptBatch raw =>
      simp only [effect, Process.adoptBatch]
      rcases hadopt : OwnedBatch.adopt raw p.heap with ⟨reason | b, h⟩
      · exact List.forall_mem_nil _
      · exact List.forall_mem_singleton.mpr (OwnedBatch.counts_adopt hadopt)
  | createPool count blockSize =>
      simp only [effect]
      split
      · exact List.forall_mem_singleton.mpr trivial
      · exact List.forall_mem_nil _
  | acquire id =>
      simp only [effect]
      split
      · exact List.forall_mem_cons.mpr ⟨trivial, List.forall_mem_singleton.mpr trivial⟩
      · exact List.forall_mem_singleton.mpr trivial
  | acquireWith id data =>
      simp only [effect]
      split
      · exact List.forall_mem_cons.mpr ⟨trivial, List.forall_mem_singleton.mpr trivial⟩
      · exact List.forall_mem_singleton.mpr trivial
  | writeBlock b data =>
      simp only [effect]
      split <;> exact List.forall_mem_singleton.mpr trivial
  | openScope strategy pool? wipePublic =>
      have hnew : (Holder.scope { strategy, pool?, wipePublic }).Exact := List.forall_mem_nil _
      exact List.forall_mem_cons.mpr ⟨hnew, Holder.exact_pools _⟩
  | input s bytes secrecy =>
      rcases hc : p.memory.input s bytes secrecy with ⟨result, s', m⟩
      simp only [effect, hc]
      exact List.forall_mem_singleton.mpr (exact_input (howner (.scope s) rfl) hc)
  | inputBatch s items =>
      rcases hc : p.memory.inputBatch s items with ⟨result, s', m⟩
      simp only [effect, hc]
      exact List.forall_mem_singleton.mpr (exact_inputBatch (howner (.scope s) rfl) hc)
  | sharePool id =>
      exact List.forall_mem_cons.mpr ⟨trivial, List.forall_mem_singleton.mpr trivial⟩
  | nativeWrite x offset data => exact List.forall_mem_singleton.mpr (howner x rfl)
  | handBuffer _ | handBatch _ | allocate _ | nativeBuffer _ _ | nativeBatch _ _ _ =>
      exact List.forall_mem_singleton.mpr trivial
  | refuse _ | dropBuffer _ | discardBuffer _ | dropBatch _ | takeBatch _ | discardBatch _
  | dropPool _ | dropBlock _ | endScope _ => exact List.forall_mem_nil _

end Memory

theorem Process.Operation.exact_gained (p : Process) {op : Process.Operation}
    (howner : ∀ x, op.owner? = some x → x.Exact) : ∀ x ∈ (op.effect p).gained, x.Exact := by
  cases op with
  | memory op => exact op.exact_gained p howner
  | createBridge c =>
      simp only [effect]
      split
      · exact List.forall_mem_singleton.mpr trivial
      · exact List.forall_mem_nil _
  | bridgePool b =>
      exact List.forall_mem_append.mpr
        ⟨Holder.exact_pools _, List.forall_mem_singleton.mpr trivial⟩
  | shareBridge b =>
      exact List.forall_mem_cons.mpr ⟨trivial, List.forall_mem_singleton.mpr trivial⟩
  | bridgeScope b shape =>
      have hnew : (Holder.scope (b.scope shape)).Exact := List.forall_mem_nil _
      exact List.forall_mem_cons.mpr ⟨hnew, List.forall_mem_singleton.mpr trivial⟩
  | call c => exact fun x hx => Holder.exact_of_isNative (c.native _ x hx)
  | defaultBridge => exact List.forall_mem_singleton.mpr trivial
  | dropBridge _ | bind _ | unbind _ | setSlot _ | clearSlot | createRegistry
  | register _ _ | release _ _ | dropGuard _ | addTransport _ | addMesh _ | openTransport _
  | closeTransport _ => exact List.forall_mem_nil _

namespace Ledger

variable {s : Ledger}

/-- A step leaves nobody behind who says something wrong. -/
theorem exact_use (hs : ∀ x ∈ s.holders, x.Exact) (u : Use) : ∀ x ∈ (s.use u).holders, x.Exact := by
  cases u with
  | work op =>
      have hgained := fun howner => op.exact_gained s.process howner
      change ∀ x ∈ (s.work op).holders, x.Exact
      unfold Ledger.work Ledger.perform
      cases howner : op.owner? with
      | none =>
          rw [howner] at hgained
          exact List.forall_mem_append.mpr ⟨hgained nofun, hs⟩
      | some x =>
          simp only
          split
          · rename_i hx
            have hothers : ∀ y ∈ s.holders.erase x, y.Exact :=
              fun y hy => hs y (List.mem_of_mem_erase hy)
            refine List.forall_mem_append.mpr ⟨hgained fun y hy => ?_, hothers⟩
            rw [howner] at hy
            cases hy
            exact hs x hx
          · exact hs
  | fill b offset data =>
      simp only [use]
      split <;> exact hs

/-- So everybody says the right thing after every run. -/
theorem exact_afterUses (uses : List Use) : ∀ x ∈ (afterUses uses).holders, x.Exact :=
  List.foldlRecOn (motive := fun s : Ledger => ∀ x ∈ s.holders, x.Exact) uses use
    (List.forall_mem_nil _) fun _ hs u _ => exact_use hs u

/-- Blocks and pools at one moment. -/
structure InRange (s : Ledger) : Prop where
  /-- Whoever has a block may show it. -/
  blocks : ∀ b ∈ poolBlocksOf s.holders, (s.memory.blockRaw b).Reports b.length
  /-- The region of a pool has as many bytes as its blocks together, and a length. -/
  regions : ∀ id p, s.memory.pool? id = some p →
    s.memory.heap.size? id = some (p.count * p.blockSize) ∧
      p.count * p.blockSize ≤ Memory.largestLength
  /-- A block that can be handed out, that was handed out or that is looked at ends inside of the
  region. -/
  places : ∀ id p, s.memory.pool? id = some p → ∀ i,
    (i ∈ p.free ∨ (∃ b ∈ s.held id, b.index = i) ∨ (s.memory.inspectBlock id i).isSome) →
      Memory.blockOffset p i + p.blockSize ≤ p.count * p.blockSize

/-- Books that agree and clean pools are enough for that. -/
theorem Clean.inRange (hs : s.Clean) : s.InRange := by
  refine ⟨fun b hb => ?_, fun id p hp => ⟨((hs.balanced.pools id).pool hp).2, ?_⟩,
    fun id p hp i hi => Memory.blockOffset_le p ?_⟩
  · obtain ⟨p, hp, -⟩ := hs.balanced.index_lt hb
    have hlimit := Nat.le_trans (hs.clean.fits b hb hp) (hs.clean.limit hp)
    by_cases hused : b.length = 0
    · have hempty : s.memory.blockRaw b = .empty := by
        unfold Memory.blockRaw
        rw [hp]
        exact if_pos hused
      rw [hempty, hused]
      exact RawBuffer.reports_empty
    · rw [Memory.blockRaw_eq hp hused]
      exact RawBuffer.reports_of_le rfl hlimit
  · exact (Memory.isPoolShape_le (hs.clean.shape hp)).2
  · have hperm := hs.balanced.places_perm hp
    rcases hi with hfree | ⟨b, hb, rfl⟩ | hseen
    · exact List.mem_range.mp (hperm.mem_iff.mp (List.mem_append_left _ hfree))
    · exact List.mem_range.mp (hperm.mem_iff.mp
        (List.mem_append_right _ (List.mem_map_of_mem hb)))
    · unfold Memory.inspectBlock at hseen
      rw [hp] at hseen
      by_contra hlt
      simp [hlt] at hseen

/-- Lengths, offsets and narrowed lengths are safe.  Making a batch never overflows nor writes
beyond a table; the lengths of a batch from native code add up to no more than `2⁶²`, and reading
it stays inside of that total; every buffer and every block of a pool reports its length; and the
blocks of a pool lie inside of its region. -/
theorem lengths_in_range (uses : List Use) :
    (∀ items total, OwnedBatch.measure (items.map List.length) = .ok total →
      OwnedBatch.InRange items ∧ total = items.flatten.length) ∧
    (∀ items secrecy (b : OwnedBatch) (h h' : Heap), items ≠ [] →
      OwnedBatch.copyFrom items secrecy h = (.ok b, h') → b.Filled items h h') ∧
    (∀ (raw : RawBatch) (h : Heap) k,
      totalOf (((raw.lengths h).map fun n => n.toInt.toNat).take k) ≤ 2 ^ 62) ∧
    (∀ (raw : RawBatch) (b : OwnedBatch) (h h' : Heap),
      OwnedBatch.adopt raw h = (.ok b, h') → raw.ReadAs h b) ∧
    (∀ b : OwnedBuffer, b.Made → b.raw.Reports b.length) ∧
    (∀ x ∈ (afterUses uses).holders, x.Exact) ∧
    (afterUses uses).InRange := by
  refine ⟨fun items total hmeasure => ?_, fun items secrecy b h h' hsome hcopy => ?_,
    fun raw h k => raw.totalOf_take_le h k, fun raw b h h' hadopt => ?_, fun b hb => hb.reports,
    exact_afterUses uses, (clean_afterUses uses).inRange⟩
  · obtain ⟨hfits, htotal⟩ := OwnedBatch.fits_of_measure hmeasure
    exact ⟨hfits.inRange, htotal⟩
  · exact OwnedBatch.filled_copyFrom hsome hcopy
  · exact RawBatch.readAs_of_adopt hadopt

/-- A pool of two blocks of four bytes, one of them held with three bytes in use, and a copy on the
heap. -/
def blockAndCopy : List Use :=
  [.work (.memory (.createPool 2 4)), .work (.memory (.acquireWith 0 [1, 2, 3])),
    .work (.memory (.copyBuffer [7, 8] .secret))]

/-- The copy. -/
def twoBytes : OwnedBuffer := { block? := some 1, length := 2, secrecy := .secret }

theorem lengths_in_range_copy :
    OwnedBatch.InRange [[1, 2], [], [3]] ∧
    (∃ (b : OwnedBatch) (h' : Heap),
      OwnedBatch.copyFrom [[1, 2], [], [3]] .secret {} = (.ok b, h') ∧
        b.Filled [[1, 2], [], [3]] {} h') ∧
    totalOf (((RawBatch.misshapen.lengths RawBatch.misshapenHeap).map fun n =>
      n.toInt.toNat).take 1) ≤ 2 ^ 62 ∧
    RawBatch.ReadAs ⟨.native 0 0, .native 1 0, 1⟩ RawBatch.misshapenHeap
      { data? := some 0, sizes? := some 1, count := 1, total := 2, secrecy := .secret } ∧
    (OwnedBuffer.adopt ⟨.native 0 0, -1⟩).raw.Reports 0 ∧
    twoBytes.raw.Reports 2 ∧
    ((afterUses blockAndCopy).memory.blockRaw { pool := 0, index := 0, length := 3 }).Reports 3 ∧
    Memory.blockOffset { blockSize := 4, count := 2, free := [1], inUse := 1, users := 2 } 1 + 4 ≤
      8 := by
  obtain ⟨hlists, hfilled, hsums, hread, hmade, hholders, hrange⟩ := lengths_in_range blockAndCopy
  refine ⟨(hlists _ 3 rfl).1, ⟨_, _, rfl, hfilled _ .secret _ {} _ (by decide) rfl⟩,
    hsums _ _ _, hread _ _ _ RawBatch.misshapenHeap (by rfl), hmade _ (.adopted ⟨.native 0 0, -1⟩),
    ?_, ?_, ?_⟩
  · exact hholders (.buffer twoBytes) (by decide)
  · exact hrange.blocks { pool := 0, index := 0, length := 3 } (by decide)
  · exact hrange.places 0 { blockSize := 4, count := 2, free := [1], inUse := 1, users := 2 }
      (by decide) 1 (.inl (by decide))

end Ledger

end NativeBoundary

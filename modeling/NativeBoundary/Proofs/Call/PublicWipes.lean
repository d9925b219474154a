import NativeBoundary.Proofs.Call.Neutral
import NativeBoundary.Proofs.Kem.Outcomes
import NativeBoundary.Proofs.Memory.Attempts
import NativeBoundary.Proofs.Memory.Contents

/-!
# Public data that a call releases

A bridge may be told to wipe public data too before they are freed.  Its scopes then hold nothing
that is spared: every copy of an input is wiped over its whole length, and batches are secret
anyway.  But an entry point knows of no bridge.  Encapsulating needs two native blocks, for the
ciphertext and for the shared secret; when the second one is refused, the first one is given back,
and since a ciphertext is public it is freed with everything in it.

That is the only gap.  Whatever a call does whose bridge wipes public data, the data blocks that are
freed during it are zero throughout, except for those ciphertexts.

* `Heap.Leaves` — work and the data that it frees unwiped;
* `Process.Callback.spilled?` — the ciphertext that an entry point gives back, if it does;
* `Memory.leaves_endScope` — the end of a scope that spares nothing;
* `Ledger.wiped_unless_spilled` — what is freed during a call.
-/

namespace NativeBoundary

theorem Block.nonzero_read_eq_zero_iff (b : Block) (n : Nat) :
    Bytes.nonzero (b.read 0 n) = 0 ↔ b.Clear n := by
  rw [b.read_eq_map, Bytes.nonzero, List.countP_eq_zero]
  simp [Block.Clear]

/-- What a data block held when it was freed, unless that was all zero. -/
def HeapEvent.residue? : HeapEvent → Option Bytes
  | freed _ last holding =>
      if holding = .sizeTable ∨ Bytes.nonzero (last.read 0 last.size) = 0 then none
      else some (last.read 0 last.size)
  | allocated _ _ | refused _ | misfreed _ => none

namespace Heap

variable {h h' h'' : Heap} {left more : List Bytes}

/-- The data that were freed unwiped since an earlier heap, first ones first. -/
def residues (h' h : Heap) : List Bytes := ((h'.since h).filterMap HeapEvent.residue?).reverse

/-- Every data block that was freed since an earlier heap was zero throughout. -/
def WipedSince (h' h : Heap) : Prop :=
  ∀ id last holding, .freed id last holding ∈ h'.since h → holding ≠ .sizeTable →
    last.Clear last.size

theorem residues_eq_nil_iff : h'.residues h = [] ↔ h'.WipedSince h := by
  rw [residues, List.reverse_eq_nil_iff, List.filterMap_eq_nil_iff]
  constructor
  · intro hnone id last holding hm htable
    have hresidue := hnone _ hm
    rw [HeapEvent.residue?, ite_eq_left_iff] at hresidue
    by_contra hdirty
    rw [← last.nonzero_read_eq_zero_iff] at hdirty
    cases hresidue (not_or.mpr ⟨htable, hdirty⟩)
  · intro hwiped event hm
    cases event with
    | freed id last holding =>
        rw [HeapEvent.residue?, if_pos]
        by_cases htable : holding = .sizeTable
        · exact .inl htable
        · exact .inr ((last.nonzero_read_eq_zero_iff _).mpr (hwiped id last holding hm htable))
    | allocated id size | refused size | misfreed id => rfl

/-- Work on the heap that frees the data `left` unwiped.  It does not change the size of a block
from before, except by freeing it. -/
structure Leaves (h h' : Heap) (left : List Bytes) : Prop where
  trace : h.trace <:+ h'.trace
  next : h.next ≤ h'.next
  sizes : ∀ id < h.next, h'.size? id = h.size? id ∨ h'.size? id = none
  residues : h'.residues h = left

theorem Leaves.trans (first : h.Leaves h' left) (second : h'.Leaves h'' more) :
    h.Leaves h'' (left ++ more) where
  trace := first.trace.trans second.trace
  next := Nat.le_trans first.next second.next
  sizes := by
    intro id hid
    rcases second.sizes id (Nat.lt_of_lt_of_le hid first.next) with hsame | hgone
    · rw [hsame]
      exact first.sizes id hid
    · exact .inr hgone
  residues := by
    rw [Heap.residues, since_trans first.trace second.trace, List.filterMap_append,
      List.reverse_append, ← Heap.residues, ← Heap.residues, first.residues, second.residues]

/-- Work that frees nothing. -/
theorem Leaves.of_trace (htrace : h'.trace = h.trace) (hnext : h'.next = h.next)
    (hsizes : ∀ id, h'.size? id = h.size? id) : h.Leaves h' [] where
  trace := htrace ▸ List.suffix_refl _
  next := Nat.le_of_eq hnext.symm
  sizes := fun id _ => .inl (hsizes id)
  residues := by rw [Heap.residues, since_of_trace htrace]; rfl

theorem Leaves.refl (h : Heap) : h.Leaves h [] := .of_trace rfl rfl fun _ => rfl

/-- Work whose frees are all of wiped data. -/
theorem residues_of_frees {P : BlockId → Block → Holding → Prop} (hf : h.Frees h' P)
    (hP : ∀ {id last holding}, P id last holding → holding ≠ .sizeTable → last.Clear last.size) :
    h'.residues h = [] := by
  obtain ⟨events, htrace, hall⟩ := hf
  rw [residues_eq_nil_iff]
  intro id last holding hm htable
  rw [since_eq htrace] at hm
  exact hP (hall id last holding hm) htable

/-- Work that only makes blocks, and leaves those from before alone. -/
theorem leaves_of_makes (hm : Memory.Makes h h') (hc : h.Confined [] h') : h.Leaves h' [] where
  trace := hc.trace
  next := hc.next
  sizes := by
    intro id hid
    rw [size?, hc.kept id hid List.not_mem_nil]
    exact .inl rfl
  residues := residues_of_frees hm fun ⟨htable, _⟩ hdata => absurd htable hdata

/-- A data block that is freed as it is. -/
theorem leaves_free {id : BlockId} {last : Block} (hb : h.block? id = some last) (length : Nat)
    (wiped : Bool) : h.Leaves (h.free id (.payload length wiped))
      (if Bytes.nonzero (last.read 0 last.size) = 0 then [] else [last.read 0 last.size]) where
  trace := ⟨[_], (trace_free_of_live _ hb).symm⟩
  next := Nat.le_of_eq (next_free h id _).symm
  sizes := by
    intro j _
    rw [size?_free]
    split
    · exact .inr rfl
    · exact .inl rfl
  residues := by
    have hsince : (h.free id (.payload length wiped)).since h = [.freed id last _] :=
      since_eq (trace_free_of_live _ hb)
    rw [Heap.residues, hsince]
    by_cases hzero : Bytes.nonzero (last.read 0 last.size) = 0 <;>
      simp [HeapEvent.residue?, hzero]

end Heap

open Heap (Leaves)

variable {h h' : Heap}

theorem OwnedBuffer.leaves_copyFrom (bytes : Bytes) (secrecy : Secrecy) (h : Heap) :
    h.Leaves (copyFrom bytes secrecy h).2 [] :=
  Heap.leaves_of_makes (Memory.makes_copyBuffer h bytes secrecy)
    (tries_copyFrom bytes secrecy h).confined

theorem OwnedBatch.leaves_copyFrom (items : List Bytes) (secrecy : Secrecy) (h : Heap) :
    h.Leaves (copyFrom items secrecy h).2 [] :=
  Heap.leaves_of_makes (Memory.makes_copyBatch h items secrecy)
    (tries_copyFrom items secrecy h).confined

/-- A copy has a block if there are bytes; the block holds the bytes and nothing else. -/
theorem OwnedBuffer.block_copyFrom {bytes : Bytes} {secrecy : Secrecy} {b : OwnedBuffer}
    (hc : copyFrom bytes secrecy h = (.ok b, h')) :
    b.mustWipe = secrecy.mustWipe false ∧ (b.block? = none → bytes = []) ∧
      ∀ id, b.block? = some id → id < h'.next ∧
        ∃ last, h'.block? id = some last ∧ last.read 0 last.size = bytes := by
  cases copying_of_copyFrom hc with
  | empty hnone => exact ⟨rfl, fun _ => hnone, fun id hid => by cases hid⟩
  | @block new made hsome hfits hblock =>
      refine ⟨rfl, nofun, fun id hid => ?_⟩
      cases hid
      obtain ⟨hnew, hnext, -⟩ := Heap.request_granted hblock
      have hmade := Heap.block?_granted hblock
      have hread := Heap.read_write (Option.isSome_of_eq_some hmade) bytes
      have hwritten : (made.write new 0 bytes).block? new =
          some ((Block.uncleared bytes.length).write 0 bytes) := by
        rw [Heap.write, Heap.block?_update, if_pos rfl, hmade, Option.map_some]
      refine ⟨?_, _, hwritten, ?_⟩
      · change new < made.next
        rw [hnew, hnext]
        exact Nat.lt_succ_self _
      · rw [Heap.read, hwritten] at hread
        rw [Block.size_write]
        exact hread

/-- A public copy that is given back is freed with everything in it. -/
theorem OwnedBuffer.leaves_drop_exposed {bytes : Bytes} {b : OwnedBuffer} {later : Heap}
    (hc : copyFrom bytes .exposed h = (.ok b, h')) (hkept : h'.Confined [] later) :
    later.Leaves (b.drop later) (if Bytes.nonzero bytes = 0 then [] else [bytes]) := by
  obtain ⟨hspared, hempty, hheld⟩ := block_copyFrom hc
  unfold drop
  cases hblock : b.block? with
  | none =>
      rw [hempty hblock]
      exact .refl later
  | some id =>
      obtain ⟨hmade, last, hlast, hbytes⟩ := hheld id hblock
      rw [← hkept.kept id hmade List.not_mem_nil] at hlast
      have hfree := Heap.leaves_free hlast b.length false
      rw [hbytes] at hfree
      simp only [hspared, Heap.release]
      exact hfree

namespace Process

variable (p : Process)

/-- The ciphertext that is given back when there is no memory for the secret beside it, unless it is
all zero. -/
def spill? (ciphertext secret : Bytes) : Option Bytes :=
  if p.heap.canHold [ciphertext] = true ∧ p.heap.canHold [ciphertext, secret] = false ∧
      Bytes.nonzero ciphertext ≠ 0 then some ciphertext
  else none

theorem leaves_handOver (bytes : Bytes) (secrecy : Secrecy) :
    p.heap.Leaves (p.handOver bytes secrecy).2.heap [] := by
  have hcopied := OwnedBuffer.leaves_copyFrom bytes secrecy p.heap
  unfold handOver
  split <;> rename_i hcopy <;> rw [hcopy] at hcopied <;> exact hcopied

theorem leaves_handOverPair (ciphertext secret : Bytes) :
    p.heap.Leaves (p.handOverPair ciphertext secret).2.heap
      (p.spill? ciphertext secret).toList := by
  have hcopied := OwnedBuffer.leaves_copyFrom ciphertext .exposed p.heap
  unfold handOverPair
  split <;> rename_i hfirst <;> rw [hfirst] at hcopied
  · obtain ⟨-, -, hhold⟩ := OwnedBuffer.delivers_copyFrom_error hfirst
    rw [spill?, if_neg (by simp [hhold])]
    exact hcopied
  · rename_i b heap
    obtain ⟨-, hhold⟩ := OwnedBuffer.delivers_copyFrom hfirst
    have hone : p.heap.canHold [ciphertext] = true := hhold []
    have hagain := OwnedBuffer.leaves_copyFrom secret .secret heap
    have hconfined := (OwnedBuffer.tries_copyFrom secret .secret heap).confined
    split <;> rename_i hsecond <;> rw [hsecond] at hagain hconfined
    · obtain ⟨-, -, hnone⟩ := OwnedBuffer.delivers_copyFrom_error hsecond
      have hboth : p.heap.canHold [ciphertext, secret] = false := (hhold [secret]).trans (hnone [])
      have hdropped := OwnedBuffer.leaves_drop_exposed hfirst hconfined
      have hspilled : (p.spill? ciphertext secret).toList =
          if Bytes.nonzero ciphertext = 0 then [] else [ciphertext] := by
        by_cases hzero : Bytes.nonzero ciphertext = 0 <;> simp [spill?, hone, hboth, hzero]
      rw [hspilled]
      exact (hcopied.trans hagain).trans hdropped
    · obtain ⟨-, hmore⟩ := OwnedBuffer.delivers_copyFrom hsecond
      have hboth : p.heap.canHold [ciphertext, secret] = true := (hhold [secret]).trans (hmore [])
      rw [spill?, if_neg (by simp [hboth])]
      exact hcopied.trans hagain

/-- What follows the answer of a policy leaves what handing over the answer leaves. -/
theorem leaves_settle {α β : Type} (reply : Reply KemError α)
    (give : Process → α → Except Fault β × Process) (left : α → List Bytes)
    (hgive : ∀ a, p.heap.Leaves (give p a).2.heap (left a)) :
    p.heap.Leaves (p.settle reply give).2.heap
      (match reply with
        | .value a => left a
        | .refusal _ | .panic _ => []) := by
  cases reply with
  | value a =>
      have hgiven := hgive a
      simp only [settle, Reply.asFault]
      split <;> rename_i hresult <;> rw [hresult] at hgiven <;> exact hgiven
  | refusal e => exact .refl _
  | panic message => exact .refl _

theorem leaves_runDecapsulate (key : UInt64) (ciphertext : RawBuffer) (out : Option RawBuffer) :
    p.heap.Leaves (p.runDecapsulate key ciphertext out).2.heap [] := by
  unfold runDecapsulate
  split
  · exact .refl _
  · rename_i policy object bytes _
    have hsettled := (p.record (.decapsulate p.boundHandle object bytes)).leaves_settle
      (policy.decapsulate object bytes) (fun p secret => p.handOver secret .secret) (fun _ => [])
      fun secret => leaves_handOver _ secret .secret
    split at hsettled <;> exact hsettled

theorem leaves_runDerivePublic (key : UInt64) (out : Option RawBuffer) :
    p.heap.Leaves (p.runDerivePublic key out).2.heap [] := by
  unfold runDerivePublic
  split
  · exact .refl _
  · rename_i policy object _
    have hsettled := (p.record (.derivePublic p.boundHandle object)).leaves_settle
      (policy.derivePublic object) (fun p key => p.handOver key .exposed) (fun _ => [])
      fun key => leaves_handOver _ key .exposed
    split at hsettled <;> exact hsettled

theorem leaves_receiveBuffer (id : TransportId) (sender : Nat) :
    p.heap.Leaves (p.receiveBuffer id sender).2.heap [] := by
  unfold receiveBuffer
  simp only
  split
  · exact .refl p.heap
  · exact .refl p.heap
  · rename_i bytes _
    have hcopied := OwnedBuffer.leaves_copyFrom bytes .secret p.heap
    split <;> rename_i hcopy <;> (change OwnedBuffer.copyFrom bytes .secret p.heap = _ at hcopy) <;>
      rw [hcopy] at hcopied <;> exact hcopied

theorem leaves_receiveBatch (id : TransportId) (senders : List Nat) :
    p.heap.Leaves (p.receiveBatch id senders).2.heap [] := by
  unfold receiveBatch
  simp only
  split
  · exact .refl p.heap
  · exact .refl p.heap
  · rename_i messages _
    split
    · exact .refl p.heap
    · have hcopied := OwnedBatch.leaves_copyFrom messages .secret p.heap
      split <;> rename_i hcopy <;>
        (change OwnedBatch.copyFrom messages .secret p.heap = _ at hcopy) <;>
        rw [hcopy] at hcopied <;> exact hcopied

theorem leaves_runReceive (context : UInt64) (sender : Int32) (out : Option RawBuffer) :
    p.heap.Leaves (p.runReceive context sender out).2.2.heap [] := by
  unfold runReceive
  split
  · exact .refl p.heap
  · exact .refl p.heap
  · split
    · exact .refl p.heap
    · rename_i id _ _ _ party _
      have hreceived := p.leaves_receiveBuffer id party
      split <;> rename_i hresult <;> rw [hresult] at hreceived <;> exact hreceived

theorem leaves_runReceiveAll (context : UInt64) (senders : Option (List Int32)) (count : Int32)
    (out : Option RawBatch) :
    p.heap.Leaves (p.runReceiveAll context senders count out).2.2.heap [] := by
  unfold runReceiveAll
  split
  · exact .refl p.heap
  · exact .refl p.heap
  · split
    · exact .refl p.heap
    · exact .refl p.heap
    · rename_i id _ _ _ parties _ _
      have hreceived := p.leaves_receiveBatch id parties
      split <;> rename_i hresult <;> rw [hresult] at hreceived <;> exact hreceived

/-- What an entry point gives back unwiped: the ciphertext that a policy answered, if it passed all
checks and there is no memory for the secret beside the ciphertext. -/
def Callback.spilled? (p : Process) : Callback → Option Bytes
  | .encapsulate encapsulationKey seed ciphertext secret =>
      let call := KemCall.encapsulate encapsulationKey seed ciphertext secret
      match call.firstFailure? p, call.asked? p with
      | none, some (_, .value [first, second]) => p.spill? first second
      | _, _ => none
  | .decapsulate _ _ _ | .derivePublic _ _ | .send _ _ _ | .receive _ _ _ | .receiveAll _ _ _ _ =>
      none

theorem leaves_runEncapsulate (encapsulationKey seed : RawBuffer)
    (ciphertext secret : Option RawBuffer) :
    p.heap.Leaves (p.runEncapsulate encapsulationKey seed ciphertext secret).2.heap
      ((Callback.encapsulate encapsulationKey seed ciphertext secret).spilled? p).toList := by
  rcases KemCall.encapsulateRequest_cases p encapsulationKey seed ciphertext secret with
    ⟨fault, hrequest, hfirst⟩ |
    ⟨policy, rho, first, second, hrequest, hfirst, hbound, hrho, rfl, rfl⟩
  · simp only [runEncapsulate, hrequest, Callback.spilled?, hfirst]
    exact .refl _
  · have hasked : (KemCall.encapsulate encapsulationKey seed (some first) (some second)).asked? p =
        some (.encapsulate p.boundHandle (encapsulationKey.bytes p.heap) rho,
          (policy.encapsulate (encapsulationKey.bytes p.heap) rho).map
            fun pair => [pair.1, pair.2]) := by
      simp only [KemCall.asked?, hbound, hrho]
      rfl
    have hsettled := (p.record (.encapsulate p.boundHandle (encapsulationKey.bytes p.heap)
      rho)).leaves_settle (policy.encapsulate (encapsulationKey.bytes p.heap) rho)
      (fun p pair => p.handOverPair pair.1 pair.2)
      (fun pair => (p.spill? pair.1 pair.2).toList) fun pair => leaves_handOverPair _ pair.1 pair.2
    simp only [runEncapsulate, hrequest, Callback.spilled?, hfirst, hasked]
    cases hreply : policy.encapsulate (encapsulationKey.bytes p.heap) rho <;>
      rw [hreply] at hsettled <;> exact hsettled

/-- Work beside native memory leaves nothing more. -/
theorem leaves_then {q r : Process} {left : List Bytes} (hl : p.heap.Leaves q.heap left)
    (hmemory : r.memory = q.memory) : p.heap.Leaves r.heap left := by
  unfold heap at hl ⊢
  rw [hmemory]
  exact hl

/-- An entry point leaves at most one ciphertext. -/
theorem Callback.leaves_run (c : Callback) :
    p.heap.Leaves (c.run p).2.heap (c.spilled? p).toList := by
  cases c with
  | encapsulate encapsulationKey seed ciphertext secret =>
      have hrun := p.leaves_runEncapsulate encapsulationKey seed ciphertext secret
      exact p.leaves_then hrun (memory_closeKem _ _ _)
  | decapsulate key ciphertext out =>
      exact p.leaves_then (p.leaves_runDecapsulate key ciphertext out) (memory_closeKem _ _ _)
  | derivePublic key out =>
      exact p.leaves_then (p.leaves_runDerivePublic key out) (memory_closeKem _ _ _)
  | send context receiver message =>
      exact p.leaves_then (.refl p.heap) (p.memory_transportSend context receiver message)
  | receive context sender out =>
      have hrun := p.leaves_runReceive context sender out
      exact p.leaves_then hrun (memory_closeTransportCall _ _ _)
  | receiveAll context senders count out =>
      have hrun := p.leaves_runReceiveAll context senders count out
      exact p.leaves_then hrun (memory_closeTransportCall _ _ _)

end Process

/-- A scope wipes public copies too, and each of its copies is wiped over its whole length when it
is released. -/
structure Scope.Thorough (s : Scope) (h : Heap) : Prop where
  wipePublic : s.wipePublic = true
  copies : ∀ o ∈ s.copies.flatMap ScopeCopy.owners,
    o.spared = false ∧ o.data < h.next ∧ (h.size? o.data = some o.length ∨ h.size? o.data = none)

/-- It stays so while other work goes on, because that changes no size. -/
theorem Scope.Thorough.mono {s : Scope} {left : List Bytes} (hs : s.Thorough h)
    (hl : h.Leaves h' left) : s.Thorough h' where
  wipePublic := hs.wipePublic
  copies := by
    intro o ho
    obtain ⟨hspared, hmade, hsize⟩ := hs.copies o ho
    refine ⟨hspared, Nat.lt_of_lt_of_le hmade hl.next, ?_⟩
    rcases hl.sizes o.data hmade with hsame | hgone
    · rw [hsame]
      exact hsize
    · exact .inr hgone

/-- One copy more. -/
theorem Scope.Thorough.cons {s : Scope} {copy : ScopeCopy} (hs : s.Thorough h)
    (hcopy : ∀ o ∈ copy.owners,
      o.spared = false ∧ o.data < h.next ∧ h.size? o.data = some o.length) :
    ({ s with copies := copy :: s.copies } : Scope).Thorough h where
  wipePublic := hs.wipePublic
  copies := by
    intro o ho
    rw [List.flatMap_cons, List.mem_append] at ho
    rcases ho with ho | ho
    · obtain ⟨hspared, hmade, hsize⟩ := hcopy o ho
      exact ⟨hspared, hmade, .inl hsize⟩
    · exact hs.copies o ho

namespace Memory

variable {m m' : Memory} {s s' : Scope}

/-- Writing into a block of a pool frees nothing. -/
theorem leaves_writeBlock (m : Memory) (b : PoolBlock) (data : Bytes) :
    m.heap.Leaves (m.writeBlock b data).2.heap [] := by
  unfold writeBlock
  split
  · exact .refl _
  · split
    · exact .refl _
    · exact .of_trace rfl rfl fun id => by simp only [Heap.size?_write, Heap.size?_wipe]

theorem leaves_inputBlock (m : Memory) (s : Scope) (bytes : Bytes) :
    m.heap.Leaves (m.inputBlock s bytes).2.heap [] := by
  unfold inputBlock
  split
  · exact .refl _
  · rename_i id _
    have hheap := m.heap_acquire id
    unfold acquireWith
    split
    · exact .refl _
    · split
      · exact .refl _
      · split <;> rename_i hacquire <;> rw [hacquire] at hheap
        · rw [← hheap]
          exact .refl _
        · rw [← hheap]
          exact leaves_writeBlock _ _ bytes

/-- An input is marshalled in a scope that spares nothing: so it stays. -/
theorem leaves_input {bytes : Bytes} {secrecy : Secrecy} {result : Except Fault RawBuffer}
    (hs : s.Thorough m.heap) (hc : m.input s bytes secrecy = (result, s', m')) :
    m.heap.Leaves m'.heap [] ∧ s'.Thorough m'.heap := by
  have hcopied := OwnedBuffer.leaves_copyFrom bytes secrecy m.heap
  rcases input_cases hc with ⟨rfl, rfl⟩ | ⟨fault, h', hcopy, rfl, rfl⟩ | ⟨b, hblock, rfl⟩ |
    ⟨b, h', hcopy, rfl, rfl⟩
  · exact ⟨.refl _, hs⟩
  · rw [hcopy] at hcopied
    exact ⟨hcopied, hs.mono hcopied⟩
  · have hpooled := leaves_inputBlock m s bytes
    rw [hblock] at hpooled
    exact ⟨hpooled, (hs.mono hpooled).cons fun o ho => by cases ho⟩
  · rw [hcopy] at hcopied
    refine ⟨hcopied, (hs.mono hcopied).cons fun o ho => ?_⟩
    obtain ⟨-, -, hheld⟩ := OwnedBuffer.block_copyFrom hcopy
    obtain ⟨-, -, hsize⟩ := OwnedBuffer.copyFrom_ok hcopy
    obtain ⟨id, hid, rfl⟩ := List.mem_map.mp ho
    have hid := Option.mem_toList.mp hid
    exact ⟨by simp [hs.wipePublic], (hheld id hid).1, (hsize id hid).2⟩

/-- So is a batch. -/
theorem leaves_inputBatch {items : List Bytes} {result : Except Fault RawBatch}
    (hsound : m.heap.Sound) (hs : s.Thorough m.heap)
    (hc : m.inputBatch s items = (result, s', m')) :
    m.heap.Leaves m'.heap [] ∧ s'.Thorough m'.heap := by
  have hcopied := OwnedBatch.leaves_copyFrom items .secret m.heap
  rcases inputBatch_cases hc with ⟨fault, h', hcopy, rfl, rfl⟩ | ⟨b, h', hcopy, rfl, rfl⟩ <;>
    rw [hcopy] at hcopied
  · exact ⟨hcopied, hs.mono hcopied⟩
  · refine ⟨hcopied, (hs.mono hcopied).cons fun o ho => ?_⟩
    obtain ⟨hsecrecy, hdescribes, -, -⟩ := OwnedBatch.copyFrom_ok hsound hcopy
    have hfresh := (OwnedBatch.change_copyFrom hsound hcopy).fresh
    obtain ⟨-, hblock⟩ := OwnedBatch.mem_blocks_of_owner ho
    obtain ⟨id, hid, rfl⟩ := List.mem_map.mp ho
    have hsize := hdescribes.size id (Option.mem_toList.mp hid)
    exact ⟨by simp [hsecrecy], (hfresh id hblock).2, hsize⟩

/-- The end of a scope that spares nothing leaves nothing. -/
theorem leaves_endScope {others : List Holder} (ha : m.Accounts (.scope s :: others))
    (hs : s.Thorough m.heap) : m.heap.Leaves (m.endScope s).heap [] := by
  have hsheds := sheds_endScope m s
  obtain ⟨events, htrace, -⟩ := hsheds.heap.frees
  refine ⟨⟨events, htrace.symm⟩, (trade_endScope m s others ha).2.next,
    fun id _ => hsheds.heap.sizes id, Heap.residues_of_frees hsheds.heap.frees ?_⟩
  rintro id last holding ⟨hlast, ⟨o, ho, rfl, hclear⟩ | ⟨p, hp, hclear⟩ | ⟨htable, -⟩⟩ hdata
  · obtain ⟨hspared, -, hsize⟩ := hs.copies o ho
    rw [hlast] at hsize
    rcases hsize with hsize | hgone
    · rw [Option.some.inj hsize]
      exact hclear hspared
    · cases hgone
  · have hsize := ((ha.pools id).pool hp).2
    rw [hlast] at hsize
    rw [Option.some.inj hsize]
    exact hclear
  · exact absurd htable hdata

end Memory

/-- A body that does no work of its own, and whose further calls go through bridges that wipe public
data. -/
def Body.WipesPublic {bridges : List Bridge} {σ : Type} : Body bridges σ → Prop
  | done _ _ => True
  | refuse _ next => next.WipesPublic
  | input _ _ next => ∀ answer, (next answer).WipesPublic
  | inputBatch _ next => ∀ answer, (next answer).WipesPublic
  | call _ next => ∀ answer, (next answer).WipesPublic
  | aside _ _ _ _ => False
  | invoke bridge _ _ _ _ inner next =>
      bridge.config.zeroize.publicBuffers = true ∧ inner.WipesPublic ∧
        ∀ reply learnt, (next reply learnt).WipesPublic

/-- The ciphertexts that some entry points give back unwiped, in the processes that they find. -/
def spilledBy (callbacks : List (Process × Process.Callback)) : List Bytes :=
  callbacks.filterMap fun made => made.2.spilled? made.1

theorem spilledBy_append (first second : List (Process × Process.Callback)) :
    spilledBy (first ++ second) = spilledBy first ++ spilledBy second :=
  List.filterMap_append

theorem spilledBy_cons (p : Process) (c : Process.Callback)
    (rest : List (Process × Process.Callback)) :
    spilledBy ((p, c) :: rest) = (c.spilled? p).toList ++ spilledBy rest := by
  cases hspilled : c.spilled? p <;> simp [spilledBy, hspilled]

namespace Process

variable {bridges : List Bridge} {σ : Type} {p q : Process} {bridge : Bridge} {op : String}
  {shape : CallShape} {policy : Option Policy}

/-- What stands before the body of a call does not touch the heap. -/
theorem heap_beginCall {result : Except Fault Call}
    (hbegin : p.beginCall bridge op shape policy = (result, q)) : q.heap = p.heap := by
  have hshare : ∀ r : Process, (r.sharePool? bridge.pool?).heap = r.heap := by
    intro r
    cases bridge.pool? <;> rfl
  rcases beginCall_cases hbegin with ⟨_, _, _, _, rfl⟩ | ⟨_, _, rfl⟩ |
    ⟨_, bound, _, _, hmemory, _, rfl⟩
  · rfl
  · exact hshare p
  · rw [hshare bound]
    exact congrArg Memory.heap hmemory

/-- A call through a bridge that wipes public data leaves what its body leaves. -/
theorem leaves_invoke {exec : Process → Scope → Course σ}
    {during : Process → Scope → List (Process × Callback)} {others : List Holder}
    (held : bridge ∈ bridges) (hpublic : bridge.config.zeroize.publicBuffers = true)
    (ha : p.memory.Accounts (bridges.map .bridge ++ others))
    (htrade : ∀ (q : Process) (s : Scope),
      q.memory.Trade (.scope s :: bridges.map .bridge) (exec q s).process.memory
        (.scope (exec q s).scope :: ((exec q s).given ++ bridges.map .bridge)))
    (hbody : ∀ {q : Process} {s : Scope},
      q.memory.Accounts (.scope s :: bridges.map .bridge ++ others) → s.Thorough q.heap →
        q.heap.Leaves (exec q s).process.heap (spilledBy (during q s)) ∧
          (exec q s).scope.Thorough (exec q s).process.heap)
    (op : String) (shape : CallShape) (policy : Option Policy) :
    p.heap.Leaves (p.invokeBody bridge op shape policy exec).2.heap
      (spilledBy (p.callbacks bridge op shape policy during)) := by
  rcases hbegin : p.beginCall bridge op shape policy with ⟨fault | call, q⟩ <;>
    rw [callbacks, hbegin] <;> have hheap := heap_beginCall hbegin
  · rw [(invoke_refused exec hbegin).1, hheap]
    exact .refl _
  · have hopened := (trade_opened held hbegin others ha).1
    have hthorough : call.scope.Thorough q.heap := by
      rw [(trade_beginCall hbegin).1]
      exact ⟨hpublic, fun o ho => by cases ho⟩
    obtain ⟨hran, hleft⟩ := hbody hopened hthorough
    have hafter := (htrade q call.scope others hopened).1
    have hended : (exec q call.scope).process.heap.Leaves
        ((exec q call.scope).process.endScope (exec q call.scope).scope).heap [] :=
      Memory.leaves_endScope hafter hleft
    have hboth := hran.trans hended
    rw [List.append_nil, hheap] at hboth
    rw [(invoke_reached exec hbegin).1]
    exact p.leaves_then hboth (memory_endCall _ _ _)

end Process

namespace Body

variable {bridges : List Bridge} {σ : Type}

/-- A body that wipes public data leaves the ciphertexts that its entry points give back, and its
scope spares nothing. -/
theorem leaves (body : Body bridges σ) (hwipes : body.WipesPublic) {p : Process} {s : Scope}
    {others : List Holder} (ha : p.memory.Accounts (.scope s :: bridges.map .bridge ++ others))
    (hs : s.Thorough p.heap) :
    p.heap.Leaves (body.exec p s).process.heap (spilledBy (body.callbacks p s)) ∧
      (body.exec p s).scope.Thorough (body.exec p s).process.heap := by
  induction body generalizing p s others with
  | done outcome learnt => exact ⟨.refl _, hs⟩
  | refuse granted next ih =>
      have hrefused := (Memory.Operation.trade p (.refuse granted)) _ ha
      have hsame : p.heap.Leaves { p.heap with granted } [] := .of_trace rfl rfl fun _ => rfl
      obtain ⟨hrest, hleft⟩ := ih hwipes hrefused.1 (hs.mono hsame)
      exact ⟨hsame.trans hrest, hleft⟩
  | input bytes secrecy next ih =>
      have hinput := (Memory.Operation.trade p (.input s bytes secrecy)) _ ha
      obtain ⟨hmade, hscope⟩ := Memory.leaves_input hs rfl
      obtain ⟨hrest, hleft⟩ := ih _ (hwipes _) hinput.1 hscope
      exact ⟨hmade.trans hrest, hleft⟩
  | inputBatch items next ih =>
      have hinput := (Memory.Operation.trade p (.inputBatch s items)) _ ha
      obtain ⟨hmade, hscope⟩ := Memory.leaves_inputBatch ha.sound hs rfl
      obtain ⟨hrest, hleft⟩ := ih _ (hwipes _) hinput.1 hscope
      exact ⟨hmade.trans hrest, hleft⟩
  | call c next ih =>
      obtain ⟨hafter, -⟩ := accounts_over ((c.trade p).frame (bridges.map .bridge)) ha
      have hcalled := c.leaves_run p
      obtain ⟨hrest, hleft⟩ := ih _ (hwipes _) hafter (hs.mono hcalled)
      rw [callbacks, spilledBy_cons]
      exact ⟨hcalled.trans hrest, hleft⟩
  | aside work _ _ next ih => exact hwipes.elim
  | invoke bridge held op shape policy inner next ihInner ihNext =>
      obtain ⟨hpublic, hinner, hnext⟩ := hwipes
      obtain ⟨hafter, -⟩ := accounts_over (inner.trade_call p held op shape policy) ha
      -- for the inner call, the scope of this body is one of the others
      have hcalled : p.heap.Leaves (p.invokeBody bridge op shape policy inner.exec).2.heap
          (spilledBy (p.callbacks bridge op shape policy inner.callbacks)) :=
        Process.leaves_invoke held hpublic (ha.congr (.of_perm List.perm_middle.symm)) inner.trade
          (ihInner hinner) op shape policy
      obtain ⟨hrest, hleft⟩ := ihNext _ _ (hnext _ _) hafter (hs.mono hcalled)
      rw [callbacks, spilledBy_append]
      exact ⟨hcalled.trans hrest, hleft⟩

end Body

/-- While some entry points were called, the only data that were freed unwiped are the ciphertexts
that these gave back. -/
structure Process.SpillsOnly (p q : Process) (callbacks : List (Process × Process.Callback)) :
    Prop where
  residues : q.heap.residues p.heap = spilledBy callbacks
  /-- If there were none, all data were wiped. -/
  wiped : q.heap.WipedSince p.heap ↔ ∀ made ∈ callbacks, made.2.spilled? made.1 = none

namespace Ledger

/-- During a call whose bridge wipes public data, everything that is freed is wiped, except for the
ciphertexts that entry points give back when there is no memory for the shared secret beside
them. -/
theorem wiped_unless_spilled (ops : List Process.Operation) {σ : Type} {bridge : Bridge}
    (held : bridge ∈ (history ops).bridges)
    (hpublic : bridge.config.zeroize.publicBuffers = true) (op : String) (shape : CallShape)
    (policy : Option Policy) (body : Body (history ops).bridges σ) (hwipes : body.WipesPublic) :
    (history ops).process.SpillsOnly
      ((history ops).process.invokeBody bridge op shape policy body.exec).2
      ((history ops).process.callbacks bridge op shape policy body.callbacks) := by
  obtain ⟨others, hperm⟩ := (history ops).holders_bridges
  have ha : (history ops).process.memory.Accounts ((history ops).bridges.map .bridge ++ others) :=
    (balanced_history ops).congr (.of_perm hperm)
  have hleaves := Process.leaves_invoke held hpublic ha body.trade (body.leaves hwipes) op shape
    policy
  refine ⟨hleaves.residues, ?_⟩
  rw [← Heap.residues_eq_nil_iff, hleaves.residues, spilledBy, List.filterMap_eq_nil_iff]

/-- A process with a bridge that has a small pool and wipes public data. -/
def thoroughConfig : Config := { smallConfig with zeroize := { publicBuffers := true } }

def thorough : List Process.Operation := [.createBridge thoroughConfig]

def thoroughBridge : Bridge := ⟨thoroughConfig, some 0⟩

/-- A body that marshals public inputs into the pool and beside it, and during which native code
encapsulates while there is memory for one block only. -/
def shortBody : Body (history thorough).bridges Unit :=
  .input [1, 2] .exposed fun _ =>
  .input [1, 2, 3, 4, 5] .exposed fun _ =>
  .inputBatch [[1], [2, 3]] fun _ =>
  .refuse (some 1) <|
  .call (.encapsulate ⟨.host [7], 1⟩ ⟨.host (Bytes.zeros 32), 32⟩ (some .empty) (some .empty))
    fun answer => .done (.returned answer.code) ()

theorem held_thoroughBridge : thoroughBridge ∈ (history thorough).bridges := by decide

theorem wipesPublic_shortBody : shortBody.WipesPublic := fun _ _ _ _ => trivial

theorem wiped_unless_spilled_shortBody :
    thoroughBridge ∈ (history thorough).bridges ∧
      thoroughBridge.config.zeroize.publicBuffers = true ∧ shortBody.WipesPublic ∧
      (history thorough).process.SpillsOnly
        ((history thorough).process.invokeBody thoroughBridge "op" .invokesCallbacks
          (some KemCall.oneByteEach) shortBody.exec).2
        ((history thorough).process.callbacks thoroughBridge "op" .invokesCallbacks
          (some KemCall.oneByteEach) shortBody.callbacks) :=
  ⟨held_thoroughBridge, rfl, wipesPublic_shortBody,
    wiped_unless_spilled thorough held_thoroughBridge rfl "op" .invokesCallbacks
      (some KemCall.oneByteEach) shortBody wipesPublic_shortBody⟩

/-- Wiping public data does not reach every release of a call: the block of the ciphertext is made
and freed during this one, and the ciphertext is still in it. -/
theorem spilled_not_wiped :
    thoroughBridge ∈ (history thorough).bridges ∧
      thoroughBridge.config.zeroize.publicBuffers = true ∧ shortBody.WipesPublic ∧
      ∃ events, events = ((history thorough).process.invokeBody thoroughBridge "op"
          .invokesCallbacks (some KemCall.oneByteEach) shortBody.exec).2.heap.since
            (history thorough).process.heap ∧
        .allocated 4 1 ∈ events ∧ .freed 4 ⟨1, [1]⟩ (.payload 1 false) ∈ events :=
  ⟨held_thoroughBridge, rfl, wipesPublic_shortBody, _, rfl, by decide, by decide⟩

end Ledger

end NativeBoundary

import NativeBoundary.Kem.Entry
import NativeBoundary.Proofs.Memory.Scopes
import NativeBoundary.Transport.Entry

/-!
# Trades of entry points and bridges

An entry point makes native blocks only to hand them over.  When it succeeds, what stands in its
out-parameters belongs to native code from then on; when it fails, at whatever stage, every block
that it made on the way has been freed again.  So an entry point is a trade of nothing for what
its outcome hands over.

A bridge is one more user of its pool, and so is every scope that is opened through it.

* `Process.trade_encapsulate`, `Process.trade_decapsulate`, `Process.trade_derivePublic`,
  `Process.trade_receive`, `Process.trade_receiveAll` — the entry points;
* `Process.trade_bridgeOf`, `Process.trade_bridgeScope`, `Process.trade_dropBridge` — bridges.
-/

namespace NativeBoundary

open Memory (SameStakes stakes_rawBuffer stakes_rawBatch stakes_scope)

/-- What an outcome hands over. -/
def Reply.handed {α : Type} (held : α → List Holder) : Reply Fault α → List Holder
  | .value a => held a
  | .refusal _ => []
  | .panic _ => []

/-- What native code holds in an out-parameter. -/
def inBuffer (out : Option RawBuffer) : List Holder := out.toList.map .rawBuffer

/-- What native code holds in an out-parameter for a batch. -/
def inBatch (out : Option RawBatch) : List Holder := out.toList.map .rawBatch

/-- What native code got from an entry point that receives a message. -/
def ReceiveReply.given (reply : ReceiveReply) : List Holder :=
  if reply.code = Code.success then inBuffer reply.message else []

/-- What native code got from an entry point that receives several messages. -/
def ReceiveAllReply.given (reply : ReceiveAllReply) : List Holder :=
  if reply.code = Code.success then inBatch reply.messages else []

/-- An empty out-parameter holds nothing. -/
theorem stakes_emptyBuffer : SameStakes [.rawBuffer .empty] [] :=
  ⟨fun _ => rfl, fun _ => rfl, fun _ => rfl⟩

theorem stakes_emptyBatch : SameStakes [.rawBatch .empty] [] :=
  ⟨fun _ => rfl, fun _ => rfl, fun _ => rfl⟩

namespace Process

variable {p p' : Process}

/-- What is handed over was copied. -/
theorem handOver_ok {bytes : Bytes} {secrecy : Secrecy} {raw : RawBuffer}
    (hc : p.handOver bytes secrecy = (.ok raw, p')) :
    ∃ b h, OwnedBuffer.copyFrom bytes secrecy p.heap = (.ok b, h) ∧ raw = b.raw ∧
      p' = p.setHeap h := by
  unfold handOver at hc
  split at hc
  · rename_i b h hcopy
    cases hc
    exact ⟨b, h, hcopy, rfl, rfl⟩
  · cases hc

theorem handOverPair_ok {ciphertext secret : Bytes} {pair : RawBuffer × RawBuffer}
    (hc : p.handOverPair ciphertext secret = (.ok pair, p')) :
    ∃ first second h h', OwnedBuffer.copyFrom ciphertext .exposed p.heap = (.ok first, h) ∧
      OwnedBuffer.copyFrom secret .secret h = (.ok second, h') ∧
      pair = (first.raw, second.raw) ∧ p' = p.setHeap h' := by
  unfold handOverPair at hc
  split at hc
  · cases hc
  · rename_i first h hfirst
    split at hc
    · cases hc
    · rename_i second h' hsecond
      cases hc
      exact ⟨first, second, h, h', hfirst, hsecond, rfl, rfl⟩

theorem trade_handOver {bytes : Bytes} {secrecy : Secrecy} {raw : RawBuffer}
    (hc : p.handOver bytes secrecy = (.ok raw, p')) :
    p.memory.Trade [] p'.memory [.rawBuffer raw] := by
  obtain ⟨b, h, hcopy, rfl, rfl⟩ := handOver_ok hc
  exact (Memory.trade_copyBuffer hcopy).congr (.refl []) (stakes_rawBuffer b)

theorem trade_handOver_error {bytes : Bytes} {secrecy : Secrecy} {fault : Fault}
    (hc : p.handOver bytes secrecy = (.error fault, p')) : p.memory.Trade [] p'.memory [] := by
  unfold handOver at hc
  split at hc
  · cases hc
  · rename_i hcopy
    cases hc
    exact Memory.trade_copyBuffer_error hcopy

theorem trade_handOverPair {ciphertext secret : Bytes} {pair : RawBuffer × RawBuffer}
    (hc : p.handOverPair ciphertext secret = (.ok pair, p')) :
    p.memory.Trade [] p'.memory [.rawBuffer pair.1, .rawBuffer pair.2] := by
  obtain ⟨first, second, h, h', hfirst, hsecond, rfl, rfl⟩ := handOverPair_ok hc
  have hgot := Memory.trade_copyBuffer hfirst
  have hmore := (Memory.trade_copyBuffer (m := { p.memory with heap := h }) hsecond).frame
    [.buffer first]
  refine (hgot.trans hmore).congr (.refl []) ?_
  have hswap : SameStakes [.buffer second, .buffer first] [.buffer first, .buffer second] :=
    .of_perm (List.Perm.swap _ _ _)
  have hraw := (stakes_rawBuffer first).append_right [.buffer second]
  exact (hswap.trans hraw).trans ((stakes_rawBuffer second).append_left [.rawBuffer first.raw])

/-- When there is no memory for the second result, the first is given back. -/
theorem trade_handOverPair_error {ciphertext secret : Bytes} {fault : Fault}
    (hc : p.handOverPair ciphertext secret = (.error fault, p')) :
    p.memory.Trade [] p'.memory [] := by
  unfold handOverPair at hc
  split at hc
  · rename_i hfirst
    cases hc
    exact Memory.trade_copyBuffer_error hfirst
  · rename_i first h hfirst
    have hgot := Memory.trade_copyBuffer hfirst
    split at hc
    · rename_i h' hsecond
      cases hc
      have hfailed := (Memory.trade_copyBuffer_error (m := { p.memory with heap := h })
        hsecond).frame [.buffer first]
      have hdropped := Memory.trade_dropBuffer { p.memory with heap := h' } first
      exact (hgot.trans hfailed).trans hdropped
    · cases hc

/-- What follows the answer of a policy trades as its last step does. -/
theorem trade_settle {α β : Type} {reply : Reply KemError α}
    {give : Process → α → Except Fault β × Process} {held : β → List Holder}
    (hok : ∀ {a b q}, give p a = (.ok b, q) → p.memory.Trade [] q.memory (held b))
    (herror : ∀ {a fault q}, give p a = (.error fault, q) → p.memory.Trade [] q.memory []) :
    p.memory.Trade [] (p.settle reply give).2.memory ((p.settle reply give).1.handed held) := by
  unfold settle
  split
  · split
    · rename_i hgive
      exact hok hgive
    · rename_i hgive
      exact herror hgive
  · exact .refl _ _
  · exact .refl _ _

@[simp] theorem memory_closeKem {α : Type} (p : Process) (op : String) (reply : Reply Fault α) :
    (p.closeKem op reply).2.memory = p.memory := by
  cases reply <;> rfl

/-- A request that passes its checks has somewhere to put its result. -/
theorem isSome_of_requireOut {out : Option RawBuffer} {name : String} {accepted : Unit}
    (hc : KemEntry.requireOut out name = .ok accepted) : out.isSome := by
  cases out with
  | none => cases hc
  | some raw => rfl

theorem encapsulateRequest_outs {encapsulationKey seed : RawBuffer}
    {ciphertext secret : Option RawBuffer} {request : Policy × Bytes × Bytes32}
    (hc : p.encapsulateRequest encapsulationKey seed ciphertext secret = .ok request) :
    ciphertext.isSome ∧ secret.isSome := by
  unfold encapsulateRequest at hc
  cases hfirst : KemEntry.requireOut ciphertext "ciphertext" with
  | error fault =>
      cases hpolicy : p.currentPolicy <;> rw [hpolicy, hfirst] at hc <;> cases hc
  | ok accepted =>
      cases hsecond : KemEntry.requireOut secret "shared secret" with
      | error fault =>
          cases hpolicy : p.currentPolicy <;> rw [hpolicy, hfirst, hsecond] at hc <;> cases hc
      | ok accepted => exact ⟨isSome_of_requireOut hfirst, isSome_of_requireOut hsecond⟩

theorem decapsulateRequest_out {key : UInt64} {ciphertext : RawBuffer} {out : Option RawBuffer}
    {request : Policy × HostValue × Bytes}
    (hc : p.decapsulateRequest key ciphertext out = .ok request) : out.isSome := by
  unfold decapsulateRequest at hc
  cases hout : KemEntry.requireOut out "shared secret" with
  | error fault => cases hpolicy : p.currentPolicy <;> rw [hpolicy, hout] at hc <;> cases hc
  | ok accepted => exact isSome_of_requireOut hout

theorem derivePublicRequest_out {key : UInt64} {out : Option RawBuffer}
    {request : Policy × HostValue} (hc : p.derivePublicRequest key out = .ok request) :
    out.isSome := by
  unfold derivePublicRequest at hc
  cases hout : KemEntry.requireOut out "encapsulation key" with
  | error fault => cases hpolicy : p.currentPolicy <;> rw [hpolicy, hout] at hc <;> cases hc
  | ok accepted => exact isSome_of_requireOut hout

/-- An out-parameter that is there takes exactly what the outcome hands over. -/
theorem stakes_filled {out : Option RawBuffer} {reply : Reply Fault RawBuffer}
    (hout : ∀ raw, reply = .value raw → out.isSome) :
    SameStakes (reply.handed fun raw => [.rawBuffer raw]) (inBuffer (filled out reply)) := by
  have hempty : SameStakes [] (inBuffer (out.map fun _ => .empty)) := by
    cases out with
    | none => exact .refl []
    | some raw => exact stakes_emptyBuffer.symm
  cases reply with
  | value raw =>
      obtain ⟨old, rfl⟩ := Option.isSome_iff_exists.mp (hout raw rfl)
      exact .refl _
  | refusal fault => exact hempty
  | panic message => exact hempty

theorem trade_encapsulate (p : Process) (encapsulationKey seed : RawBuffer)
    (ciphertext secret : Option RawBuffer) :
    p.memory.Trade [] (p.encapsulate encapsulationKey seed ciphertext secret).2.memory
      (inBuffer (p.encapsulate encapsulationKey seed ciphertext secret).1.ciphertext ++
        inBuffer (p.encapsulate encapsulationKey seed ciphertext secret).1.secret) := by
  have hrun : p.memory.Trade []
      (p.runEncapsulate encapsulationKey seed ciphertext secret).2.memory
      ((p.runEncapsulate encapsulationKey seed ciphertext secret).1.handed
        fun pair => [.rawBuffer pair.1, .rawBuffer pair.2]) := by
    unfold runEncapsulate
    split
    · exact .refl _ _
    · exact trade_settle (p := p.record _) trade_handOverPair trade_handOverPair_error
  have houts : ∀ pair, (p.runEncapsulate encapsulationKey seed ciphertext secret).1 = .value pair →
      ciphertext.isSome ∧ secret.isSome := by
    intro pair hvalue
    unfold runEncapsulate at hvalue
    split at hvalue
    · cases hvalue
    · rename_i hrequest
      exact encapsulateRequest_outs hrequest
  unfold encapsulate
  revert hrun houts
  generalize p.runEncapsulate encapsulationKey seed ciphertext secret = result
  obtain ⟨reply, q⟩ := result
  intro hrun houts
  simp only [memory_closeKem]
  refine hrun.congr (.refl []) ?_
  have hfirst : SameStakes ((reply.map Prod.fst).handed fun raw => [.rawBuffer raw])
      (inBuffer (filled ciphertext (reply.map Prod.fst))) := by
    refine stakes_filled fun raw hraw => ?_
    cases reply <;> cases hraw
    exact (houts _ rfl).1
  have hsecond : SameStakes ((reply.map Prod.snd).handed fun raw => [.rawBuffer raw])
      (inBuffer (filled secret (reply.map Prod.snd))) := by
    refine stakes_filled fun raw hraw => ?_
    cases reply <;> cases hraw
    exact (houts _ rfl).2
  have hboth := (hfirst.append_right _).trans (hsecond.append_left _)
  cases reply <;> exact hboth

theorem trade_decapsulate (p : Process) (key : UInt64) (ciphertext : RawBuffer)
    (out : Option RawBuffer) :
    p.memory.Trade [] (p.decapsulate key ciphertext out).2.memory
      (inBuffer (p.decapsulate key ciphertext out).1.out) := by
  have hrun : p.memory.Trade [] (p.runDecapsulate key ciphertext out).2.memory
      ((p.runDecapsulate key ciphertext out).1.handed fun raw => [.rawBuffer raw]) := by
    unfold runDecapsulate
    split
    · exact .refl _ _
    · exact trade_settle (p := p.record _) trade_handOver trade_handOver_error
  have hout : ∀ raw, (p.runDecapsulate key ciphertext out).1 = .value raw → out.isSome := by
    intro raw hvalue
    unfold runDecapsulate at hvalue
    split at hvalue
    · cases hvalue
    · rename_i hrequest
      exact decapsulateRequest_out hrequest
  unfold decapsulate
  simp only [memory_closeKem]
  exact hrun.congr (.refl []) (stakes_filled hout)

theorem trade_derivePublic (p : Process) (key : UInt64) (out : Option RawBuffer) :
    p.memory.Trade [] (p.derivePublic key out).2.memory
      (inBuffer (p.derivePublic key out).1.out) := by
  have hrun : p.memory.Trade [] (p.runDerivePublic key out).2.memory
      ((p.runDerivePublic key out).1.handed fun raw => [.rawBuffer raw]) := by
    unfold runDerivePublic
    split
    · exact .refl _ _
    · exact trade_settle (p := p.record _) trade_handOver trade_handOver_error
  have hout : ∀ raw, (p.runDerivePublic key out).1 = .value raw → out.isSome := by
    intro raw hvalue
    unfold runDerivePublic at hvalue
    split at hvalue
    · cases hvalue
    · rename_i hrequest
      exact derivePublicRequest_out hrequest
  unfold derivePublic
  simp only [memory_closeKem]
  exact hrun.congr (.refl []) (stakes_filled hout)

@[simp] theorem memory_closeTransportCall {α : Type} (p : Process) (op : String)
    (reply : Reply Fault α) : (p.closeTransportCall op reply).2.memory = p.memory := by
  cases reply <;> rfl

theorem memory_transportSend (p : Process) (context : UInt64) (receiver : Int32)
    (message : RawBuffer) : (p.transportSend context receiver message).2.memory = p.memory := by
  unfold transportSend runSend
  simp only [memory_closeTransportCall]
  split <;> rfl

theorem trade_receiveBuffer (p : Process) (id : TransportId) (sender : Nat) :
    p.memory.Trade [] (p.receiveBuffer id sender).2.memory
      ((p.receiveBuffer id sender).1.handed fun raw => [.rawBuffer raw]) := by
  unfold receiveBuffer
  simp only
  split
  · exact .refl _ _
  · exact .refl _ _
  · split
    · rename_i b h hcopy
      exact (Memory.trade_copyBuffer (m := p.memory) hcopy).congr (.refl []) (stakes_rawBuffer b)
    · rename_i hcopy
      exact Memory.trade_copyBuffer_error (m := p.memory) hcopy

theorem trade_receiveBatch (p : Process) (id : TransportId) (senders : List Nat) :
    p.memory.Trade [] (p.receiveBatch id senders).2.memory
      ((p.receiveBatch id senders).1.handed fun raw => [.rawBatch raw]) := by
  unfold receiveBatch
  simp only
  split
  · exact .refl _ _
  · exact .refl _ _
  · split
    · exact .refl _ _
    · split
      · rename_i b h hcopy
        exact (Memory.trade_copyBatch (m := p.memory) hcopy).congr (.refl []) (stakes_rawBatch b)
      · rename_i hcopy
        exact Memory.trade_copyBatch_error (m := p.memory) hcopy

/-- A context that stands for no transport is reported as not found. -/
theorem code_of_unresolved {context : UInt64} {fault : Fault}
    (hc : p.resolveTransport context = .error fault) : fault.code = Code.notFound := by
  unfold resolveTransport at hc
  split at hc
  · cases hc
    rfl
  · split at hc
    · cases hc
    · cases hc
      rfl

/-- A refusal for want of a transport is a failure. -/
theorem failed_of_unresolved {context : UInt64} {fault : Fault} {reply : Reply Fault Unit}
    (q : Process) (op : String) (hc : p.resolveTransport context = .error fault)
    (hreply : reply = .refusal fault) : (q.closeTransportCall op reply).1 ≠ Code.success := by
  rw [hreply]
  change fault.code ≠ Code.success
  rw [code_of_unresolved hc]
  decide

/-- What a failed entry point leaves in an out-parameter: nothing, once there is a transport. -/
def leftover {α : Type} (p : Process) (context : UInt64) (empty : α) (out : Option α) : Option α :=
  match p.resolveTransport context with
  | .ok _ => out.map fun _ => empty
  | .error _ => out

/-- What native code counts as received is what the outcome hands over; at most it looks into an
out-parameter that was emptied. -/
theorem given_cases {α : Type} {context : UInt64} {empty : α} {out message : Option α}
    {reply : Reply Fault Unit} (q : Process) (op : String)
    (hunresolved : ∀ fault, p.resolveTransport context = .error fault → reply = .refusal fault)
    (hleft : reply = .value () ∨ message = p.leftover context empty out) :
    reply = .value () ∨ (q.closeTransportCall op reply).1 ≠ Code.success ∨
      message = out.map fun _ => empty := by
  rcases hleft with hvalue | hmessage
  · exact .inl hvalue
  · refine .inr ?_
    unfold leftover at hmessage
    cases hc : p.resolveTransport context with
    | error fault =>
        left
        exact failed_of_unresolved q op hc (hunresolved fault hc)
    | ok id =>
        rw [hc] at hmessage
        exact .inr hmessage

theorem stakes_given {α : Type} {wrap : α → Holder} {context : UInt64} {empty : α}
    {out message : Option α} {reply : Reply Fault Unit} (q : Process) (op : String)
    (hempty : SameStakes [wrap empty] [])
    (hunresolved : ∀ fault, p.resolveTransport context = .error fault → reply = .refusal fault)
    (hleft : reply = .value () ∨ message = p.leftover context empty out) :
    SameStakes (reply.handed fun _ => message.toList.map wrap)
      (if (q.closeTransportCall op reply).1 = Code.success then message.toList.map wrap
        else []) := by
  rcases given_cases q op hunresolved hleft with rfl | hcode | rfl
  · exact .refl _
  · rw [if_neg hcode]
    cases reply with
    | value u => exact absurd rfl hcode
    | refusal fault => exact .refl []
    | panic text => exact .refl []
  · have hnothing : SameStakes [] ((out.map fun _ => empty).toList.map wrap) := by
      cases out with
      | none => exact .refl []
      | some old => exact hempty.symm
    cases reply with
    | value u => exact .refl _
    | panic text => exact .refl []
    | refusal fault =>
        by_cases hcode : (q.closeTransportCall op (.refusal fault : Reply Fault Unit)).1 =
            Code.success
        · rw [if_pos hcode]
          exact hnothing
        · rw [if_neg hcode]
          exact .refl []

section

variable (p : Process) (context : UInt64) (sender : Int32) (out : Option RawBuffer)

theorem runReceive_unresolved {fault : Fault} (hc : p.resolveTransport context = .error fault) :
    (p.runReceive context sender out).1 = .refusal fault := by
  unfold runReceive
  rw [hc]

/-- A receive that does not succeed leaves nothing, or what it found when there was no transport
to ask. -/
theorem runReceive_leftover :
    (p.runReceive context sender out).1 = .value () ∨
      (p.runReceive context sender out).2.1 = p.leftover context .empty out := by
  unfold runReceive leftover
  split <;> rename_i hresolve <;> rw [hresolve]
  · exact .inr rfl
  · exact .inr rfl
  · split
    · exact .inr rfl
    · split
      · exact .inl rfl
      · exact .inr rfl
      · exact .inr rfl

theorem trade_runReceive :
    p.memory.Trade [] (p.runReceive context sender out).2.2.memory
      ((p.runReceive context sender out).1.handed
        fun _ => inBuffer (p.runReceive context sender out).2.1) := by
  unfold runReceive
  split
  · exact .refl _ _
  · exact .refl _ _
  · split
    · exact .refl _ _
    · rename_i id _ _ _ party _
      have hreceive := p.trade_receiveBuffer id party
      split <;> rename_i hresult <;> rw [hresult] at hreceive <;> exact hreceive

theorem trade_receive :
    p.memory.Trade [] (p.transportReceive context sender out).2.memory
      (p.transportReceive context sender out).1.given := by
  have hrun := p.trade_runReceive context sender out
  have hgiven := stakes_given (p.runReceive context sender out).2.2 TransportEntry.receiveName
    stakes_emptyBuffer (fun _ => p.runReceive_unresolved context sender out)
    (p.runReceive_leftover context sender out)
  unfold transportReceive
  simp only [memory_closeTransportCall]
  exact hrun.congr (.refl []) hgiven

end

section

variable (p : Process) (context : UInt64) (senders : Option (List Int32)) (count : Int32)
  (out : Option RawBatch)

theorem runReceiveAll_unresolved {fault : Fault}
    (hc : p.resolveTransport context = .error fault) :
    (p.runReceiveAll context senders count out).1 = .refusal fault := by
  unfold runReceiveAll
  rw [hc]

theorem runReceiveAll_leftover :
    (p.runReceiveAll context senders count out).1 = .value () ∨
      (p.runReceiveAll context senders count out).2.1 = p.leftover context .empty out := by
  unfold runReceiveAll leftover
  split <;> rename_i hresolve <;> rw [hresolve]
  · exact .inr rfl
  · exact .inr rfl
  · split
    · exact .inr rfl
    · exact .inl rfl
    · split
      · exact .inl rfl
      · exact .inr rfl
      · exact .inr rfl

theorem trade_runReceiveAll :
    p.memory.Trade [] (p.runReceiveAll context senders count out).2.2.memory
      ((p.runReceiveAll context senders count out).1.handed
        fun _ => inBatch (p.runReceiveAll context senders count out).2.1) := by
  unfold runReceiveAll
  split
  · exact .refl _ _
  · exact .refl _ _
  · split
    · exact .refl _ _
    · exact (Memory.Trade.refl _ _).congr (.refl []) stakes_emptyBatch.symm
    · rename_i id _ _ _ parties _ _
      have hreceive := p.trade_receiveBatch id parties
      split <;> rename_i hresult <;> rw [hresult] at hreceive <;> exact hreceive

theorem trade_receiveAll :
    p.memory.Trade [] (p.transportReceiveAll context senders count out).2.memory
      (p.transportReceiveAll context senders count out).1.given := by
  have hrun := p.trade_runReceiveAll context senders count out
  have hgiven := stakes_given (p.runReceiveAll context senders count out).2.2
    TransportEntry.receiveAllName stakes_emptyBatch
    (fun _ => p.runReceiveAll_unresolved context senders count out)
    (p.runReceiveAll_leftover context senders count out)
  unfold transportReceiveAll
  simp only [memory_closeTransportCall]
  exact hrun.congr (.refl []) hgiven

end

section

variable {b : Bridge} {c : Config}

/-- A bridge has the stake of a pool value for its pool. -/
theorem stakes_bridge (b : Bridge) : SameStakes (b.pool?.toList.map .pool) [.bridge b] := by
  obtain ⟨config, pool?⟩ := b
  cases pool? with
  | none => exact ⟨fun _ => rfl, fun _ => rfl, fun _ => rfl⟩
  | some id => exact ⟨fun _ => rfl, fun _ => rfl, fun _ => rfl⟩

/-- A bridge is made with a pool of its own, or without one. -/
theorem bridgeOf_ok (hc : p.bridgeOf c = (.ok b, p')) :
    (∃ id memory, p.memory.createPool c.pool.blocks c.pool.blockSize = (some id, memory) ∧
      b = ⟨c, some id⟩ ∧ p' = p.setMemory memory) ∨ (b = ⟨c, none⟩ ∧ p' = p) := by
  unfold bridgeOf at hc
  split at hc
  · cases hc
  · split at hc
    · split at hc
      · rename_i id memory hcreate
        cases hc
        exact .inl ⟨id, memory, hcreate, rfl, rfl⟩
      · cases hc
    · cases hc
      exact .inr ⟨rfl, rfl⟩

theorem bridgeOf_error {fault : Fault} (hc : p.bridgeOf c = (.error fault, p')) :
    (∃ memory, p.memory.createPool c.pool.blocks c.pool.blockSize = (none, memory) ∧
      p' = p.setMemory memory) ∨ p' = p := by
  unfold bridgeOf at hc
  split at hc
  · cases hc
    exact .inr rfl
  · split at hc
    · split at hc
      · cases hc
      · rename_i memory hcreate
        cases hc
        exact .inl ⟨memory, hcreate, rfl⟩
    · cases hc

theorem trade_bridgeOf (hc : p.bridgeOf c = (.ok b, p')) :
    p.memory.Trade [] p'.memory [.bridge b] := by
  rcases bridgeOf_ok hc with ⟨id, memory, hcreate, rfl, rfl⟩ | ⟨rfl, rfl⟩
  · exact (Memory.trade_createPool hcreate).congr (.refl []) (stakes_bridge ⟨c, some id⟩)
  · exact (Memory.Trade.refl _ _).congr (.refl []) (stakes_bridge ⟨c, none⟩)

theorem trade_bridgeOf_error {fault : Fault} (hc : p.bridgeOf c = (.error fault, p')) :
    p.memory.Trade [] p'.memory [] := by
  rcases bridgeOf_error hc with ⟨memory, hcreate, rfl⟩ | rfl
  · exact Memory.trade_createPool_none hcreate
  · exact .refl _ _

theorem trade_defaultBridge (p : Process) :
    p.memory.Trade [] p.defaultBridge.2.memory [.bridge p.defaultBridge.1] := by
  unfold defaultBridge
  cases hcreate : p.memory.createPool defaultBlocks defaultBlockSize with
  | mk pool? memory =>
      cases pool? with
      | none =>
          exact (Memory.trade_createPool_none hcreate).congr (.refl []) (stakes_bridge ⟨_, none⟩)
      | some id =>
          exact (Memory.trade_createPool hcreate).congr (.refl []) (stakes_bridge ⟨_, some id⟩)

/-- One more user of the pool of a bridge, whoever it is. -/
theorem trade_sharePool? {x : Holder} (p : Process) (b : Bridge)
    (hx : SameStakes (b.pool?.toList.map .pool) [x]) :
    p.memory.Trade [.bridge b] (p.sharePool? b.pool?).memory [x, .bridge b] := by
  have hbridge := stakes_bridge b
  have hnew := (hx.append_right _).trans (hbridge.append_left [x])
  unfold sharePool?
  cases hpool : b.pool? with
  | none =>
      rw [hpool] at hbridge hnew
      exact (Memory.Trade.refl _ _).congr hbridge.symm hnew
  | some id =>
      rw [hpool] at hbridge hnew
      exact (Memory.trade_sharePool p.memory id).congr hbridge.symm hnew

theorem trade_shareBridge (p : Process) (b : Bridge) :
    p.memory.Trade [.bridge b] (p.shareBridge b).memory [.bridge b, .bridge b] :=
  p.trade_sharePool? b (stakes_bridge b)

/-- A pool value beside a bridge is one more user of the pool. -/
theorem trade_bridgePool (p : Process) (b : Bridge) :
    p.memory.Trade [.bridge b] (p.sharePool? b.pool?).memory
      (b.pool?.toList.map .pool ++ [.bridge b]) :=
  (p.trade_sharePool? b (stakes_bridge b)).congr (.refl _)
    ((stakes_bridge b).symm.append_right [.bridge b])

/-- A scope that is opened through a bridge is one more user of its pool. -/
theorem trade_bridgeScope (p : Process) (b : Bridge) (shape : CallShape) :
    p.memory.Trade [.bridge b] (p.openScope (b.scope shape)).2.memory
      [.scope (b.scope shape), .bridge b] :=
  p.trade_sharePool? b (stakes_scope (b.scope shape)).symm

theorem trade_dropBridge (p : Process) (b : Bridge) :
    p.memory.Trade [.bridge b] (p.dropBridge b).memory [] := by
  have hbridge := stakes_bridge b
  unfold dropBridge dropPool?
  cases hpool : b.pool? with
  | none =>
      rw [hpool] at hbridge
      exact (Memory.Trade.refl _ _).congr hbridge.symm (.refl [])
  | some id =>
      rw [hpool] at hbridge
      exact (Memory.trade_dropPool p.memory id).congr hbridge.symm (.refl [])

end

end Process

end NativeBoundary

import NativeBoundary.Proofs.Memory.Attempts
import NativeBoundary.Proofs.Process.Operations

/-!
# Contexts of transport entry points

The context that native code passes to a transport entry point decides which transport is asked.  If
it stands for a transport, nobody but that transport is called, at most once, and whatever goes
wrong has another code than a context that is unknown.  If it stands for none, the process reports
that and does nothing else.

* `Process.Callback.asks_of_resolved`, `Process.Callback.run_of_unresolved` — the two cases.
-/

namespace NativeBoundary

namespace HostCall

/-- The transport that was called. -/
def transport? : HostCall → Option TransportId
  | send id _ _ | receive id _ | receiveAll id _ => some id
  | encapsulate _ _ _ | decapsulate _ _ _ | derivePublic _ _ => none

/-- The handle under which the policy that was called is bound. -/
def policy? : HostCall → Option Handle
  | encapsulate policy _ _ | decapsulate policy _ _ | derivePublic policy _ => some policy
  | send _ _ _ | receive _ _ | receiveAll _ _ => none

end HostCall

namespace Process

variable {p q r : Process} {P : HostCall → Prop}

/-- Host code is called at most once, and only as it should be. -/
def Asks (p q : Process) (P : HostCall → Prop) : Prop :=
  ∃ made : List HostCall, q.calls = made ++ p.calls ∧ made.length ≤ 1 ∧ ∀ call ∈ made, P call

theorem asks_none (hcalls : q.calls = p.calls) : p.Asks q P :=
  ⟨[], hcalls, Nat.zero_le _, fun _ hcall => (nomatch hcall)⟩

theorem asks_one {call : HostCall} (hcalls : q.calls = call :: p.calls) (hcall : P call) :
    p.Asks q P :=
  ⟨[call], hcalls, Nat.le_refl _, fun _ hmem => List.mem_singleton.mp hmem ▸ hcall⟩

theorem Asks.congr (ha : p.Asks q P) (hcalls : r.calls = q.calls) : p.Asks r P := by
  obtain ⟨made, hq, hrest⟩ := ha
  exact ⟨made, hcalls.trans hq, hrest⟩

namespace Callback

/-- The context that is passed to a transport entry point. -/
def context? : Callback → Option UInt64
  | send context _ _ | receive context _ _ | receiveAll context _ _ _ => some context
  | encapsulate _ _ _ _ | decapsulate _ _ _ | derivePublic _ _ => none

/-- The return code of an entry point. -/
def code : (c : Callback) → c.Answer → Int32
  | encapsulate _ _ _ _, reply => reply.code
  | decapsulate _ _ _, reply | derivePublic _ _, reply => reply.code
  | send _ _ _, code => code
  | receive _ _ _, reply => reply.code
  | receiveAll _ _ _ _, reply => reply.code

end Callback

end Process

/-- An outcome that is not reported as something that was not found. -/
def Reply.Found {α : Type} : Reply Fault α → Prop
  | .refusal fault => fault.code ≠ Code.notFound
  | .value _ | .panic _ => True

namespace Process

open TransportEntry

theorem code_ne_notFound {α : Type} {reply : Reply Fault α} (hr : reply.Found) (q : Process)
    (op : String) : (q.closeTransportCall op reply).1 ≠ Code.notFound := by
  cases reply with
  | value a => exact (by decide : Code.success ≠ Code.notFound)
  | refusal fault => exact hr
  | panic message => exact (by decide : Code.transport ≠ Code.notFound)

@[simp] theorem calls_closeTransportCall {α : Type} (q : Process) (op : String)
    (reply : Reply Fault α) : (q.closeTransportCall op reply).2.calls = q.calls := by
  cases reply <;> rfl

/-- What a transport does is never reported as something that was not found. -/
theorem found_asFault {α : Type} (method : String) (reply : Reply TransportFault α) :
    (asFault method reply).Found := by
  cases reply with
  | value a | panic message => trivial
  | refusal fault => exact (by decide : Code.transport ≠ Code.notFound)

/-- Nothing is wrong with an index or a list of indices but the arguments. -/
theorem party_error {index : Int32} {fault : Fault} (hparty : party index = .error fault) :
    fault.code = Code.badArgument := by
  unfold party at hparty
  split at hparty <;> cases hparty
  rfl

theorem parties_error {indices : List Int32} {fault : Fault}
    (hparties : parties indices = .error fault) : fault.code = Code.badArgument := by
  induction indices with
  | nil => cases hparties
  | cons index rest ih =>
      rw [parties] at hparties
      cases hfirst : party index with
      | error other =>
          rw [hfirst] at hparties
          cases hparties
          exact party_error hfirst
      | ok first =>
          rw [hfirst] at hparties
          cases hrest : parties rest with
          | error other =>
              rw [hrest] at hparties
              cases hparties
              exact ih hrest
          | ok others =>
              rw [hrest] at hparties
              cases hparties

theorem senderList_error {senders : Option (List Int32)} {count : Int32} {fault : Fault}
    (hlist : senderList senders count = .error fault) : fault.code = Code.badArgument := by
  unfold senderList at hlist
  repeat' split at hlist
  all_goals first | cases hlist; rfl | cases hlist | exact parties_error hlist

/-- The code for an argument that is wrong is none for something that was not found. -/
theorem found_of_badArgument {α : Type} {fault : Fault} (hcode : fault.code = Code.badArgument) :
    (.refusal fault : Reply Fault α).Found := by
  change fault.code ≠ Code.notFound
  rw [hcode]
  decide

section

variable {p : Process} {context : UInt64} {id : TransportId}

/-- Once there is a transport, only arguments can be wrong with a message that is to be sent. -/
theorem sendRequest_cases (hres : p.resolveTransport context = .ok id) (receiver : Int32)
    (message : RawBuffer) :
    (∃ fault, p.sendRequest context receiver message = .error fault ∧
      fault.code = Code.badArgument) ∨
    ∃ n, p.sendRequest context receiver message = .ok (id, n, message.bytes p.heap) := by
  unfold sendRequest
  rw [hres]
  cases hparty : party receiver with
  | error fault => exact .inl ⟨fault, rfl, party_error hparty⟩
  | ok n =>
      cases hmalformed : isMalformed message with
      | true => exact .inl ⟨_, rfl, rfl⟩
      | false => exact .inr ⟨n, rfl⟩

/-- A message is sent through the transport of the context, if at all. -/
theorem asks_runSend (hres : p.resolveTransport context = .ok id) (receiver : Int32)
    (message : RawBuffer) :
    (p.runSend context receiver message).1.Found ∧
      p.Asks (p.runSend context receiver message).2 (·.transport? = some id) := by
  unfold runSend
  rcases sendRequest_cases hres receiver message with ⟨fault, hrequest, hcode⟩ | ⟨n, hrequest⟩
  · rw [hrequest]
    exact ⟨found_of_badArgument hcode, asks_none rfl⟩
  · rw [hrequest]
    exact ⟨found_asFault _ _, asks_one rfl rfl⟩

/-- Receiving one message calls its transport once. -/
theorem asks_receiveBuffer (p : Process) (id : TransportId) (sender : Nat) :
    (p.receiveBuffer id sender).1.Found ∧
      p.Asks (p.receiveBuffer id sender).2 (·.transport? = some id) := by
  have hfound := found_asFault "receive"
    ((p.record (.receive id sender)).network.receive id sender).1
  unfold receiveBuffer
  simp only
  split <;> rename_i hreply
  · rw [hreply] at hfound
    exact ⟨hfound, asks_one rfl rfl⟩
  · exact ⟨trivial, asks_one rfl rfl⟩
  · split <;> rename_i hcopy
    · exact ⟨trivial, asks_one rfl rfl⟩
    · obtain ⟨⟨why, rfl⟩, -⟩ := OwnedBuffer.attempt_copyFrom_error hcopy
      exact ⟨found_of_badArgument rfl, asks_one rfl rfl⟩

theorem asks_runReceive (hres : p.resolveTransport context = .ok id) (sender : Int32)
    (out : Option RawBuffer) :
    (p.runReceive context sender out).1.Found ∧
      p.Asks (p.runReceive context sender out).2.2 (·.transport? = some id) := by
  unfold runReceive
  rw [hres]
  cases out with
  | none => exact ⟨found_of_badArgument rfl, asks_none rfl⟩
  | some raw =>
      cases hparty : party sender with
      | error fault => exact ⟨found_of_badArgument (party_error hparty), asks_none rfl⟩
      | ok n =>
          obtain ⟨hfound, hasks⟩ := p.asks_receiveBuffer id n
          simp only
          split <;> rename_i hreceive <;> rw [hreceive] at hfound hasks
          · exact ⟨trivial, hasks⟩
          · exact ⟨hfound, hasks⟩
          · exact ⟨trivial, hasks⟩

/-- So does receiving several. -/
theorem asks_receiveBatch (p : Process) (id : TransportId) (senders : List Nat) :
    (p.receiveBatch id senders).1.Found ∧
      p.Asks (p.receiveBatch id senders).2 (·.transport? = some id) := by
  have hfound := found_asFault "receive_all"
    ((p.record (.receiveAll id senders)).network.receiveAll id senders).1
  unfold receiveBatch
  simp only
  split <;> rename_i hreply
  · rw [hreply] at hfound
    exact ⟨hfound, asks_one rfl rfl⟩
  · exact ⟨trivial, asks_one rfl rfl⟩
  · split
    · exact ⟨(by decide : Code.transport ≠ Code.notFound), asks_one rfl rfl⟩
    · split <;> rename_i hcopy
      · exact ⟨trivial, asks_one rfl rfl⟩
      · obtain ⟨⟨why, rfl⟩, -⟩ := OwnedBatch.attempt_copyFrom_error hcopy
        exact ⟨found_of_badArgument rfl, asks_one rfl rfl⟩

theorem asks_runReceiveAll (hres : p.resolveTransport context = .ok id)
    (senders : Option (List Int32)) (count : Int32) (out : Option RawBatch) :
    (p.runReceiveAll context senders count out).1.Found ∧
      p.Asks (p.runReceiveAll context senders count out).2.2 (·.transport? = some id) := by
  unfold runReceiveAll
  rw [hres]
  cases out with
  | none => exact ⟨found_of_badArgument rfl, asks_none rfl⟩
  | some raw =>
      simp only
      split <;> rename_i hlist
      · exact ⟨found_of_badArgument (senderList_error hlist), asks_none rfl⟩
      · exact ⟨trivial, asks_none rfl⟩
      · rename_i parties _
        obtain ⟨hfound, hasks⟩ := p.asks_receiveBatch id parties
        split <;> rename_i hreceive <;> rw [hreceive] at hfound hasks
        · exact ⟨trivial, hasks⟩
        · exact ⟨hfound, hasks⟩
        · exact ⟨trivial, hasks⟩

end

namespace Callback

variable {p : Process} {c : Callback} {context : UInt64}

/-- With a context that stands for a transport, that transport is called, at most once, and the code
is not the one for an unknown context. -/
theorem asks_of_resolved {id : TransportId} (hc : c.context? = some context)
    (hres : p.resolveTransport context = .ok id) :
    c.code (c.run p).1 ≠ Code.notFound ∧ p.Asks (c.run p).2 (·.transport? = some id) := by
  cases c with
  | send _ receiver message =>
      cases hc
      obtain ⟨hfound, hasks⟩ := asks_runSend hres receiver message
      exact ⟨code_ne_notFound hfound _ _, hasks.congr (calls_closeTransportCall _ _ _)⟩
  | receive _ sender out =>
      cases hc
      obtain ⟨hfound, hasks⟩ := asks_runReceive hres sender out
      exact ⟨code_ne_notFound hfound _ _, hasks.congr (calls_closeTransportCall _ _ _)⟩
  | receiveAll _ senders count out =>
      cases hc
      obtain ⟨hfound, hasks⟩ := asks_runReceiveAll hres senders count out
      exact ⟨code_ne_notFound hfound _ _, hasks.congr (calls_closeTransportCall _ _ _)⟩
  | encapsulate _ _ _ _ | decapsulate _ _ _ | derivePublic _ _ => cases hc

/-- With any other context the call is reported, and nothing else happens. -/
theorem run_of_unresolved {fault : Fault} (hc : c.context? = some context)
    (hres : p.resolveTransport context = .error fault) :
    c.code (c.run p).1 = Code.notFound ∧ ∃ notice, (c.run p).2 = p.report notice := by
  have hcode := code_of_unresolved hres
  cases c with
  | send _ receiver message =>
      cases hc
      have hrun : p.runSend context receiver message = (.refusal fault, p) := by
        unfold runSend sendRequest
        rw [hres]
        rfl
      simp only [code, run, transportSend, hrun]
      exact ⟨hcode, _, rfl⟩
  | receive _ sender out =>
      cases hc
      have hrun : p.runReceive context sender out = (.refusal fault, out, p) := by
        unfold runReceive
        rw [hres]
      simp only [code, run, transportReceive, hrun]
      exact ⟨hcode, _, rfl⟩
  | receiveAll _ senders count out =>
      cases hc
      have hrun : p.runReceiveAll context senders count out = (.refusal fault, out, p) := by
        unfold runReceiveAll
        rw [hres]
      simp only [code, run, transportReceiveAll, hrun]
      exact ⟨hcode, _, rfl⟩
  | encapsulate _ _ _ _ | decapsulate _ _ _ | derivePublic _ _ => cases hc

end Callback

end Process

end NativeBoundary

import NativeBoundary.Proofs.Call.Body
import NativeBoundary.Proofs.Kem.Outcomes
import NativeBoundary.Proofs.Transport.Outcomes

/-!
# Kinds of failures across the boundary

A failure crosses the boundary as a bare code and becomes a fault again on the other side.  Its text
is lost on the way, but its kind is not: `Fault.ofCode?` finds a fault of the kind that the code
was made of, for every kind in the table of codes.  Only a second binding, which has no code of its own,
comes back as a bad argument.

So a failure survives a round trip.  A callback that native code makes during a call may fail, in
its checks, in the policy or the transport that it reaches, or in handing over the results; if native
code returns its code as its own, the call fails in the same way.  The entry points only ever fail with
faults in the table, and a panic has a code of its own.

* `Fault.kind_ofCode?_code` — what becomes of a fault;
* `Process.Callback.crosses_outcome` — how an entry point can fail;
* `Process.error_kinds_cross` — codes, faults, and the calls that pass the code of a callback on.
-/

namespace NativeBoundary

namespace Fault

/-- What sort of failure a fault is, without its text. -/
inductive Kind
  | badArgument
  | notFound
  | notSupported
  | cryptoFailure
  | bitLeak
  | alreadyBound
  | transport
  | native
deriving DecidableEq, Repr

def kind : Fault → Kind
  | .badArgument _ => .badArgument
  | .notFound _ => .notFound
  | .notSupported _ => .notSupported
  | .cryptoFailure _ => .cryptoFailure
  | .bitLeak => .bitLeak
  | .alreadyBound => .alreadyBound
  | .transport _ => .transport
  | .native _ _ => .native

/-- The kind as which a kind comes back. -/
def Kind.crossed : Kind → Kind
  | alreadyBound => badArgument
  | kind => kind

/-- A fault that comes back as what it is. -/
def Crosses (fault : Fault) : Prop := fault.kind ≠ .native ∧ fault.kind ≠ .alreadyBound

theorem Crosses.crossed {fault : Fault} (hf : fault.Crosses) : fault.kind.crossed = fault.kind := by
  obtain ⟨-, hbound⟩ := hf
  cases hkind : fault.kind with
  | alreadyBound => exact absurd hkind hbound
  | badArgument | notFound | notSupported | cryptoFailure | bitLeak | transport | native => rfl

theorem crosses_badArgument (reason : String) : (badArgument reason).Crosses :=
  ⟨by simp [kind], by simp [kind]⟩

theorem crosses_notFound (what : String) : (notFound what).Crosses :=
  ⟨by simp [kind], by simp [kind]⟩

theorem crosses_transport (reason : String) : (transport reason).Crosses :=
  ⟨by simp [kind], by simp [kind]⟩

/-- A fault in the table is no success. -/
theorem code_ne_success {fault : Fault} (hf : fault.kind ≠ .native) :
    fault.code ≠ Code.success := by
  cases fault with
  | native operation code => exact absurd rfl hf
  | badArgument _ | notFound _ | notSupported _ | cryptoFailure _ | bitLeak | alreadyBound
  | transport _ =>
      simp only [code]
      decide

/-- Its code is read as a fault of its kind. -/
theorem kind_ofCode?_code {fault : Fault} (hf : fault.kind ≠ .native) (op : String) :
    ∃ back, ofCode? op fault.code = some back ∧ back.kind = fault.kind.crossed := by
  cases fault with
  | native operation code => exact absurd rfl hf
  | badArgument _ | notFound _ | notSupported _ | cryptoFailure _ | bitLeak | alreadyBound
  | transport _ => exact ⟨_, rfl, rfl⟩

theorem Crosses.ofCode? {fault : Fault} (hf : fault.Crosses) (op : String) :
    ∃ back, Fault.ofCode? op fault.code = some back ∧ back.kind = fault.kind := by
  obtain ⟨back, hread, hkind⟩ := kind_ofCode?_code hf.1 op
  exact ⟨back, hread, hkind.trans hf.crossed⟩

/-- A leaked bit has a code that nothing else is read from. -/
theorem isBitLeak_ofCode? {op : String} {code : Int32} {fault : Fault}
    (h : ofCode? op code = some fault) : fault.isBitLeak = true ↔ code = Code.bitLeak := by
  unfold ofCode? at h
  repeat' split at h
  all_goals cases h
  all_goals simp_all [isBitLeak] <;> decide

/-- A code is checked by reading it. -/
theorem check_eq_ok_iff (op : String) (code : Int32) :
    check op code = .ok () ↔ code = Code.success := by
  rw [← ofCode?_eq_none_iff op code]
  unfold check
  cases ofCode? op code <;> simp

end Fault

/-- A check that fails, if it does, with a fault that crosses the boundary. -/
def OnlyCrosses {α : Type} (x : Except Fault α) : Prop := ∀ fault, x = .error fault → fault.Crosses

namespace OnlyCrosses

variable {α β : Type}

theorem ok (a : α) : OnlyCrosses (.ok a) := by
  intro fault herror
  cases herror

theorem error {fault : Fault} (hf : fault.Crosses) :
    OnlyCrosses (.error fault : Except Fault α) := by
  intro other herror
  cases herror
  exact hf

theorem badArgument (reason : String) :
    OnlyCrosses (.error (.badArgument reason) : Except Fault α) :=
  error (Fault.crosses_badArgument reason)

theorem notFound (what : String) : OnlyCrosses (.error (.notFound what) : Except Fault α) :=
  error (Fault.crosses_notFound what)

/-- One check after the other. -/
theorem bind {x : Except Fault α} {f : α → Except Fault β} (hx : OnlyCrosses x)
    (hf : ∀ a, OnlyCrosses (f a)) : OnlyCrosses (x >>= f) := by
  cases x with
  | error fault => exact error (hx fault rfl)
  | ok a => exact hf a

end OnlyCrosses

/-- An outcome that is, if it is a refusal, a fault that crosses the boundary. -/
def Reply.Crosses {α : Type} (reply : Reply Fault α) : Prop :=
  ∀ fault, reply = .refusal fault → fault.Crosses

namespace Reply.Crosses

variable {α : Type}

theorem value (a : α) : (.value a : Reply Fault α).Crosses := by
  intro fault hrefusal
  cases hrefusal

theorem panic (message : String) : (.panic message : Reply Fault α).Crosses := by
  intro fault hrefusal
  cases hrefusal

theorem refusal {fault : Fault} (hf : fault.Crosses) :
    (.refusal fault : Reply Fault α).Crosses := by
  intro other hrefusal
  cases hrefusal
  exact hf

end Reply.Crosses

namespace KemEntry

theorem crosses_requireOut (out : Option RawBuffer) (name : String) :
    OnlyCrosses (requireOut out name) := by
  unfold requireOut
  split
  · exact .badArgument _
  · exact .ok _

theorem crosses_requireInput (input : RawBuffer) (name : String) :
    OnlyCrosses (requireInput input name) := by
  unfold requireInput
  split
  · exact .badArgument _
  · exact .ok _

theorem crosses_requireSeed (seed : RawBuffer) (heap : Heap) :
    OnlyCrosses (requireSeed seed heap) := by
  unfold requireSeed
  split
  · exact .ok _
  · exact .badArgument _

end KemEntry

namespace TransportEntry

theorem crosses_party (index : Int32) : OnlyCrosses (party index) := by
  unfold party
  split
  · exact .badArgument _
  · exact .ok _

theorem crosses_parties (indices : List Int32) : OnlyCrosses (parties indices) := by
  rcases Process.parties_cases indices with ⟨-, reason, hparties⟩ | ⟨-, hparties⟩ <;> rw [hparties]
  · exact .badArgument _
  · exact .ok _

theorem crosses_senderList (senders : Option (List Int32)) (count : Int32) :
    OnlyCrosses (senderList senders count) := by
  unfold senderList
  split
  · exact .badArgument _
  · split
    · exact .ok _
    · split
      · exact .badArgument _
      · exact crosses_parties _

end TransportEntry

theorem KemError.crosses_toFault (e : KemError) : e.toFault.Crosses := by
  cases e <;> exact ⟨by simp [toFault, Fault.kind], by simp [toFault, Fault.kind]⟩

namespace Process

open KemEntry TransportEntry

variable (p : Process)

theorem crosses_currentPolicy : OnlyCrosses p.currentPolicy := by
  rcases p.currentPolicy_cases with ⟨policy, -, hcurrent⟩ | ⟨-, what, hcurrent⟩ <;> rw [hcurrent]
  · exact .ok _
  · exact .notFound _

theorem crosses_privateKey (key : UInt64) : OnlyCrosses (p.privateKey key) := by
  unfold privateKey
  split
  · exact .badArgument _
  · split
    · exact .ok _
    · exact .notFound _

theorem crosses_resolveTransport (context : UInt64) : OnlyCrosses (p.resolveTransport context) := by
  rcases p.session_cases context with ⟨id, -, hresolve⟩ | ⟨-, what, hresolve⟩ <;> rw [hresolve]
  · exact .ok _
  · exact .notFound _

theorem crosses_encapsulateRequest (encapsulationKey seed : RawBuffer)
    (ciphertext secret : Option RawBuffer) :
    OnlyCrosses (p.encapsulateRequest encapsulationKey seed ciphertext secret) :=
  .bind p.crosses_currentPolicy fun _ => .bind (crosses_requireOut _ _) fun _ =>
    .bind (crosses_requireOut _ _) fun _ => .bind (crosses_requireInput _ _) fun _ =>
      .bind (crosses_requireSeed _ _) fun _ => .ok _

theorem crosses_decapsulateRequest (key : UInt64) (ciphertext : RawBuffer)
    (out : Option RawBuffer) : OnlyCrosses (p.decapsulateRequest key ciphertext out) :=
  .bind p.crosses_currentPolicy fun _ => .bind (crosses_requireOut _ _) fun _ =>
    .bind (crosses_requireInput _ _) fun _ => .bind (p.crosses_privateKey _) fun _ => .ok _

theorem crosses_derivePublicRequest (key : UInt64) (out : Option RawBuffer) :
    OnlyCrosses (p.derivePublicRequest key out) :=
  .bind p.crosses_currentPolicy fun _ => .bind (crosses_requireOut _ _) fun _ =>
    .bind (p.crosses_privateKey _) fun _ => .ok _

theorem crosses_sendRequest (context : UInt64) (receiver : Int32) (message : RawBuffer) :
    OnlyCrosses (p.sendRequest context receiver message) := by
  refine .bind (p.crosses_resolveTransport context) fun _ => .bind (crosses_party receiver) ?_
  intro _
  split
  · exact .badArgument _
  · exact .ok _

theorem crosses_handOver (bytes : Bytes) (secrecy : Secrecy) :
    OnlyCrosses (p.handOver bytes secrecy).1 := by
  unfold handOver
  split <;> rename_i hcopy
  · exact .ok _
  · obtain ⟨⟨why, rfl⟩, -⟩ := OwnedBuffer.attempt_copyFrom_error hcopy
    exact .badArgument why

theorem crosses_handOverPair (ciphertext secret : Bytes) :
    OnlyCrosses (p.handOverPair ciphertext secret).1 := by
  unfold handOverPair
  split <;> rename_i hfirst
  · obtain ⟨⟨why, rfl⟩, -⟩ := OwnedBuffer.attempt_copyFrom_error hfirst
    exact .badArgument why
  · split <;> rename_i hsecond
    · obtain ⟨⟨why, rfl⟩, -⟩ := OwnedBuffer.attempt_copyFrom_error hsecond
      exact .badArgument why
    · exact .ok _

/-- What a policy does is passed on with faults that cross, if handing over its results fails with
such a fault. -/
theorem crosses_settle {α β : Type} (reply : Reply KemError α)
    {give : Process → α → Except Fault β × Process} (hgive : ∀ a, OnlyCrosses (give p a).1) :
    (p.settle reply give).1.Crosses := by
  unfold settle
  cases reply with
  | value a =>
      have hgiven := hgive a
      simp only [Reply.asFault]
      split <;> rename_i heq <;> rw [heq] at hgiven
      · exact .value _
      · exact .refusal (hgiven _ rfl)
  | refusal e => exact .refusal e.crosses_toFault
  | panic message => exact .panic message

theorem crosses_runEncapsulate (encapsulationKey seed : RawBuffer)
    (ciphertext secret : Option RawBuffer) :
    (p.runEncapsulate encapsulationKey seed ciphertext secret).1.Crosses := by
  have hrequest := p.crosses_encapsulateRequest encapsulationKey seed ciphertext secret
  unfold runEncapsulate
  split <;> rename_i heq
  · exact .refusal (hrequest _ heq)
  · exact crosses_settle _ _ fun pair => crosses_handOverPair _ pair.1 pair.2

theorem crosses_runDecapsulate (key : UInt64) (ciphertext : RawBuffer) (out : Option RawBuffer) :
    (p.runDecapsulate key ciphertext out).1.Crosses := by
  have hrequest := p.crosses_decapsulateRequest key ciphertext out
  unfold runDecapsulate
  split <;> rename_i heq
  · exact .refusal (hrequest _ heq)
  · exact crosses_settle _ _ fun secret => crosses_handOver _ secret .secret

theorem crosses_runDerivePublic (key : UInt64) (out : Option RawBuffer) :
    (p.runDerivePublic key out).1.Crosses := by
  have hrequest := p.crosses_derivePublicRequest key out
  unfold runDerivePublic
  split <;> rename_i heq
  · exact .refusal (hrequest _ heq)
  · exact crosses_settle _ _ fun encapsulationKey => crosses_handOver _ encapsulationKey .exposed

/-- A refusal of a transport crosses. -/
theorem crosses_asFault {α : Type} (method : String) (reply : Reply TransportFault α) :
    (asFault method reply).Crosses := by
  cases reply with
  | value a => exact .value a
  | panic message => exact .panic _
  | refusal fault => exact .refusal (Fault.crosses_transport _)

theorem crosses_runSend (context : UInt64) (receiver : Int32) (message : RawBuffer) :
    (p.runSend context receiver message).1.Crosses := by
  have hrequest := p.crosses_sendRequest context receiver message
  unfold runSend
  split <;> rename_i heq
  · exact .refusal (hrequest _ heq)
  · exact crosses_asFault _ _

theorem crosses_receiveBuffer (id : TransportId) (sender : Nat) :
    (p.receiveBuffer id sender).1.Crosses := by
  have hreply := crosses_asFault "receive"
    ((p.record (.receive id sender)).network.receive id sender).1
  unfold receiveBuffer
  simp only
  split <;> rename_i heq
  · exact .refusal (hreply _ heq)
  · exact .panic _
  · split <;> rename_i hcopy
    · exact .value _
    · obtain ⟨⟨why, rfl⟩, -⟩ := OwnedBuffer.attempt_copyFrom_error hcopy
      exact .refusal (Fault.crosses_badArgument why)

theorem crosses_receiveBatch (id : TransportId) (senders : List Nat) :
    (p.receiveBatch id senders).1.Crosses := by
  have hreply := crosses_asFault "receive_all"
    ((p.record (.receiveAll id senders)).network.receiveAll id senders).1
  unfold receiveBatch
  simp only
  split <;> rename_i heq
  · exact .refusal (hreply _ heq)
  · exact .panic _
  · split
    · exact .refusal (Fault.crosses_transport _)
    · split <;> rename_i hcopy
      · exact .value _
      · obtain ⟨⟨why, rfl⟩, -⟩ := OwnedBatch.attempt_copyFrom_error hcopy
        exact .refusal (Fault.crosses_badArgument why)

theorem crosses_runReceive (context : UInt64) (sender : Int32) (out : Option RawBuffer) :
    (p.runReceive context sender out).1.Crosses := by
  have hresolve := p.crosses_resolveTransport context
  unfold runReceive
  split <;> rename_i heq
  · exact .refusal (hresolve _ heq)
  · exact .refusal (Fault.crosses_badArgument _)
  · split <;> rename_i hparty
    · exact .refusal (crosses_party sender _ hparty)
    · rename_i id _ _ n
      have hreceive := p.crosses_receiveBuffer id n
      split <;> rename_i hreply <;> rw [hreply] at hreceive
      · exact .value _
      · exact .refusal (hreceive _ rfl)
      · exact .panic _

theorem crosses_runReceiveAll (context : UInt64) (senders : Option (List Int32)) (count : Int32)
    (out : Option RawBatch) : (p.runReceiveAll context senders count out).1.Crosses := by
  have hresolve := p.crosses_resolveTransport context
  unfold runReceiveAll
  split <;> rename_i heq
  · exact .refusal (hresolve _ heq)
  · exact .refusal (Fault.crosses_badArgument _)
  · split <;> rename_i hlist
    · exact .refusal (crosses_senderList senders count _ hlist)
    · exact .value _
    · rename_i id _ _ parties _
      have hreceive := p.crosses_receiveBatch id parties
      split <;> rename_i hreply <;> rw [hreply] at hreceive
      · exact .value _
      · exact .refusal (hreceive _ rfl)
      · exact .panic _

namespace Callback

/-- What happens in an entry point, before it is made a return code. -/
def outcome (p : Process) : Callback → Reply Fault Unit
  | encapsulate encapsulationKey seed ciphertext secret =>
      (p.runEncapsulate encapsulationKey seed ciphertext secret).1.map fun _ => ()
  | decapsulate key ciphertext out => (p.runDecapsulate key ciphertext out).1.map fun _ => ()
  | derivePublic key out => (p.runDerivePublic key out).1.map fun _ => ()
  | send context receiver message => (p.runSend context receiver message).1
  | receive context sender out => (p.runReceive context sender out).1
  | receiveAll context senders count out => (p.runReceiveAll context senders count out).1

/-- What a panic in an entry point is taken for. -/
def panicKind : Callback → Fault.Kind
  | encapsulate _ _ _ _ | decapsulate _ _ _ | derivePublic _ _ => .cryptoFailure
  | send _ _ _ | receive _ _ _ | receiveAll _ _ _ _ => .transport

variable {p : Process} {c : Callback}

/-- Whatever goes wrong in an entry point, its fault crosses the boundary. -/
theorem crosses_outcome (p : Process) (c : Callback) : (c.outcome p).Crosses := by
  have hmap {α : Type} {reply : Reply Fault α} (hr : reply.Crosses) :
      (reply.map fun _ => ()).Crosses := by
    intro fault hrefusal
    cases reply with
    | refusal e =>
        cases hrefusal
        exact hr fault rfl
    | value a | panic message => cases hrefusal
  cases c with
  | encapsulate encapsulationKey seed ciphertext secret =>
      exact hmap (p.crosses_runEncapsulate encapsulationKey seed ciphertext secret)
  | decapsulate key ciphertext out => exact hmap (p.crosses_runDecapsulate key ciphertext out)
  | derivePublic key out => exact hmap (p.crosses_runDerivePublic key out)
  | send context receiver message => exact p.crosses_runSend context receiver message
  | receive context sender out => exact p.crosses_runReceive context sender out
  | receiveAll context senders count out =>
      exact p.crosses_runReceiveAll context senders count out

/-- The return code of an entry point says how it went. -/
theorem code_run (p : Process) (c : Callback) :
    c.code (c.run p).1 =
      match c.outcome p, c.context? with
      | .value _, _ => Code.success
      | .refusal fault, _ => fault.code
      | .panic _, none => Code.crypto
      | .panic _, some _ => Code.transport := by
  cases c with
  | encapsulate encapsulationKey seed ciphertext secret =>
      simp only [code, run, Process.encapsulate, outcome, context?]
      rcases p.runEncapsulate encapsulationKey seed ciphertext secret with ⟨_ | _ | _, q⟩ <;> rfl
  | decapsulate key ciphertext out =>
      simp only [code, run, Process.decapsulate, outcome, context?]
      rcases p.runDecapsulate key ciphertext out with ⟨_ | _ | _, q⟩ <;> rfl
  | derivePublic key out =>
      simp only [code, run, Process.derivePublic, outcome, context?]
      rcases p.runDerivePublic key out with ⟨_ | _ | _, q⟩ <;> rfl
  | send context receiver message =>
      simp only [code, run, Process.transportSend, outcome, context?]
      rcases p.runSend context receiver message with ⟨_ | _ | _, q⟩ <;> rfl
  | receive context sender out =>
      simp only [code, run, Process.transportReceive, outcome, context?]
      rcases p.runReceive context sender out with ⟨_ | _ | _, left, q⟩ <;> rfl
  | receiveAll context senders count out =>
      simp only [code, run, Process.transportReceiveAll, outcome, context?]
      rcases p.runReceiveAll context senders count out with ⟨_ | _ | _, left, q⟩ <;> rfl

/-- The code of an entry point that failed is read as a fault of the kind of the failure. -/
theorem ofCode?_code_run (op : String) :
    (∀ fault, c.outcome p = .refusal fault →
      ∃ back, Fault.ofCode? op (c.code (c.run p).1) = some back ∧ back.kind = fault.kind) ∧
    (∀ message, c.outcome p = .panic message →
      ∃ back, Fault.ofCode? op (c.code (c.run p).1) = some back ∧ back.kind = c.panicKind) := by
  rw [code_run]
  constructor
  · intro fault houtcome
    rw [houtcome]
    exact (c.crosses_outcome p fault houtcome).ofCode? op
  · intro message houtcome
    rw [houtcome]
    cases c <;> exact ⟨_, rfl, rfl⟩

end Callback

end Process

namespace KemCall

/-- The call of an entry point that this is. -/
def callback : KemCall → Process.Callback
  | encapsulate encapsulationKey seed ciphertext secret =>
      .encapsulate encapsulationKey seed ciphertext secret
  | decapsulate key ciphertext out => .decapsulate key ciphertext out
  | derivePublic key out => .derivePublic key out

variable {p : Process} {k : KemCall} {call : HostCall}

/-- A refusal and a panic of a policy are passed on as they are. -/
theorem map_settle (p : Process) {α β : Type} (reply : Reply KemError α) (outputs : α → List Bytes)
    (give : Process → α → Except Fault β × Process) :
    (∀ e, reply.map outputs = .refusal e →
      ((p.settle reply give).1.map fun _ => ()) = .refusal e.toFault) ∧
    (∀ message, reply.map outputs = .panic message →
      ((p.settle reply give).1.map fun _ => ()) = .panic message) := by
  constructor
  · intro e hmap
    cases reply with
    | value a | panic message => cases hmap
    | refusal other =>
        cases hmap
        rfl
  · intro message hmap
    cases reply with
    | value a | refusal e => cases hmap
    | panic other =>
        cases hmap
        rfl

/-- What a policy refuses with, or that it panics, is what happens in the entry point. -/
theorem outcome_of_asked {reply : Reply KemError (List Bytes)} (hf : k.firstFailure? p = none)
    (hasked : k.asked? p = some (call, reply)) :
    (∀ e, reply = .refusal e → k.callback.outcome p = .refusal e.toFault) ∧
    (∀ message, reply = .panic message → k.callback.outcome p = .panic message) := by
  cases k with
  | encapsulate encapsulationKey seed ciphertext secret =>
      rcases encapsulateRequest_cases p encapsulationKey seed ciphertext secret with
        ⟨_, _, hfirst⟩ | ⟨policy, rho, _, _, hrequest, -, hbound, hrho, rfl, rfl⟩
      · cases hfirst.symm.trans hf
      · simp only [asked?, hbound, hrho] at hasked
        cases hasked
        simp only [callback, Process.Callback.outcome, Process.runEncapsulate, hrequest]
        exact map_settle _ _ _ _
  | decapsulate key ciphertext out =>
      rcases decapsulateRequest_cases p key ciphertext out with
        ⟨_, _, hfirst⟩ | ⟨policy, object, _, hrequest, -, hbound, hlookup, rfl⟩
      · cases hfirst.symm.trans hf
      · simp only [asked?, hbound, hlookup] at hasked
        cases hasked
        simp only [callback, Process.Callback.outcome, Process.runDecapsulate, hrequest]
        exact map_settle _ _ _ _
  | derivePublic key out =>
      rcases derivePublicRequest_cases p key out with
        ⟨_, _, hfirst⟩ | ⟨policy, object, _, hrequest, -, hbound, hlookup, rfl⟩
      · cases hfirst.symm.trans hf
      · simp only [asked?, hbound, hlookup] at hasked
        cases hasked
        simp only [callback, Process.Callback.outcome, Process.runDerivePublic, hrequest]
        exact map_settle _ _ _ _

end KemCall

namespace Process

variable {bridges : List Bridge} {σ : Type} {p : Process} {bridge : Bridge} {op : String}
  {shape : CallShape} {policy : Option Policy}

theorem op_beginCall {q : Process} {call : Call}
    (hbegin : p.beginCall bridge op shape policy = (.ok call, q)) : call.op = op := by
  rcases beginCall_cases hbegin with ⟨_, _, _, hrefused, _⟩ | ⟨_, hok, _⟩ | ⟨_, _, _, _, _, hok, _⟩
  · cases hrefused
  · cases hok
    rfl
  · cases hok
    rfl

/-- A call whose body returns a code is a success or fails as the code says. -/
theorem invokeBody_of_returned {exec : Process → Scope → Course σ} {course : Course σ}
    {code : Int32}
    (hcourse : p.course? bridge op shape policy exec = some course)
    (hreturned : course.outcome = .returned code) :
    (p.invokeBody bridge op shape policy exec).1 =
      match Fault.ofCode? op code with
      | none => .value ()
      | some fault => .refusal fault := by
  rcases hbegin : p.beginCall bridge op shape policy with ⟨fault | call, q⟩
  · rw [course?, hbegin] at hcourse
    cases hcourse
  · rw [course?, hbegin] at hcourse
    cases hcourse
    obtain ⟨hinvoke, -⟩ := invoke_reached exec hbegin
    have hop : call.op = op := op_beginCall hbegin
    rw [hinvoke, hreturned, endCall, judge, hop]
    cases Fault.ofCode? op code <;> rfl

/-- A call fails with some kind of fault. -/
def FailsWith (reply : Reply Fault Unit) (kind : Fault.Kind) : Prop :=
  ∃ fault, reply = .refusal fault ∧ fault.kind = kind

/-- A call reports how a callback went that native code made in the process `q`. -/
structure Reports (reply : Reply Fault Unit) (q : Process) (c : Callback) : Prop where
  /-- A policy that refused. -/
  policyRefused : ∀ k : KemCall, k.callback = c → k.firstFailure? q = none → ∀ call e,
    k.asked? q = some (call, .refusal e) → FailsWith reply e.toFault.kind
  /-- A policy that panicked. -/
  policyPanicked : ∀ k : KemCall, k.callback = c → k.firstFailure? q = none → ∀ call message,
    k.asked? q = some (call, .panic message) → FailsWith reply .cryptoFailure
  /-- Whatever else went wrong, in the callback itself or in a transport. -/
  refused : ∀ fault, c.outcome q = .refusal fault → FailsWith reply fault.kind
  panicked : ∀ message, c.outcome q = .panic message → FailsWith reply c.panicKind
  /-- Nothing that went wrong is a success. -/
  succeeded : reply = .value () → c.outcome q = .value ()

/-- A call that returns the code of a callback reports how that went. -/
theorem reports_of_returned {reply : Reply Fault Unit} {q : Process} {c : Callback}
    (hreply : reply = match Fault.ofCode? op (c.code (c.run q).1) with
      | none => .value ()
      | some fault => .refusal fault) : Reports reply q c := by
  have hrefused (fault : Fault) (houtcome : c.outcome q = .refusal fault) :
      FailsWith reply fault.kind := by
    obtain ⟨back, hread, hkind⟩ := (Callback.ofCode?_code_run op).1 fault houtcome
    rw [hread] at hreply
    exact ⟨back, hreply, hkind⟩
  have hpanicked (message : String) (houtcome : c.outcome q = .panic message) :
      FailsWith reply c.panicKind := by
    obtain ⟨back, hread, hkind⟩ := (Callback.ofCode?_code_run op).2 message houtcome
    rw [hread] at hreply
    exact ⟨back, hreply, hkind⟩
  constructor
  case policyRefused =>
    rintro k rfl hf call e hasked
    exact hrefused _ ((KemCall.outcome_of_asked hf hasked).1 e rfl)
  case policyPanicked =>
    rintro k rfl hf call message hasked
    have hkind : k.callback.panicKind = .cryptoFailure := by cases k <;> rfl
    rw [← hkind]
    exact hpanicked message ((KemCall.outcome_of_asked hf hasked).2 message rfl)
  case refused => exact hrefused
  case panicked => exact hpanicked
  case succeeded =>
    intro hvalue
    cases houtcome : c.outcome q with
    | value u => rfl
    | refusal fault =>
        obtain ⟨back, hfails, -⟩ := hrefused fault houtcome
        cases hvalue.symm.trans hfails
    | panic message =>
        obtain ⟨back, hfails, -⟩ := hpanicked message houtcome
        cases hvalue.symm.trans hfails

/-- Kinds of failures survive the boundary.  A code is a success or one fault, which has that code
again; a fault comes back as one of its kind; and a call whose body returns the code of a callback
that native code made during the call reports how the callback went. -/
theorem error_kinds_cross :
    (∀ op code, (Fault.ofCode? op code = none ↔ code = Code.success) ∧
      (Fault.check op code = .ok () ↔ code = Code.success) ∧
      ∀ fault, Fault.ofCode? op code = some fault →
        Fault.check op code = .error fault ∧ fault.code = code ∧
          (fault.isBitLeak = true ↔ code = Code.bitLeak)) ∧
    (∀ fault : Fault, fault.kind ≠ .native → fault.code ≠ Code.success ∧
      ∀ op, ∃ back, Fault.ofCode? op fault.code = some back ∧ back.kind = fault.kind.crossed) ∧
    (∀ (bridges : List Bridge) (σ : Type) (body : Body bridges σ) (p : Process) (bridge : Bridge)
      (op : String) (shape : CallShape) (policy : Option Policy) (course : Course σ) (q : Process)
      (c : Callback), p.course? bridge op shape policy body.exec = some course →
        (q, c) ∈ p.callbacks bridge op shape policy body.callbacks →
        course.outcome = .returned (c.code (c.run q).1) →
          Reports (p.invokeBody bridge op shape policy body.exec).1 q c) := by
  refine ⟨fun op code => ⟨Fault.ofCode?_eq_none_iff op code, Fault.check_eq_ok_iff op code, ?_⟩,
    fun fault hf => ⟨Fault.code_ne_success hf, Fault.kind_ofCode?_code hf⟩, ?_⟩
  · intro fault hread
    refine ⟨?_, Fault.code_ofCode? hread, Fault.isBitLeak_ofCode? hread⟩
    rw [Fault.check, hread]
  · intro bridges σ body p bridge op shape policy course q c hcourse _ hreturned
    exact reports_of_returned (invokeBody_of_returned hcourse hreturned)

/-- A body in which native code encapsulates once and returns the code as its own. -/
def encapsulateOnce : Body [] Unit :=
  .call (.encapsulate ⟨.host [7], 1⟩ ⟨.host (Bytes.zeros 32), 32⟩ (some .empty) (some .empty))
    fun answer => .done (.returned answer.code) ()

/-- A leaked bit comes back as one; and when the policy that offers nothing refuses, the call fails
with that. -/
theorem error_kinds_cross_unsupported :
    (∃ back, Fault.ofCode? "op" Fault.bitLeak.code = some back ∧ back.kind = .bitLeak) ∧
      FailsWith (({} : Process).invokeBody ⟨default, none⟩ "op" .singleRoundTrip
        (some .unsupported) encapsulateOnce.exec).1 .notSupported :=
  ⟨(error_kinds_cross.2.1 .bitLeak (by decide)).2 "op",
    (error_kinds_cross.2.2 [] Unit encapsulateOnce {} ⟨default, none⟩ "op" .singleRoundTrip
      (some .unsupported) _ _ _ rfl (List.mem_singleton.mpr rfl) rfl).policyRefused
      (.encapsulate ⟨.host [7], 1⟩ ⟨.host (Bytes.zeros 32), 32⟩ (some .empty) (some .empty)) rfl
      (by decide) _ (.notSupported "encapsulate") rfl⟩

end Process

end NativeBoundary

import NativeBoundary.Proofs.Memory.BatchCodec
import NativeBoundary.Proofs.Transport.Contexts

/-!
# Outcomes of entry points for transports

What native code may rely on when it moves messages.  The checks of an entry point are a list
(`TransportCall.checks`), in the order in which they are made, each with the code that is returned
when it is the first to apply.  All of them are failures but one: receiving from nobody is a
success, and it is found out before the list of senders is looked at.  If none applies, the method of
the transport is called, once, with the parties and the bytes that the arguments denote
(`TransportCall.asked?`), and what it does decides about the code (`TransportCall.codeFor`): it may
refuse or panic, answer with too few or too many messages, or with messages that native memory
cannot hold.

* `TransportCall.Lawful` — all of that, for one call;
* `TransportCall.transport_asked_once` — it holds of every call in every process.
-/

namespace NativeBoundary

/-- A list of senders, as native code passes it.  Unless it is null there are as many indices as
its count says, and only these are read. -/
structure SenderList where
  list? : Option (List Int32)
  count : Int32
  enough : ∀ indices ∈ list?, count.toInt.toNat ≤ indices.length

namespace SenderList

/-- The number of senders. -/
def number (s : SenderList) : Nat := s.count.toInt.toNat

/-- The indices that are read. -/
def indices (s : SenderList) : List Int32 := (s.list?.getD []).take s.number

theorem number_pos {s : SenderList} (hnegative : ¬ s.count < 0) (hzero : s.count ≠ 0) :
    0 < s.number := by
  rw [Int32.lt_iff_toInt_lt, Int32.toInt_zero] at hnegative
  rw [ne_eq, ← Int32.toInt_inj, Int32.toInt_zero] at hzero
  unfold number
  omega

/-- All senders of a list that is not null are read. -/
theorem length_indices {s : SenderList} {list : List Int32} (hlist : s.list? = some list) :
    s.indices.length = s.number := by
  have henough := s.enough list hlist
  rw [indices, hlist, Option.getD_some, List.length_take]
  exact Nat.min_eq_left henough

end SenderList

/-- A call of an entry point for transports.  An out-parameter is given by what it holds before the
call; a null one is absent. -/
inductive TransportCall
  | send (context : UInt64) (receiver : Int32) (message : RawBuffer)
  | receive (context : UInt64) (sender : Int32) (out : Option RawBuffer)
  | receiveAll (context : UInt64) (senders : SenderList) (out : Option RawBatch)

/-- What native code sees of such a call. -/
structure TransportReply where
  code : Int32
  message : Option RawBuffer := none
  messages : Option RawBatch := none

/-- The transport of the session that a context stands for. -/
def Process.sessionTransport? (p : Process) (context : UInt64) : Option TransportId :=
  if context = 0 then none
  else
    match p.lookup? globalRegistry ⟨context⟩ with
    | some (.transport id) => some id
    | _ => none

namespace TransportCall

/-- Calls the entry point. -/
def run (p : Process) : TransportCall → TransportReply × Process
  | send context receiver message =>
      let (code, p) := p.transportSend context receiver message
      (⟨code, none, none⟩, p)
  | receive context sender out =>
      let (reply, p) := p.transportReceive context sender out
      (⟨reply.code, reply.message, none⟩, p)
  | receiveAll context senders out =>
      let (reply, p) := p.transportReceiveAll context senders.list? senders.count out
      (⟨reply.code, none, reply.messages⟩, p)

/-- What ends a call before the transport is asked, in the order in which it is looked at, and the
code for it. -/
def checks (p : Process) : TransportCall → List (Bool × Int32)
  | send context receiver message =>
      [((p.sessionTransport? context).isNone, Code.notFound),
        (receiver < 0, Code.badArgument),
        (message.size < 0, Code.badArgument),
        (message.data.isNull && message.size > 0, Code.badArgument)]
  | receive context sender out =>
      [((p.sessionTransport? context).isNone, Code.notFound),
        (out.isNone, Code.badArgument),
        (sender < 0, Code.badArgument)]
  | receiveAll context senders out =>
      [((p.sessionTransport? context).isNone, Code.notFound),
        (out.isNone, Code.badArgument),
        (senders.count < 0, Code.badArgument),
        (senders.count = 0, Code.success),
        (senders.list?.isNone, Code.badArgument),
        (senders.indices.any (· < 0), Code.badArgument)]

/-- The code of the first check that applies. -/
def firstStop? (p : Process) (c : TransportCall) : Option Int32 :=
  ((c.checks p).find? (·.1)).map (·.2)

/-- What the transport is asked, what it does, and the network after that. -/
def asked? (p : Process) :
    TransportCall → Option (HostCall × Reply TransportFault (List Bytes) × Network)
  | send context receiver message => do
      let id ← p.sessionTransport? context
      let party := receiver.toInt.toNat
      let bytes := message.bytes p.heap
      let (reply, network) := p.network.send id party bytes
      return (.send id party bytes, reply.map fun _ => [], network)
  | receive context sender _ => do
      let id ← p.sessionTransport? context
      let party := sender.toInt.toNat
      let (reply, network) := p.network.receive id party
      return (.receive id party, reply.map fun bytes => [bytes], network)
  | receiveAll context senders _ => do
      let id ← p.sessionTransport? context
      let parties := senders.indices.map fun index => index.toInt.toNat
      let (reply, network) := p.network.receiveAll id parties
      return (.receiveAll id parties, reply, network)

/-- The code for what the transport does, if its messages have to go into a heap. -/
def codeFor (h : Heap) : TransportCall → Reply TransportFault (List Bytes) → Int32
  | _, .refusal _ | _, .panic _ => Code.transport
  | send _ _ _, .value _ => Code.success
  | receive _ _ _, .value messages =>
      if h.canHold messages then Code.success else Code.badArgument
  | receiveAll _ senders _, .value messages =>
      if messages.length ≠ senders.number then Code.transport
      else if OwnedBatch.Fits messages ∧ h.grants (OwnedBatch.blockSizes messages) = true then
        Code.success
      else Code.badArgument

/-- The out-parameter carries some messages. -/
def Carries (r : TransportReply) (h : Heap) (messages : List Bytes) : TransportCall → Prop
  | send _ _ _ => messages = []
  | receive _ _ _ => ∃ raw, r.message = some raw ∧ messages = [raw.bytes h]
  | receiveAll _ _ _ => ∃ raw, r.messages = some raw ∧ raw.Encodes h messages ∧
      (raw.take h).1 = .ok messages

/-- The answer for a failure, with nothing in the out-parameter. -/
def emptied (code : Int32) : TransportCall → TransportReply
  | send _ _ _ => ⟨code, none, none⟩
  | receive _ _ out => ⟨code, out.map fun _ => .empty, none⟩
  | receiveAll _ _ out => ⟨code, none, out.map fun _ => .empty⟩

/-- What native code may rely on. -/
structure Lawful (p : Process) (c : TransportCall) : Prop where
  /-- If a check applies, the first one decides, and no transport is called. -/
  stopped : ∀ code, c.firstStop? p = some code → (c.run p).1.code = code ∧
    (c.run p).2.calls = p.calls ∧ (c.run p).2.network = p.network ∧ (c.run p).2.heap = p.heap
  /-- The check that is no failure leaves an empty batch and nothing else. -/
  nobody : c.firstStop? p = some Code.success → c.run p = (⟨Code.success, none, some .empty⟩, p)
  /-- If none applies, the transport is called once with what the arguments denote, and what it
  does decides.  After a success the out-parameter carries its messages. -/
  answered : c.firstStop? p = none → ∃ call reply network,
    c.asked? p = some (call, reply, network) ∧ (c.run p).2.calls = call :: p.calls ∧
      (c.run p).2.network = network ∧ (c.run p).1.code = c.codeFor p.heap reply ∧
        ((c.run p).1.code = Code.success → ∃ messages, reply = .value messages ∧
          c.Carries (c.run p).1 (c.run p).2.heap messages)
  /-- When it was asked in vain, the out-parameter is empty. -/
  emptied : c.firstStop? p = none → (c.run p).1.code ≠ Code.success →
    (c.run p).1 = c.emptied (c.run p).1.code

end TransportCall

namespace Code

theorem badArgument_ne_success : Code.badArgument ≠ Code.success := by decide

theorem notFound_ne_success : Code.notFound ≠ Code.success := by decide

theorem transport_ne_success : Code.transport ≠ Code.success := by decide

end Code

/-- The code of an outcome of a transport entry point. -/
def Reply.transportCode {α : Type} : Reply Fault α → Int32
  | .value _ => Code.success
  | .refusal fault => fault.code
  | .panic _ => Code.transport

/-- The value of an outcome, if there is one. -/
def Reply.valueOr {ε α : Type} (default : α) : Reply ε α → α
  | .value a => a
  | .refusal _ | .panic _ => default

theorem Reply.valueOr_of_ne {ε α : Type} {default : α} {reply : Reply ε α}
    (hnone : ∀ a, reply ≠ .value a) : reply.valueOr default = default := by
  cases reply with
  | value a => exact absurd rfl (hnone a)
  | refusal e | panic message => rfl

namespace Process

open Code TransportEntry

section

variable {α : Type} (p : Process) (op : String) (reply : Reply Fault α)

theorem closeTransportCall_code : (p.closeTransportCall op reply).1 = reply.transportCode := by
  cases reply <;> rfl

@[simp] theorem network_closeTransportCall :
    (p.closeTransportCall op reply).2.network = p.network := by
  cases reply <;> rfl

@[simp] theorem heap_closeTransportCall : (p.closeTransportCall op reply).2.heap = p.heap := by
  cases reply <;> rfl

end

variable {p : Process}

/-- A context is resolved exactly when it stands for the transport of a session. -/
theorem session_cases (p : Process) (context : UInt64) :
    (∃ id, p.sessionTransport? context = some id ∧ p.resolveTransport context = .ok id) ∨
    (p.sessionTransport? context = none ∧
      ∃ what, p.resolveTransport context = .error (.notFound what)) := by
  unfold sessionTransport? resolveTransport Handle.ofPointer?
  by_cases hnull : context = 0
  · exact .inr ⟨if_pos hnull, _, by rw [if_pos hnull]⟩
  · simp only [if_neg hnull]
    cases p.lookup? globalRegistry ⟨context⟩ with
    | none => exact .inr ⟨rfl, _, rfl⟩
    | some object =>
        cases object with
        | transport id => exact .inl ⟨id, rfl, rfl⟩
        | value v | policy policy => exact .inr ⟨rfl, _, rfl⟩

/-- The parties of a list are decoded exactly when no index in it is negative. -/
theorem parties_cases (indices : List Int32) :
    (indices.any (· < 0) = true ∧ ∃ reason, parties indices = .error (.badArgument reason)) ∨
    (indices.any (· < 0) = false ∧
      parties indices = .ok (indices.map fun index => index.toInt.toNat)) := by
  induction indices with
  | nil => exact .inr ⟨rfl, rfl⟩
  | cons index rest ih =>
      rw [parties, party, List.any_cons, List.map_cons]
      by_cases hnegative : index < 0
      · rw [if_pos hnegative, decide_eq_true hnegative]
        exact .inl ⟨rfl, _, rfl⟩
      · rw [if_neg hnegative, decide_eq_false hnegative, Bool.false_or]
        rcases ih with ⟨hany, reason, hrest⟩ | ⟨hany, hrest⟩
        · rw [hrest]
          exact .inl ⟨hany, reason, rfl⟩
        · rw [hrest]
          exact .inr ⟨hany, rfl⟩

/-- The transport was called once, and what it did was passed on: there is a code for it, and what
is handed over carries its messages. -/
structure Relays {α : Type} (p : Process) (asked : HostCall × Network) (code : Int32)
    (carried : α → Heap → Prop) (result : Reply Fault α × Process) : Prop where
  calls : result.2.calls = asked.1 :: p.calls
  network : result.2.network = asked.2
  code : result.1.transportCode = code
  carried : result.1.transportCode = Code.success →
    ∃ a, result.1 = .value a ∧ carried a result.2.heap

end Process

namespace OwnedBatch

variable {items : List Bytes} {secrecy : Secrecy} {h h' : Heap} {b : OwnedBatch} {fault : Fault}

/-- A batch is refused, as a bad argument, only if its list does not fit or a block is not
granted. -/
theorem not_held_of_copyFrom (hc : copyFrom items secrecy h = (.error fault, h')) :
    fault.code = Code.badArgument ∧ ¬ (Fits items ∧ h.grants (blockSizes items) = true) := by
  obtain ⟨⟨why, rfl⟩, -⟩ := attempt_copyFrom_error hc
  refine ⟨rfl, ?_⟩
  rintro ⟨hfits, hgrants⟩
  obtain ⟨b, later, hmade⟩ := copyFrom_of_grants hfits hgrants secrecy
  cases hc.symm.trans hmade

end OwnedBatch

namespace Process

open Code TransportEntry

variable {p : Process}

/-- A message is sent. -/
theorem relays_runSend {context : UInt64} {receiver : Int32} {message : RawBuffer}
    {id : TransportId} {party : Nat} {bytes : Bytes}
    (hrequest : p.sendRequest context receiver message = .ok (id, party, bytes)) :
    p.Relays (.send id party bytes, (p.network.send id party bytes).2)
      ((TransportCall.send context receiver message).codeFor p.heap
        ((p.network.send id party bytes).1.map fun _ => []))
      (fun _ _ => (p.network.send id party bytes).1 = .value ())
      (p.runSend context receiver message) := by
  simp only [runSend, hrequest, record]
  rcases p.network.send id party bytes with ⟨reply, network⟩
  cases reply with
  | refusal fault => exact ⟨rfl, rfl, rfl, fun hcode => absurd hcode transport_ne_success⟩
  | panic message => exact ⟨rfl, rfl, rfl, fun hcode => absurd hcode transport_ne_success⟩
  | value _ => exact ⟨rfl, rfl, rfl, fun _ => ⟨_, rfl, rfl⟩⟩

/-- One message is received. -/
theorem relays_receiveBuffer (p : Process) (id : TransportId) (sender : Nat) (context : UInt64)
    (index : Int32) (out : Option RawBuffer) :
    p.Relays (.receive id sender, (p.network.receive id sender).2)
      ((TransportCall.receive context index out).codeFor p.heap
        ((p.network.receive id sender).1.map fun bytes => [bytes]))
      (fun raw heap => ∃ bytes, (p.network.receive id sender).1 = .value bytes ∧
        raw.bytes heap = bytes)
      (p.receiveBuffer id sender) := by
  unfold receiveBuffer
  simp only [record]
  rcases p.network.receive id sender with ⟨reply, network⟩
  cases reply with
  | refusal fault => exact ⟨rfl, rfl, rfl, fun hcode => absurd hcode transport_ne_success⟩
  | panic message => exact ⟨rfl, rfl, rfl, fun hcode => absurd hcode transport_ne_success⟩
  | value bytes =>
      simp only [asFault]
      split <;> rename_i hcopy
      · obtain ⟨hdelivers, hhold⟩ := OwnedBuffer.delivers_copyFrom hcopy
        refine ⟨rfl, rfl, (if_pos (hhold [])).symm, fun _ => ⟨_, rfl, bytes, rfl, ?_⟩⟩
        exact List.singleton_inj.mp hdelivers.bytes
      · obtain ⟨hbad, -, hhold⟩ := OwnedBuffer.delivers_copyFrom_error hcopy
        have hnot : ¬ p.heap.canHold [bytes] = true := by
          rw [show p.heap.canHold [bytes] = false from hhold []]
          exact Bool.false_ne_true
        exact ⟨rfl, rfl, hbad.trans (if_neg hnot).symm,
          fun hcode => absurd (hbad.symm.trans hcode) badArgument_ne_success⟩

/-- Several messages are received. -/
theorem relays_receiveBatch (p : Process) (id : TransportId) (context : UInt64)
    (senders : SenderList) (out : Option RawBatch) {parties : List Nat}
    (hparties : parties.length = senders.number) :
    p.Relays (.receiveAll id parties, (p.network.receiveAll id parties).2)
      ((TransportCall.receiveAll context senders out).codeFor p.heap
        (p.network.receiveAll id parties).1)
      (fun raw heap => ∃ messages, (p.network.receiveAll id parties).1 = .value messages ∧
        raw.Encodes heap messages ∧ (raw.take heap).1 = .ok messages)
      (p.receiveBatch id parties) := by
  unfold receiveBatch
  simp only [record]
  rcases p.network.receiveAll id parties with ⟨reply, network⟩
  cases reply with
  | refusal fault => exact ⟨rfl, rfl, rfl, fun hcode => absurd hcode transport_ne_success⟩
  | panic message => exact ⟨rfl, rfl, rfl, fun hcode => absurd hcode transport_ne_success⟩
  | value messages =>
      simp only [asFault, TransportCall.codeFor, hparties, heap]
      split
      · exact ⟨rfl, rfl, rfl, fun hcode => absurd hcode transport_ne_success⟩
      · rcases hcopy : OwnedBatch.copyFrom messages .secret p.memory.heap with ⟨fault | b, h'⟩
        · obtain ⟨hbad, hnot⟩ := OwnedBatch.not_held_of_copyFrom hcopy
          exact ⟨rfl, rfl, hbad.trans (if_neg hnot).symm,
            fun hcode => absurd (hbad.symm.trans hcode) badArgument_ne_success⟩
        · have hwritten := OwnedBatch.written_copyFrom hcopy
          have hheld := And.intro hwritten.fits (OwnedBatch.grants_of_copyFrom hcopy)
          have htaken := OwnedBatch.take_copyFrom hcopy fun _ _ => rfl
          exact ⟨rfl, rfl, (if_pos hheld).symm,
            fun _ => ⟨_, rfl, messages, rfl, hwritten.encodes, htaken⟩⟩

end Process

namespace TransportCall

open Code Process TransportEntry

variable {p : Process} {c : TransportCall}

/-- A call fails before its transport is asked, which is reported. -/
def Refused (p : Process) (c : TransportCall) : Prop :=
  ∃ code notice message messages, c.firstStop? p = some code ∧ code ≠ Code.success ∧
    c.run p = (⟨code, message, messages⟩, p.report notice)

theorem lawful_of_refused (hr : c.Refused p) : c.Lawful p := by
  obtain ⟨code, notice, message, messages, hstop, hcode, hrun⟩ := hr
  constructor
  case stopped =>
    intro other hother
    cases hstop.symm.trans hother
    rw [hrun]
    exact ⟨rfl, rfl, rfl, rfl⟩
  case nobody =>
    intro hother
    cases hstop.symm.trans hother
    exact absurd rfl hcode
  all_goals
    intro hother
    cases hstop.symm.trans hother

/-- So is a call that has nobody to receive from. -/
theorem lawful_of_nobody (hstop : c.firstStop? p = some Code.success)
    (hrun : c.run p = (⟨Code.success, none, some .empty⟩, p)) : c.Lawful p where
  stopped := by
    intro code hother
    cases hstop.symm.trans hother
    rw [hrun]
    exact ⟨rfl, rfl, rfl, rfl⟩
  nobody := fun _ => hrun
  answered := fun hother => nomatch hstop.symm.trans hother
  emptied := fun hother => nomatch hstop.symm.trans hother

/-- So is a call that passes on what its transport did, if what it hands over comes into the
out-parameter. -/
theorem lawful_of_relays {α : Type} {asked : HostCall × Network} {carried : α → Heap → Prop}
    {reply : Reply TransportFault (List Bytes)} {result : Reply Fault α × Process} {op : String}
    (hstop : c.firstStop? p = none) (hasked : c.asked? p = some (asked.1, reply, asked.2))
    (hrelays : p.Relays asked (c.codeFor p.heap reply) carried result)
    (hcode : (c.run p).1.code = result.1.transportCode)
    (hrun : (c.run p).2 = (result.2.closeTransportCall op result.1).2)
    (hout : ∀ a, result.1 = .value a → carried a result.2.heap → ∃ messages,
      reply = .value messages ∧ c.Carries (c.run p).1 result.2.heap messages)
    (hempty : (∀ a, result.1 ≠ .value a) → (c.run p).1 = c.emptied (c.run p).1.code) :
    c.Lawful p where
  stopped := fun _ hother => nomatch hstop.symm.trans hother
  nobody := fun hother => nomatch hstop.symm.trans hother
  answered := by
    intro _
    rw [hcode, hrun, calls_closeTransportCall, network_closeTransportCall, heap_closeTransportCall]
    refine ⟨_, _, _, hasked, hrelays.calls, hrelays.network, hrelays.code, fun hsuccess => ?_⟩
    obtain ⟨a, ha, hcarried⟩ := hrelays.carried hsuccess
    exact hout a ha hcarried
  emptied := by
    intro _ hfailed
    refine hempty fun a ha => hfailed ?_
    rw [hcode, ha]
    rfl

/-- The checks before a message is sent. -/
theorem sendRequest_cases (p : Process) (context : UInt64) (receiver : Int32)
    (message : RawBuffer) :
    (∃ fault, p.sendRequest context receiver message = .error fault ∧
      (send context receiver message).firstStop? p = some fault.code ∧
        fault.code ≠ Code.success) ∨
    (∃ id, p.sendRequest context receiver message =
        .ok (id, receiver.toInt.toNat, message.bytes p.heap) ∧
      (send context receiver message).firstStop? p = none ∧
        p.sessionTransport? context = some id) := by
  simp only [firstStop?, checks, sendRequest]
  rcases p.session_cases context with ⟨id, hsession, hresolve⟩ | ⟨hnone, what, hresolve⟩
  · rw [hresolve, hsession, party]
    by_cases hnegative : receiver < 0
    · rw [if_pos hnegative, decide_eq_true hnegative]
      exact .inl ⟨_, rfl, rfl, badArgument_ne_success⟩
    · rw [if_neg hnegative, decide_eq_false hnegative, isMalformed]
      cases hsize : decide (message.size < 0) with
      | true => exact .inl ⟨_, rfl, rfl, badArgument_ne_success⟩
      | false =>
          cases hnull : message.data.isNull && decide (message.size > 0) with
          | true => exact .inl ⟨_, rfl, rfl, badArgument_ne_success⟩
          | false => exact .inr ⟨id, rfl, rfl, rfl⟩
  · rw [hresolve, hnone]
    exact .inl ⟨_, rfl, rfl, notFound_ne_success⟩

/-- The checks before a message is received. -/
theorem runReceive_cases (p : Process) (context : UInt64) (sender : Int32)
    (out : Option RawBuffer) :
    (∃ fault left, p.runReceive context sender out = (.refusal fault, left, p) ∧
      (receive context sender out).firstStop? p = some fault.code ∧
        fault.code ≠ Code.success) ∨
    (∃ id raw, out = some raw ∧ p.runReceive context sender out =
        (match p.receiveBuffer id sender.toInt.toNat with
        | (.value raw, p) => (.value (), some raw, p)
        | (.refusal fault, p) => (.refusal fault, some .empty, p)
        | (.panic message, p) => (.panic message, some .empty, p)) ∧
      (receive context sender out).firstStop? p = none ∧
        p.sessionTransport? context = some id) := by
  simp only [firstStop?, checks, runReceive]
  rcases p.session_cases context with ⟨id, hsession, hresolve⟩ | ⟨hnone, what, hresolve⟩
  · rw [hresolve, hsession]
    cases out with
    | none => exact .inl ⟨_, _, rfl, rfl, badArgument_ne_success⟩
    | some raw =>
        rw [party]
        by_cases hnegative : sender < 0
        · rw [if_pos hnegative, decide_eq_true hnegative]
          exact .inl ⟨_, _, rfl, rfl, badArgument_ne_success⟩
        · rw [if_neg hnegative, decide_eq_false hnegative]
          exact .inr ⟨id, raw, rfl, rfl, rfl, rfl⟩
  · rw [hresolve, hnone]
    exact .inl ⟨_, _, rfl, rfl, notFound_ne_success⟩

/-- The checks before several messages are received. -/
theorem runReceiveAll_cases (p : Process) (context : UInt64) (senders : SenderList)
    (out : Option RawBatch) :
    (∃ fault left, p.runReceiveAll context senders.list? senders.count out =
        (.refusal fault, left, p) ∧
      (receiveAll context senders out).firstStop? p = some fault.code ∧
        fault.code ≠ Code.success) ∨
    (p.runReceiveAll context senders.list? senders.count out = (.value (), some .empty, p) ∧
      (receiveAll context senders out).firstStop? p = some Code.success) ∨
    (∃ id raw, out = some raw ∧ p.runReceiveAll context senders.list? senders.count out =
        (match p.receiveBatch id (senders.indices.map fun index => index.toInt.toNat) with
        | (.value raw, p) => (.value (), some raw, p)
        | (.refusal fault, p) => (.refusal fault, some .empty, p)
        | (.panic message, p) => (.panic message, some .empty, p)) ∧
      (receiveAll context senders out).firstStop? p = none ∧
        p.sessionTransport? context = some id ∧ senders.indices.length = senders.number) := by
  simp only [firstStop?, checks, runReceiveAll, senderList]
  rcases p.session_cases context with ⟨id, hsession, hresolve⟩ | ⟨hnone, what, hresolve⟩
  · rw [hresolve, hsession]
    cases out with
    | none => exact .inl ⟨_, _, rfl, rfl, badArgument_ne_success⟩
    | some raw =>
        by_cases hnegative : senders.count < 0
        · rw [if_pos hnegative, decide_eq_true hnegative]
          exact .inl ⟨_, _, rfl, rfl, badArgument_ne_success⟩
        · rw [if_neg hnegative, decide_eq_false hnegative]
          by_cases hzero : senders.count = 0
          · rw [if_pos hzero, decide_eq_true hzero]
            exact .inr (.inl ⟨rfl, rfl⟩)
          · rw [if_neg hzero, decide_eq_false hzero]
            cases hlist : senders.list? with
            | none => exact .inl ⟨_, _, rfl, rfl, badArgument_ne_success⟩
            | some list =>
                have hindices : list.take senders.count.toInt.toNat = senders.indices := by
                  rw [SenderList.indices, hlist]
                  rfl
                simp only [hindices]
                rcases parties_cases senders.indices with ⟨hany, reason, hparties⟩ |
                  ⟨hany, hparties⟩
                · rw [hparties, hany]
                  exact .inl ⟨_, _, rfl, rfl, badArgument_ne_success⟩
                · have hlength := SenderList.length_indices hlist
                  have hpos := SenderList.number_pos hnegative hzero
                  rw [hparties, hany]
                  refine .inr (.inr ⟨id, raw, rfl, ?_, rfl, rfl, hlength⟩)
                  -- there are senders, so the list is not the empty one
                  cases hsenders : senders.indices with
                  | nil =>
                      rw [hsenders] at hlength
                      exact absurd hlength (Nat.ne_of_lt hpos)
                  | cons first rest => rfl
  · rw [hresolve, hnone]
    exact .inl ⟨_, _, rfl, rfl, notFound_ne_success⟩

/-- Sending is lawful. -/
theorem lawful_send (p : Process) (context : UInt64) (receiver : Int32) (message : RawBuffer) :
    (send context receiver message).Lawful p := by
  rcases sendRequest_cases p context receiver message with ⟨fault, hrequest, hstop, hcode⟩ |
    ⟨id, hrequest, hstop, hsession⟩
  · have hrun : (send context receiver message).run p =
        (⟨fault.code, none, none⟩, p.report (.transportFailed sendName fault)) := by
      simp only [run, transportSend, runSend, hrequest]
      rfl
    exact lawful_of_refused ⟨_, _, _, _, hstop, hcode, hrun⟩
  · have hasked : (send context receiver message).asked? p =
        some (.send id receiver.toInt.toNat (message.bytes p.heap),
          (p.network.send id receiver.toInt.toNat (message.bytes p.heap)).1.map fun _ => [],
          (p.network.send id receiver.toInt.toNat (message.bytes p.heap)).2) := by
      simp only [asked?, hsession]
      rfl
    have hrelays := p.relays_runSend hrequest
    refine lawful_of_relays hstop hasked hrelays
      (closeTransportCall_code _ sendName _) rfl (fun _ _ hreply => ⟨[], ?_, rfl⟩)
      fun _ => rfl
    rw [hreply]
    rfl

/-- Receiving one message is lawful. -/
theorem lawful_receive (p : Process) (context : UInt64) (sender : Int32)
    (out : Option RawBuffer) : (receive context sender out).Lawful p := by
  rcases runReceive_cases p context sender out with ⟨fault, left, hreceive, hstop, hcode⟩ |
    ⟨id, raw, rfl, hreceive, hstop, hsession⟩
  · have hrun : (receive context sender out).run p =
        (⟨fault.code, left, none⟩, p.report (.transportFailed receiveName fault)) := by
      simp only [run, transportReceive, hreceive]
      rfl
    exact lawful_of_refused ⟨_, _, _, _, hstop, hcode, hrun⟩
  · have hasked : (receive context sender (some raw)).asked? p =
        some (.receive id sender.toInt.toNat,
          (p.network.receive id sender.toInt.toNat).1.map fun bytes => [bytes],
          (p.network.receive id sender.toInt.toNat).2) := by
      simp only [asked?, hsession]
      rfl
    have hrelays := p.relays_receiveBuffer id sender.toInt.toNat context sender (some raw)
    have hrun : (receive context sender (some raw)).run p =
        (⟨(p.receiveBuffer id sender.toInt.toNat).1.transportCode,
          some ((p.receiveBuffer id sender.toInt.toNat).1.valueOr .empty), none⟩,
          ((p.receiveBuffer id sender.toInt.toNat).2.closeTransportCall receiveName
            (p.receiveBuffer id sender.toInt.toNat).1).2) := by
      simp only [run, transportReceive, hreceive]
      rcases p.receiveBuffer id sender.toInt.toNat with ⟨result, q⟩
      cases result <;> rfl
    refine lawful_of_relays hstop hasked hrelays (congrArg (·.1.code) hrun)
      (congrArg (·.2) hrun) (fun out hout => ?_) fun hnone => ?_
    · rintro ⟨bytes, hreply, hbytes⟩
      refine ⟨[bytes], by rw [hreply]; rfl, out, ?_, by rw [hbytes]⟩
      rw [hrun, hout]
      rfl
    · rw [hrun, Reply.valueOr_of_ne hnone]
      rfl

/-- Receiving several messages is lawful. -/
theorem lawful_receiveAll (p : Process) (context : UInt64) (senders : SenderList)
    (out : Option RawBatch) : (receiveAll context senders out).Lawful p := by
  rcases runReceiveAll_cases p context senders out with ⟨fault, left, hreceive, hstop, hcode⟩ |
    ⟨hreceive, hstop⟩ | ⟨id, raw, rfl, hreceive, hstop, hsession, hlength⟩
  · have hrun : (receiveAll context senders out).run p =
        (⟨fault.code, none, left⟩, p.report (.transportFailed receiveAllName fault)) := by
      simp only [run, transportReceiveAll, hreceive]
      rfl
    exact lawful_of_refused ⟨_, _, _, _, hstop, hcode, hrun⟩
  · have hrun : (receiveAll context senders out).run p =
        (⟨Code.success, none, some .empty⟩, p) := by
      simp only [run, transportReceiveAll, hreceive]
      rfl
    exact lawful_of_nobody hstop hrun
  · have hasked : (receiveAll context senders (some raw)).asked? p =
        some (.receiveAll id (senders.indices.map fun index => index.toInt.toNat),
          (p.network.receiveAll id (senders.indices.map fun index => index.toInt.toNat)).1,
          (p.network.receiveAll id (senders.indices.map fun index => index.toInt.toNat)).2) := by
      simp only [asked?, hsession]
      rfl
    have hparties : (senders.indices.map fun index => index.toInt.toNat).length = senders.number :=
      (List.length_map _).trans hlength
    revert hasked hreceive hparties
    generalize (senders.indices.map fun index => index.toInt.toNat) = parties
    intro hreceive hasked hparties
    have hrelays := p.relays_receiveBatch id context senders (some raw) hparties
    have hrun : (receiveAll context senders (some raw)).run p =
        (⟨(p.receiveBatch id parties).1.transportCode, none,
          some ((p.receiveBatch id parties).1.valueOr .empty)⟩,
          ((p.receiveBatch id parties).2.closeTransportCall receiveAllName
            (p.receiveBatch id parties).1).2) := by
      simp only [run, transportReceiveAll, hreceive]
      rcases p.receiveBatch id parties with ⟨result, q⟩
      cases result <;> rfl
    refine lawful_of_relays hstop hasked hrelays (congrArg (·.1.code) hrun)
      (congrArg (·.2) hrun) (fun out hout => ?_) fun hnone => ?_
    · rintro ⟨messages, hreply, hencodes⟩
      refine ⟨messages, hreply, out, ?_, hencodes⟩
      rw [hrun, hout]
      rfl
    · rw [hrun, Reply.valueOr_of_ne hnone]
      rfl

/-- Every call of an entry point for transports is lawful: whatever the registries hold, whatever
the transport does, whatever the arguments are and whichever request the allocator refuses. -/
theorem transport_asked_once (p : Process) (c : TransportCall) : c.Lawful p := by
  cases c with
  | send context receiver message => exact lawful_send p context receiver message
  | receive context sender out => exact lawful_receive p context sender out
  | receiveAll context senders out => exact lawful_receiveAll p context senders out

/-- A transport that is added is found under its number. -/
theorem transport?_add (network : Network) (transport : Transport) :
    (network.add transport).2.transport? network.nextTransport = some transport := by
  unfold Network.add Network.transport?
  rw [Table.get?_insert_self]
  rfl

/-- Whatever a transport may do when it is called, there is one that does it. -/
theorem any_behaviour (send : Cue Unit) (party : Nat) (receive : Cue Bytes)
    (receiveAll : Cue (List Bytes)) :
    ∃ transport, ∀ (network after : Network), after = (network.add transport).2 →
      (∀ receiver message,
        (after.send network.nextTransport receiver message).1 = send.reply) ∧
      (after.receive network.nextTransport party).1 = receive.reply ∧
      ∀ parties, (after.receiveAll network.nextTransport parties).1 = receiveAll.reply := by
  refine ⟨.scripted ⟨send, [(party, [receive])], some receiveAll, []⟩, ?_⟩
  rintro network after rfl
  refine ⟨fun receiver message => ?_, ?_, fun parties => ?_⟩
  · rw [Network.send, transport?_add]
    cases send <;> rfl
  · rw [Network.receive, transport?_add]
    simp only [Script.receiveFrom, Script.takeCue, if_true]
  · rw [Network.receiveAll, transport?_add]

/-- A process with a session whose transport has two messages for whoever asks, and its context. -/
def talkative : Process × UInt64 :=
  let (id, network) := Network.add {} (.scripted { receiveAll := some (.answer [[1], [2]]) })
  let (session, p) := ({ network } : Process).openTransport id
  (p, session.guard.handle.toPointer)

/-- Two messages for one sender are none: the transport was asked, and nothing was made. -/
example :
    let (reply, p) := run talkative.1
      (receiveAll talkative.2 ⟨some [0], 1, by decide⟩ (some .empty))
    reply.code = Code.transport ∧ p.calls.length = 1 ∧ p.heap.next = 0 := by
  decide

end TransportCall

end NativeBoundary

import NativeBoundary.Process

/-!
# Entry points for transports

Native code moves messages through three entry points, each with an opaque context: the handle of
a transport that a session has opened.  Each of them finds the transport, checks its arguments in
a fixed order, calls the transport once, and hands over what was received as native blocks.  An
out-parameter is emptied as soon as it is known not to be null, so that after a failure it is
either empty or, when there was no transport to ask, untouched.  Receiving from several parties
succeeds for all of them or for none.

* `Process.transportSend`, `Process.transportReceive`, `Process.transportReceiveAll` — the entry
  points.
* `sendRequest`, `senderList` — the checks on what native code passed in.
* `TransportSession` — a transport that is open to native code, from opening to closing.
-/

namespace NativeBoundary

/-- A transport that native code can use. -/
structure TransportSession where
  guard : HandleGuard
deriving DecidableEq, Repr

namespace TransportSession

/-- The session as a value of its type. -/
def describe (s : TransportSession) : String :=
  "TransportSession \x7b guard: " ++ s.guard.describe ++ " \x7d"

end TransportSession

/-- What an entry point that receives one message leaves behind. -/
structure ReceiveReply where
  code : Int32
  message : Option RawBuffer
deriving DecidableEq, Repr

/-- What an entry point that receives several messages leaves behind. -/
structure ReceiveAllReply where
  code : Int32
  messages : Option RawBatch
deriving DecidableEq, Repr

namespace TransportEntry

def sendName : String := "transport_send"
def receiveName : String := "transport_receive"
def receiveAllName : String := "transport_receive_all"

/-- The entry points as a table of opaque pointers. -/
def describeTable : String :=
  "TransportCallbacks \x7b send_fun: <ptr>, receive_fun: <ptr>, receive_all_fun: <ptr> \x7d"

/-- The party that an index names. -/
def party (index : Int32) : Except Fault Nat :=
  if index < 0 then .error (.badArgument s!"negative party index {index.toInt}")
  else .ok index.toInt.toNat

/-- The parties that a list of indices names; the first negative one is rejected. -/
def parties : List Int32 → Except Fault (List Nat)
  | [] => .ok []
  | index :: rest => do
      let first ← party index
      return first :: (← parties rest)

/-- The senders in a list of `count` indices.  Without senders the list is not looked at. -/
def senderList (senders : Option (List Int32)) (count : Int32) : Except Fault (List Nat) :=
  if count < 0 then .error (.badArgument s!"negative sender count {count.toInt}")
  else if count = 0 then .ok []
  else
    match senders with
    | none => .error (.badArgument "null sender list")
    | some indices => parties (indices.take count.toInt.toNat)

/-- Whether a message is no buffer at all. -/
def isMalformed (message : RawBuffer) : Bool :=
  message.size < 0 || (message.data.isNull && message.size > 0)

/-- The fault that a refusal of a transport is for the method that was called. -/
def refused (method : String) (fault : TransportFault) : Fault :=
  .transport s!"{method}: {fault.message}"

/-- The outcome of a call of a transport, with a refusal as a fault. -/
def asFault {α : Type} (method : String) : Reply TransportFault α → Reply Fault α
  | .value a => .value a
  | .refusal fault => .refusal (refused method fault)
  | .panic message => .panic message

/-- A transport that answers for another number of senders. -/
def miscounted (messages senders : Nat) : Fault :=
  .transport s!"receive_all returned {messages} messages for {senders} senders"

end TransportEntry

namespace Process

open TransportEntry

/-- Opens a transport to native code.  The session is one more holder of it. -/
def openTransport (p : Process) (id : TransportId) : TransportSession × Process :=
  let (guard, p) := ({ p with network := p.network.hold id } : Process).guard globalRegistry
    (.transport id)
  (⟨guard⟩, p)

/-- Closes a session; its context is then unknown. -/
def closeTransport (p : Process) (s : TransportSession) : Process := p.dropGuard s.guard

/-- The transport that a context stands for. -/
def resolveTransport (p : Process) (context : UInt64) : Except Fault TransportId :=
  match Handle.ofPointer? context with
  | none => .error (.notFound "null transport context")
  | some handle =>
      match p.lookup? globalRegistry handle with
      | some (.transport id) => .ok id
      | _ => .error (.notFound s!"transport context {handle.text}")

/-- The return code for the outcome of an entry point, which is reported when it is a failure. -/
def closeTransportCall {α : Type} (p : Process) (op : String) : Reply Fault α → Int32 × Process
  | .value _ => (Code.success, p)
  | .refusal fault => (fault.code, p.report (.transportFailed op fault))
  | .panic _ => (Code.transport, p.report (.transportPanicked op))

/-- The checks before a message is sent. -/
def sendRequest (p : Process) (context : UInt64) (receiver : Int32) (message : RawBuffer) :
    Except Fault (TransportId × Nat × Bytes) := do
  let id ← p.resolveTransport context
  let receiver ← party receiver
  if isMalformed message then .error (.badArgument "malformed message buffer")
  else .ok (id, receiver, message.bytes p.heap)

/-- Sends: the checks, then the transport. -/
def runSend (p : Process) (context : UInt64) (receiver : Int32) (message : RawBuffer) :
    Reply Fault Unit × Process :=
  match p.sendRequest context receiver message with
  | .error fault => (.refusal fault, p)
  | .ok (id, receiver, bytes) =>
      let p := p.record (.send id receiver bytes)
      let (reply, network) := p.network.send id receiver bytes
      (asFault "send" reply, { p with network })

/-- Sends a message, which stays with the caller, to a party. -/
def transportSend (p : Process) (context : UInt64) (receiver : Int32) (message : RawBuffer) :
    Int32 × Process :=
  let (reply, p) := p.runSend context receiver message
  p.closeTransportCall sendName reply

/-- Receives one message through a transport as a native block. -/
def receiveBuffer (p : Process) (id : TransportId) (sender : Nat) :
    Reply Fault RawBuffer × Process :=
  let p := p.record (.receive id sender)
  let (reply, network) := p.network.receive id sender
  let p := { p with network }
  match asFault "receive" reply with
  | .refusal fault => (.refusal fault, p)
  | .panic message => (.panic message, p)
  | .value bytes =>
      match OwnedBuffer.copyFrom bytes .secret p.heap with
      | (.ok buffer, heap) => (.value buffer.raw, p.setHeap heap)
      | (.error fault, heap) => (.refusal fault, p.setHeap heap)

/-- Receives: the checks, the transport, the block.  With the outcome goes what then stands in
the out-parameter. -/
def runReceive (p : Process) (context : UInt64) (sender : Int32) (out : Option RawBuffer) :
    Reply Fault Unit × Option RawBuffer × Process :=
  match p.resolveTransport context, out with
  | .error fault, out => (.refusal fault, out, p)
  | .ok _, none => (.refusal (.badArgument "null receive out-parameter"), none, p)
  | .ok id, some _ =>
      match party sender with
      | .error fault => (.refusal fault, some .empty, p)
      | .ok sender =>
          match p.receiveBuffer id sender with
          | (.value raw, p) => (.value (), some raw, p)
          | (.refusal fault, p) => (.refusal fault, some .empty, p)
          | (.panic message, p) => (.panic message, some .empty, p)

/-- Receives a message from a party. -/
def transportReceive (p : Process) (context : UInt64) (sender : Int32) (out : Option RawBuffer) :
    ReceiveReply × Process :=
  let (reply, message, p) := p.runReceive context sender out
  let (code, p) := p.closeTransportCall receiveName reply
  ({ code, message }, p)

/-- Receives one message from each sender through a transport as a native batch. -/
def receiveBatch (p : Process) (id : TransportId) (senders : List Nat) :
    Reply Fault RawBatch × Process :=
  let p := p.record (.receiveAll id senders)
  let (reply, network) := p.network.receiveAll id senders
  let p := { p with network }
  match asFault "receive_all" reply with
  | .refusal fault => (.refusal fault, p)
  | .panic message => (.panic message, p)
  | .value messages =>
      if messages.length ≠ senders.length then
        (.refusal (miscounted messages.length senders.length), p)
      else
        match OwnedBatch.copyFrom messages .secret p.heap with
        | (.ok batch, heap) => (.value batch.raw, p.setHeap heap)
        | (.error fault, heap) => (.refusal fault, p.setHeap heap)

/-- Receives from several parties: the checks, the transport, the batch.  With the outcome goes
what then stands in the out-parameter. -/
def runReceiveAll (p : Process) (context : UInt64) (senders : Option (List Int32)) (count : Int32)
    (out : Option RawBatch) : Reply Fault Unit × Option RawBatch × Process :=
  match p.resolveTransport context, out with
  | .error fault, out => (.refusal fault, out, p)
  | .ok _, none => (.refusal (.badArgument "null receive_all out-parameter"), none, p)
  | .ok id, some _ =>
      match senderList senders count with
      | .error fault => (.refusal fault, some .empty, p)
      | .ok [] => (.value (), some .empty, p)
      | .ok senders =>
          match p.receiveBatch id senders with
          | (.value raw, p) => (.value (), some raw, p)
          | (.refusal fault, p) => (.refusal fault, some .empty, p)
          | (.panic message, p) => (.panic message, some .empty, p)

/-- Receives one message from each of several parties, in their order. -/
def transportReceiveAll (p : Process) (context : UInt64) (senders : Option (List Int32))
    (count : Int32) (out : Option RawBatch) : ReceiveAllReply × Process :=
  let (reply, messages, p) := p.runReceiveAll context senders count out
  let (code, p) := p.closeTransportCall receiveAllName reply
  ({ code, messages }, p)

end Process

end NativeBoundary

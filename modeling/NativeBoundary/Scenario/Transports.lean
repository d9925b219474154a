import NativeBoundary.Scenario.Policies

/-!
# Steps on transports

Making meshes and scripted transports, calling them from the host side, opening them to native
code, and calling the entry points for transports as native code would.
-/

namespace NativeBoundary.Scenario

/-- A step on transports. -/
inductive TransportAction
  /-- Each party of a new mesh is kept under the name with its index behind it. -/
  | mesh (slot : SlotName) (parties : Nat)
  | dropParty (slot : SlotName)
  | scripted (slot : SlotName) (script : Script)
  /-- What a scripted transport was asked to send. -/
  | sent (slot : SlotName)
  | sendDirect (slot : SlotName) (receiver : Nat) (message : Bytes)
  | receiveDirect (slot : SlotName) (sender : Nat)
  | receiveAllDirect (slot : SlotName) (senders : List Nat)
  | openTransport (slot source : SlotName)
  | close (slot : SlotName)
  | send (context : Option HandleRef) (receiver : Int32) (message : RawBuffer)
  | receive (context : Option HandleRef) (sender : Int32) (nullOut : Bool)
  | receiveAll (context : Option HandleRef) (senders : Option (List Int32)) (count : Int32)
      (nullOut : Bool)
  /-- Every party of a new mesh sends its share to all others and receives theirs. -/
  | round (shares : List Bytes)

/-- What an out-parameter for a batch holds before a call. -/
def junkBatch : RawBatch := ⟨.host [], .host [], 77⟩

/-- A party of a mesh as a value of its type. -/
def describeParty (index parties : Nat) : String :=
  "LocalTransport \x7b party: " ++ toString index ++ ", parties: " ++ toString parties ++ " \x7d"

/-- The other parties of a mesh, in order. -/
def peers (parties me : Nat) : List Nat := (List.range parties).filter (· ≠ me)

/-- The answer to a call of a transport from the host side. -/
def showReply {α : Type} (answer : α → Answer) : Reply TransportFault α → Answer
  | .value a => answer a
  | .refusal fault => .transportRefusal fault
  | .panic message => .panicked message

namespace State

/-- A transport by the name of a mesh party or else of a scripted transport. -/
def transport? (s : State) (slot : SlotName) : Option TransportId :=
  (s.get? .party slot).or (s.get? .scripted slot)

/-- Answers from a transport. -/
def withTransport (s : State) (slot : SlotName) (f : TransportId → Answer × State) :
    Answer × State :=
  match s.transport? slot with
  | none => (.noSlot, s)
  | some id => f id

/-- Keeps each party under the name with its index behind it. -/
def keepParties (s : State) (slot : SlotName) (parties : List (Nat × TransportId)) : State :=
  parties.foldl (fun s (index, id) => s.put .party (slot ++ toString index) id) s

/-- Makes a mesh. -/
def makeMesh (s : State) (slot : SlotName) (parties : Nat) : Answer × State :=
  let (ids, network) := s.process.network.addMesh parties
  let indices := List.range parties
  (.parties (indices.map fun i => (i, describeParty i parties)),
    (s.setNetwork network).keepParties slot (indices.zip ids))

/-- What a scripted transport was asked to send. -/
def sentThrough (s : State) (id : TransportId) : List (Nat × Bytes) :=
  match s.process.network.transport? id with
  | some (.scripted script) => script.sent
  | _ => []

/-- Takes out what an entry point has left in an out-parameter for a batch. -/
def takeBatchOut (s : State) (reply : ReceiveAllReply) : Answer × State :=
  match reply.messages with
  | none => (.batchReply reply.code none, s)
  | some raw =>
      if raw = junkBatch then (.batchReply reply.code none, s)
      else
        let (entries, process) := s.process.takeBatch raw
        (.batchReply reply.code (some (raw, entries)), { s with process })

end State

-- The parties of a round have a thread each.  The round is played one party after the other: all
-- shares are sent before the first party receives, so nobody has to wait.

/-- One party's context in a round. -/
structure Seat where
  index : Nat
  session : TransportSession
  share : Bytes

namespace Seat

/-- The context that native code is handed. -/
def context (seat : Seat) : UInt64 := seat.session.guard.handle.toPointer

/-- Sends the share to all others; the first failure is what counts. -/
def sendShare (seat : Seat) (others : List Nat) (p : Process) : Int32 × Process :=
  others.foldl
    (fun (code, p) other =>
      let (next, p) := p.transportSend seat.context (Int32.ofNat other)
        ⟨.host seat.share, Int32.ofNat seat.share.length⟩
      (if code = Code.success then next else code, p))
    (Code.success, p)

/-- Receives the shares of all others. -/
def receiveShares (seat : Seat) (others : List Nat) (p : Process) :
    (Int32 × List Bytes) × Process :=
  let (reply, p) := p.transportReceiveAll seat.context (some (others.map Int32.ofNat))
    (Int32.ofNat others.length) (some .empty)
  let (entries, p) := p.takeBatch (reply.messages.getD .empty)
  ((reply.code, entries.toOption.getD []), p)

end Seat

/-- Seats the parties of a new mesh. -/
def seats (p : Process) : List (Nat × TransportId × Bytes) → List Seat × Process
  | [] => ([], p)
  | (index, id, share) :: rest =>
      let (session, p) := p.openTransport id
      let (others, p) := seats p rest
      ({ index, session, share } :: others, p)

/-- Lets every seat send. -/
def sendShares (parties : Nat) (seated : List Seat) (p : Process) : List Int32 × Process :=
  seated.foldl
    (fun (codes, p) seat =>
      let (code, p) := seat.sendShare (peers parties seat.index) p
      (codes ++ [code], p))
    ([], p)

/-- Lets every seat receive. -/
def receiveShares (parties : Nat) (seated : List Seat) (p : Process) :
    List (Int32 × List Bytes) × Process :=
  seated.foldl
    (fun (received, p) seat =>
      let (result, p) := seat.receiveShares (peers parties seat.index) p
      (received ++ [result], p))
    ([], p)

/-- Plays a round and clears the table. -/
def playRound (p : Process) (shares : List Bytes) : List (Int32 × List Bytes) × Process :=
  let parties := shares.length
  let (ids, network) := p.network.addMesh parties
  let (seated, p) := seats { p with network } ((List.range parties).zip (ids.zip shares))
  let (codes, p) := sendShares parties seated p
  let (received, p) := receiveShares parties seated p
  let p := seated.foldl (fun p seat => p.closeTransport seat.session) p
  let p := ids.foldl (fun p id => { p with network := p.network.letGo id }) p
  (codes.zipWith (fun code (last, got) => (if code = Code.success then last else code, got))
    received, p)

namespace TransportAction

/-- Runs a step on transports. -/
def run (s : State) : TransportAction → Answer × State
  | mesh slot parties => s.makeMesh slot parties
  | dropParty slot => s.drop .party slot
  | scripted slot script =>
      let (id, network) := s.process.network.add (.scripted script)
      (.nothing, (s.setNetwork network).put .scripted slot id)
  | sent slot => s.reading .scripted slot fun id => (.sent (s.sentThrough id), s)
  | sendDirect slot receiver message =>
      s.withTransport slot fun id =>
        let (reply, network) := s.process.network.send id receiver message
        (showReply (fun _ => .done) reply, s.setNetwork network)
  | receiveDirect slot sender =>
      s.withTransport slot fun id =>
        let (reply, network) := s.process.network.receive id sender
        (showReply .bytes reply, s.setNetwork network)
  | receiveAllDirect slot senders =>
      s.withTransport slot fun id =>
        let (reply, network) := s.process.network.receiveAll id senders
        (showReply .bytesList reply, s.setNetwork network)
  | openTransport slot source =>
      s.withTransport source fun id =>
        let (session, process) := s.process.openTransport id
        let s := ({ s with process } : State).put .session slot session
        let handle := session.guard.handle
        (.opened handle session.describe, s.put .handle slot handle)
  | close slot => s.drop .session slot
  | send context receiver message =>
      s.withPointer context fun context =>
        let (code, process) := s.process.transportSend context receiver message
        (.code code, s.returned process code)
  | receive context sender nullOut =>
      s.withPointer context fun context =>
        let (reply, process) := s.process.transportReceive context sender (outParameter nullOut)
        (s.returned process reply.code).showOut ⟨reply.code, reply.message⟩
  | receiveAll context senders count nullOut =>
      s.withPointer context fun context =>
        let out := if nullOut then none else some junkBatch
        let (reply, process) := s.process.transportReceiveAll context senders count out
        (s.returned process reply.code).takeBatchOut reply
  | round shares =>
      let (received, process) := playRound s.process.onThread shares
      (.shares received, { s with process := s.process.rejoin process })

end TransportAction

end NativeBoundary.Scenario

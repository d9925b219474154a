import NativeBoundary.Kem.Policy
import NativeBoundary.Transport.Mesh

/-!
# Transports

A transport moves messages for one party: it sends, it receives from one party, and it receives
from several in turn.  There are two kinds.  A mesh party uses the links of its mesh.  A scripted
transport does what its script says, call by call, and remembers what was sent; it stands for a
transport of any behaviour, panics included.

A refusal is a chain of texts, outermost context first.

The network holds all transports of a process and counts who holds each of them.  A mesh party
leaves its mesh when nobody holds its transport any more.
-/

namespace NativeBoundary

/-- Why a transport refuses: texts from the outermost context to the cause. -/
structure TransportFault where
  chain : List String
deriving DecidableEq, Repr

namespace TransportFault

/-- The whole chain in one line. -/
def message (f : TransportFault) : String := ": ".intercalate f.chain

/-- The outermost text alone. -/
def outermost (f : TransportFault) : String := f.chain.headD ""

end TransportFault

namespace MeshFault

/-- The cause in words. -/
def cause : MeshFault → String
  | stranger party => s!"party {party} is not part of this mesh"
  | hungUp party => s!"party {party} hung up"
  | timedOut party => s!"timed out waiting for party {party}"

/-- A failed send, as the transport reports it. -/
def ofSend (f : MeshFault) : TransportFault := ⟨[f.cause]⟩

/-- A failed receive, as the transport of the party `me` reports it.  Asking for a party that
the mesh does not have fails before anything is received, and without that context. -/
def ofReceive (me : Nat) (f : MeshFault) : TransportFault :=
  match f with
  | stranger _ => ⟨[f.cause]⟩
  | hungUp _ | timedOut _ => ⟨[s!"party {me} receive", f.cause]⟩

end MeshFault

/-- What a script says about one call. -/
inductive Cue (α : Type)
  | answer (a : α)
  | refuse (chain : List String)
  | panic
deriving DecidableEq, Repr

namespace Cue

/-- What a scripted panic says. -/
def panicMessage : String := "transport bug"

/-- The outcome that a cue asks for. -/
def reply {α : Type} : Cue α → Reply TransportFault α
  | answer a => .value a
  | refuse chain => .refusal ⟨chain⟩
  | panic => .panic panicMessage

end Cue

/-- A scripted transport. -/
structure Script where
  /-- What every send does. -/
  send : Cue Unit := .answer ()
  /-- What the next receives from each party do. -/
  receive : List (Nat × List (Cue Bytes)) := []
  /-- What receiving from several parties does; without it they are asked in turn. -/
  receiveAll : Option (Cue (List Bytes)) := none
  /-- What was sent, oldest first. -/
  sent : List (Nat × Bytes) := []
deriving Repr

namespace Script

/-- Sends a message as the script says. -/
def sendTo (s : Script) (receiver : Nat) (message : Bytes) : Reply TransportFault Unit × Script :=
  match s.send with
  | .answer () => (.value (), { s with sent := s.sent ++ [(receiver, message)] })
  | cue => (cue.reply, s)

/-- The cues left for a party, one of which is taken. -/
def takeCue (sender : Nat) :
    List (Nat × List (Cue Bytes)) → Option (Cue Bytes × List (Nat × List (Cue Bytes)))
  | [] => none
  | (party, cues) :: rest =>
      if party = sender then
        match cues with
        | [] => none
        | cue :: cues => some (cue, (party, cues) :: rest)
      else (takeCue sender rest).map fun (cue, rest) => (cue, (party, cues) :: rest)

/-- Receives from a party as the script says; a party without cues is offline. -/
def receiveFrom (s : Script) (sender : Nat) : Reply TransportFault Bytes × Script :=
  match takeCue sender s.receive with
  | some (cue, receive) => (cue.reply, { s with receive })
  | none => (.refusal ⟨[s!"party {sender} is offline"]⟩, s)

end Script

/-- The number of a mesh. -/
abbrev MeshId := Nat

/-- The number of a transport. -/
abbrev TransportId := Nat

/-- A transport. -/
inductive Transport
  | party (mesh : MeshId) (party : Party)
  | scripted (script : Script)
deriving Repr

/-- A transport and the number of its holders. -/
structure Endpoint where
  transport : Transport
  holders : Nat := 1
deriving Repr

/-- All meshes and transports of a process. -/
structure Network where
  meshes : Table MeshId Mesh := .empty
  endpoints : Table TransportId Endpoint := .empty
  nextMesh : MeshId := 0
  nextTransport : TransportId := 0

namespace Network

/-- Adds a transport with one holder. -/
def add (n : Network) (transport : Transport) : TransportId × Network :=
  (n.nextTransport,
    { n with
      endpoints := n.endpoints.insert n.nextTransport { transport }
      nextTransport := n.nextTransport + 1 })

/-- Adds the transports of parties of a mesh. -/
def addParties (n : Network) (mesh : MeshId) : List Party → List TransportId × Network
  | [] => ([], n)
  | party :: parties =>
      let (id, n) := n.add (.party mesh party)
      let (ids, n) := n.addParties mesh parties
      (id :: ids, n)

/-- A new mesh: the transport of each of its parties, in order. -/
def addMesh (n : Network) (parties : Nat) : List TransportId × Network :=
  let mesh := n.nextMesh
  ({ n with meshes := n.meshes.insert mesh {}, nextMesh := mesh + 1 } : Network).addParties
    mesh (Mesh.parties parties)

/-- One more holder of a transport. -/
def hold (n : Network) (id : TransportId) : Network :=
  { n with endpoints := n.endpoints.modify id fun e => { e with holders := e.holders + 1 } }

/-- One holder fewer.  A mesh party without holders leaves its mesh. -/
def letGo (n : Network) (id : TransportId) : Network :=
  match n.endpoints.get? id with
  | none => n
  | some e =>
      if e.holders ≤ 1 then
        let n := { n with endpoints := n.endpoints.erase id }
        match e.transport with
        | .party mesh party => { n with meshes := n.meshes.modify mesh (·.leave party) }
        | .scripted _ => n
      else { n with endpoints := n.endpoints.insert id { e with holders := e.holders - 1 } }

/-- The transport under a number, while somebody holds it. -/
def transport? (n : Network) (id : TransportId) : Option Transport :=
  (n.endpoints.get? id).map (·.transport)

/-- The mesh under a number. -/
def mesh (n : Network) (id : MeshId) : Mesh := (n.meshes.get? id).getD {}

/-- The network with another state of a mesh. -/
def setMesh (n : Network) (id : MeshId) (m : Mesh) : Network :=
  { n with meshes := n.meshes.insert id m }

/-- The network with another state of a script. -/
def setScript (n : Network) (id : TransportId) (s : Script) : Network :=
  { n with endpoints := n.endpoints.modify id fun e => { e with transport := .scripted s } }

/-- A transport that nobody holds. -/
def unheld : TransportFault := ⟨["transport is closed"]⟩

/-- Sends a message through a transport. -/
def send (n : Network) (id : TransportId) (receiver : Nat) (message : Bytes) :
    Reply TransportFault Unit × Network :=
  match n.transport? id with
  | none => (.refusal unheld, n)
  | some (.party mesh me) =>
      match (n.mesh mesh).send me receiver message with
      | .ok m => (.value (), n.setMesh mesh m)
      | .error fault => (.refusal fault.ofSend, n)
  | some (.scripted s) =>
      let (reply, s) := s.sendTo receiver message
      (reply, n.setScript id s)

/-- Receives a message through a transport. -/
def receive (n : Network) (id : TransportId) (sender : Nat) :
    Reply TransportFault Bytes × Network :=
  match n.transport? id with
  | none => (.refusal unheld, n)
  | some (.party mesh me) =>
      match (n.mesh mesh).receive me sender with
      | .ok (message, m) => (.value message, n.setMesh mesh m)
      | .error fault => (.refusal (fault.ofReceive me.index), n)
  | some (.scripted s) =>
      let (reply, s) := s.receiveFrom sender
      (reply, n.setScript id s)

/-- Receives from each sender in turn.  The first receive without a message ends it; what was
received before is gone from the transport. -/
def receiveInTurn (n : Network) (id : TransportId) :
    List Nat → Reply TransportFault (List Bytes) × Network
  | [] => (.value [], n)
  | sender :: senders =>
      match n.receive id sender with
      | (.value message, n) =>
          match n.receiveInTurn id senders with
          | (.value messages, n) => (.value (message :: messages), n)
          | (.refusal fault, n) => (.refusal fault, n)
          | (.panic text, n) => (.panic text, n)
      | (.refusal fault, n) => (.refusal fault, n)
      | (.panic text, n) => (.panic text, n)

/-- Receives one message from each sender, in order, through a transport: in turn, unless a script
says something else. -/
def receiveAll (n : Network) (id : TransportId) (senders : List Nat) :
    Reply TransportFault (List Bytes) × Network :=
  match n.transport? id with
  | none => (.refusal unheld, n)
  | some (.party _ _) => n.receiveInTurn id senders
  | some (.scripted s) =>
      match s.receiveAll with
      | some cue => (cue.reply, n)
      | none => n.receiveInTurn id senders

end Network

end NativeBoundary

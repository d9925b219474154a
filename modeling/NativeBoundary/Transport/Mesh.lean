import NativeBoundary.Data.Bytes
import NativeBoundary.Data.Table

/-!
# Meshes

A mesh connects a number of parties in one process.  There is a channel from every party to every
party, itself included.  A channel is a queue with two ends: what goes in at the sending end comes
out at the receiving end, first in, first out.  A party holds the sending ends of the channels that
lead away from it and the receiving ends of those that lead to it, each in the order of the other
parties, and when it is gone its ends are gone with it.  A channel without its receiving end takes
no message any more; one without its sending end still gives out what is in it.

* `Mesh.parties` — the parties of a new mesh, each with its ends.
* `Mesh.send`, `Mesh.receive`, `Mesh.leave` — what a party can do.
-/

namespace NativeBoundary

/-- Why a message could not be moved over a mesh. -/
inductive MeshFault
  /-- There is no such party. -/
  | stranger (party : Nat)
  /-- The party is gone. -/
  | hungUp (party : Nat)
  /-- Nothing arrived from the party in time. -/
  | timedOut (party : Nat)
deriving DecidableEq, Repr

/-- The number of a channel of a mesh. -/
abbrev ChannelId := Nat

/-- A party of a mesh, with its ends of channels. -/
structure Party where
  index : Nat
  /-- The channel to each party. -/
  outbound : List ChannelId
  /-- The channel from each party. -/
  inbound : List ChannelId
deriving DecidableEq, Repr

/-- The channels of a mesh. -/
structure Mesh where
  /-- The messages under way in each channel, oldest first. -/
  queues : Table ChannelId (List Bytes) := .empty
  /-- The parties that are gone, and their ends of channels with them. -/
  gone : List Party := []

namespace Mesh

/-- The channels of a new mesh: a row for each sender, and in it a channel for each receiver. -/
def links (count : Nat) : List (List ChannelId) :=
  (List.range count).map fun sender =>
    (List.range count).map fun receiver => count * sender + receiver

/-- The channel from a sender to a receiver. -/
def link (links : List (List ChannelId)) (sender receiver : Nat) : ChannelId :=
  (links.getD sender []).getD receiver 0

/-- The ends that a party of a new mesh is given: those of its row and those of its column. -/
def partyOf (links : List (List ChannelId)) (count me : Nat) : Party where
  index := me
  outbound := (List.range count).map fun receiver => link links me receiver
  inbound := (List.range count).map fun sender => link links sender me

/-- The parties of a new mesh, in order. -/
def parties (count : Nat) : List Party :=
  let links := links count
  (List.range count).map (partyOf links count)

/-- The messages under way in a channel. -/
def queue (m : Mesh) (channel : ChannelId) : List Bytes := (m.queues.get? channel).getD []

/-- The mesh with other messages under way in a channel. -/
def setQueue (m : Mesh) (channel : ChannelId) (messages : List Bytes) : Mesh :=
  { m with queues := m.queues.insert channel messages }

/-- Whether the sending end of a channel is still there. -/
def hasSender (m : Mesh) (channel : ChannelId) : Bool :=
  !m.gone.any fun party => party.outbound.contains channel

/-- Whether the receiving end of a channel is still there. -/
def hasReceiver (m : Mesh) (channel : ChannelId) : Bool :=
  !m.gone.any fun party => party.inbound.contains channel

/-- Sends a message.  The receiving end has to be there. -/
def send (m : Mesh) (me : Party) (receiver : Nat) (message : Bytes) : Except MeshFault Mesh :=
  match me.outbound[receiver]? with
  | none => .error (.stranger receiver)
  | some channel =>
      if m.hasReceiver channel then .ok (m.setQueue channel (m.queue channel ++ [message]))
      else .error (.hungUp receiver)

/-- Receives the oldest message of a channel.  When there is none, the sender is either gone or
late. -/
def receive (m : Mesh) (me : Party) (sender : Nat) : Except MeshFault (Bytes × Mesh) :=
  match me.inbound[sender]? with
  | none => .error (.stranger sender)
  | some channel =>
      match m.queue channel with
      | message :: rest => .ok (message, m.setQueue channel rest)
      | [] => .error (if m.hasSender channel then .timedOut sender else .hungUp sender)

/-- A party leaves. -/
def leave (m : Mesh) (party : Party) : Mesh := { m with gone := party :: m.gone }

@[simp] theorem queue_setQueue (m : Mesh) (channel c : ChannelId) (messages : List Bytes) :
    (m.setQueue channel messages).queue c = if c = channel then messages else m.queue c := by
  unfold queue setQueue
  rw [Table.get?_insert]
  split <;> rfl

@[simp] theorem queue_leave (m : Mesh) (party : Party) (c : ChannelId) :
    (m.leave party).queue c = m.queue c := rfl

@[simp] theorem gone_setQueue (m : Mesh) (channel : ChannelId) (messages : List Bytes) :
    (m.setQueue channel messages).gone = m.gone := rfl

end Mesh

end NativeBoundary

import NativeBoundary.Proofs.Transport.Links
import NativeBoundary.Transport.Network

/-!
# Delivery over a mesh

A run of a mesh is any sequence of sends, receives, receives from several parties and departures by
its parties, each through its own transport.  The log of a run lists what was sent, what was
received and who left, oldest first.  A message that receiving from several parties takes off a link
is received there and then, also when a later one in the same call is missing.

The invariant (`Wired`) says where the transports of the parties lead, and that on every link what
was received followed by what is under way is what was sent.  Each step keeps it, since a party
reaches only the links that lead away from it and those that lead to it.

* `MeshRun.mesh_delivers` — after any run: every link delivers in order, without loss and without
  duplication; what each party can send and receive, and which links that changes.
-/

namespace NativeBoundary

namespace Network

/-- The messages under way on a link of a mesh of `count` parties. -/
def linkQueue (net : Network) (mesh : MeshId) (count i j : Nat) : List Bytes :=
  (net.mesh mesh).queue (Mesh.link (Mesh.links count) i j)

/-- What receiving in turn takes off the links, with the party that each message is from. -/
def taken (net : Network) (id : TransportId) : List Nat → List (Nat × Bytes)
  | [] => []
  | sender :: senders =>
      match net.receive id sender with
      | (.value message, net) => (sender, message) :: net.taken id senders
      | _ => []

variable {net : Network} {id : TransportId} {sender : Nat} {senders : List Nat}

end Network

/-- What a party of a mesh does. -/
inductive MeshDeed
  | send (receiver : Nat) (message : Bytes)
  | receive (sender : Nat)
  | receiveAll (senders : List Nat)
  /-- The last holder of the transport lets go of it. -/
  | leave

/-- A party of a mesh does something. -/
structure MeshStep where
  me : Nat
  deed : MeshDeed

/-- What happened on a mesh. -/
inductive MeshEvent
  | sent (sender receiver : Nat) (message : Bytes)
  | received (receiver sender : Nat) (message : Bytes)
  | left (party : Nat)

namespace MeshEvent

/-- The message, if it was sent from `i` to `j`. -/
def sentOver? (i j : Nat) : MeshEvent → Option Bytes
  | sent sender receiver message => if sender = i ∧ receiver = j then some message else none
  | _ => none

/-- The message, if `j` received it from `i`. -/
def receivedOver? (i j : Nat) : MeshEvent → Option Bytes
  | received receiver sender message => if sender = i ∧ receiver = j then some message else none
  | _ => none

/-- The party that left. -/
def left? : MeshEvent → Option Nat
  | left party => some party
  | _ => none

end MeshEvent

/-- A network with a mesh in it, the transports of the parties of the mesh, and the log, oldest event
first. -/
structure MeshRun where
  network : Network
  mesh : MeshId
  ids : List TransportId
  log : List MeshEvent := []

namespace MeshRun

/-- A new mesh in a network. -/
def start (net : Network) (count : Nat) : MeshRun :=
  { network := (net.addMesh count).2, mesh := net.nextMesh, ids := (net.addMesh count).1 }

/-- What a party does through its transport, and the log of it. -/
def act (s : MeshRun) (me : Nat) (id : TransportId) : MeshDeed → MeshRun
  | .send receiver message =>
      match s.network.send id receiver message with
      | (.value (), network) => { s with network, log := s.log ++ [.sent me receiver message] }
      | (_, network) => { s with network }
  | .receive sender =>
      match s.network.receive id sender with
      | (.value message, network) =>
          { s with network, log := s.log ++ [.received me sender message] }
      | (_, network) => { s with network }
  | .receiveAll senders =>
      { s with
        network := (s.network.receiveAll id senders).2
        log := s.log ++ (s.network.taken id senders).map fun (sender, message) =>
          .received me sender message }
  | .leave =>
      if me ∈ s.log.filterMap MeshEvent.left? then s
      else { s with network := s.network.letGo id, log := s.log ++ [.left me] }

/-- One step; there is nothing to do for a party that the mesh does not have. -/
def step (s : MeshRun) (x : MeshStep) : MeshRun :=
  match s.ids[x.me]? with
  | some id => s.act x.me id x.deed
  | none => s

/-- The steps of a run, one after the other. -/
def run (s : MeshRun) (steps : List MeshStep) : MeshRun := steps.foldl step s

variable (s : MeshRun)

/-- What was sent from `i` to `j`, oldest first. -/
def sentOver (i j : Nat) : List Bytes := s.log.filterMap (MeshEvent.sentOver? i j)

/-- What `j` received from `i`, oldest first. -/
def receivedOver (i j : Nat) : List Bytes := s.log.filterMap (MeshEvent.receivedOver? i j)

/-- The parties that left. -/
def left : List Nat := s.log.filterMap MeshEvent.left?

/-- The messages under way from `i` to `j`. -/
def queue (count i j : Nat) : List Bytes := s.network.linkQueue s.mesh count i j

/-- A party that has not left, and its transport. -/
def Present (me : Nat) (id : TransportId) : Prop := s.ids[me]? = some id ∧ me ∉ s.left

/-- The network with other messages under way from `i` to `j`. -/
def put (count i j : Nat) (messages : List Bytes) : Network :=
  s.network.setMesh s.mesh
    ((s.network.mesh s.mesh).setQueue (Mesh.link (Mesh.links count) i j) messages)

/-- The transports of the parties lead to the mesh, and the links deliver. -/
structure Wired (count : Nat) : Prop where
  length : s.ids.length = count
  nodup : s.ids.Nodup
  /-- Each transport is that of its party, until the party leaves. -/
  endpoint : ∀ me id, s.ids[me]? = some id → s.network.endpoints.get? id =
    if me ∈ s.left then none
    else some { transport := .party s.mesh (Mesh.partyOf (Mesh.links count) count me) }
  stands : (s.network.meshes.get? s.mesh).isSome
  leftBy : (s.network.mesh s.mesh).LeftBy count s.left
  delivered : ∀ i < count, ∀ j < count,
    s.receivedOver i j ++ s.queue count i j = s.sentOver i j

variable {s} {count i j k l me : Nat} {id : TransportId} {messages : List Bytes}

/-- A transport leads to its party while the party is present. -/
theorem Wired.transport (hw : s.Wired count) (hid : s.ids[me]? = some id) :
    s.network.transport? id = if me ∈ s.left then none
      else some (.party s.mesh (Mesh.partyOf (Mesh.links count) count me)) := by
  unfold Network.transport?
  rw [hw.endpoint me id hid]
  split <;> rfl

theorem Wired.lt (hw : s.Wired count) (hid : s.ids[me]? = some id) : me < count := by
  rw [← hw.length]
  exact (List.getElem?_eq_some_iff.mp hid).1

theorem mesh_put (s : MeshRun) (count i j : Nat) (messages : List Bytes) :
    (s.put count i j messages).mesh s.mesh =
      (s.network.mesh s.mesh).setQueue (Mesh.link (Mesh.links count) i j) messages := by
  unfold put Network.setMesh Network.mesh
  rw [Table.get?_insert_self]
  rfl

/-- Another link is under way as it was. -/
theorem linkQueue_put (s : MeshRun) (hi : i < count) (hj : j < count) (hk : k < count)
    (hl : l < count) (messages : List Bytes) :
    (s.put count i j messages).linkQueue s.mesh count k l =
      if k = i ∧ l = j then messages else s.queue count k l := by
  unfold queue Network.linkQueue
  rw [mesh_put, Mesh.queue_setQueue]
  simp only [Mesh.link_inj hk hl hi hj]

/-- A party that is present sends to every party that did not leave, itself included. -/
theorem Wired.send_eq (hw : s.Wired count) (hp : s.Present me id) (receiver : Nat)
    (message : Bytes) :
    s.network.send id receiver message =
      if receiver < count then
        if receiver ∈ s.left then (.refusal (MeshFault.hungUp receiver).ofSend, s.network)
        else (.value (), s.put count me receiver (s.queue count me receiver ++ [message]))
      else (.refusal (MeshFault.stranger receiver).ofSend, s.network) := by
  have hme := hw.lt hp.1
  unfold Network.send
  rw [hw.transport hp.1, if_neg hp.2]
  simp only [Mesh.send_eq hw.leftBy hme]
  by_cases hreceiver : receiver < count
  · by_cases hleft : receiver ∈ s.left
    · simp only [hreceiver, hleft, if_true]
    · simp only [hreceiver, hleft, if_true, if_false]
      rfl
  · simp only [hreceiver, if_false]

/-- A party that left sends nothing. -/
theorem Wired.send_left (hw : s.Wired count) (hid : s.ids[me]? = some id) (hme : me ∈ s.left)
    (receiver : Nat) (message : Bytes) :
    s.network.send id receiver message = (.refusal Network.unheld, s.network) := by
  unfold Network.send
  rw [hw.transport hid, if_pos hme]

/-- Why nothing was received. -/
def missing (s : MeshRun) (count sender : Nat) : MeshFault :=
  if sender < count then if sender ∈ s.left then .hungUp sender else .timedOut sender
  else .stranger sender

/-- A party that is present receives what is under way to it, also from a party that left. -/
theorem Wired.receive_eq (hw : s.Wired count) (hp : s.Present me id) (sender : Nat) :
    s.network.receive id sender =
      match (if sender < count then s.queue count sender me else []) with
      | message :: rest => (.value message, s.put count sender me rest)
      | [] => (.refusal ((s.missing count sender).ofReceive me), s.network) := by
  have hme := hw.lt hp.1
  unfold Network.receive missing
  rw [hw.transport hp.1, if_neg hp.2]
  simp only [Mesh.receive_eq hw.leftBy hme]
  by_cases hsender : sender < count
  · simp only [hsender, if_true]
    cases hqueue : s.queue count sender me with
    | cons message rest =>
        rw [show (s.network.mesh s.mesh).queue (Mesh.link (Mesh.links count) sender me) = _
          from hqueue]
        rfl
    | nil =>
        rw [show (s.network.mesh s.mesh).queue (Mesh.link (Mesh.links count) sender me) = _
          from hqueue]
        rfl
  · simp only [hsender, if_false]
    rfl

/-- A party that left receives nothing. -/
theorem Wired.receive_left (hw : s.Wired count) (hid : s.ids[me]? = some id) (hme : me ∈ s.left)
    (sender : Nat) : s.network.receive id sender = (.refusal Network.unheld, s.network) := by
  unfold Network.receive
  rw [hw.transport hid, if_pos hme]

/-- What a receive may do: give the oldest message of a link, or refuse and do nothing. -/
theorem Wired.receive_cases (hw : s.Wired count) (hid : s.ids[me]? = some id) (sender : Nat) :
    (∃ message rest, sender < count ∧ s.queue count sender me = message :: rest ∧
      s.network.receive id sender = (.value message, s.put count sender me rest)) ∨
    ∃ fault, s.network.receive id sender = (.refusal fault, s.network) := by
  by_cases hme : me ∈ s.left
  · exact .inr ⟨_, hw.receive_left hid hme sender⟩
  · have hreceive := hw.receive_eq ⟨hid, hme⟩ sender
    by_cases hsender : sender < count
    · rw [if_pos hsender] at hreceive
      cases hqueue : s.queue count sender me with
      | cons message rest =>
          rw [hqueue] at hreceive
          exact .inl ⟨message, rest, hsender, rfl, hreceive⟩
      | nil =>
          rw [hqueue] at hreceive
          exact .inr ⟨_, hreceive⟩
    · rw [if_neg hsender] at hreceive
      exact .inr ⟨_, hreceive⟩

/-- Messages on one link keep the wiring, if the log says what they are. -/
theorem Wired.put (hw : s.Wired count) (hi : i < count) (hj : j < count) {event : MeshEvent}
    (hstays : event.left? = none)
    (hlink : s.receivedOver i j ++ (event.receivedOver? i j).toList ++ messages =
      s.sentOver i j ++ (event.sentOver? i j).toList)
    (hothers : ∀ k l, ¬ (k = i ∧ l = j) →
      event.receivedOver? k l = none ∧ event.sentOver? k l = none) :
    Wired { s with network := s.put count i j messages, log := s.log ++ [event] } count := by
  have hleft : left { s with network := s.put count i j messages, log := s.log ++ [event] } =
      s.left := by
    unfold left
    rw [List.filterMap_append, List.filterMap_cons, hstays]
    exact List.append_nil _
  constructor
  case length => exact hw.length
  case nodup => exact hw.nodup
  case endpoint =>
    rw [hleft]
    exact hw.endpoint
  case stands =>
    unfold MeshRun.put Network.setMesh
    simp only [Table.get?_insert_self, Option.isSome_some]
  case leftBy =>
    rw [hleft, mesh_put]
    exact hw.leftBy.setQueue _ _
  case delivered =>
    intro k hk l hl
    have hone : ∀ f : MeshEvent → Option Bytes, [event].filterMap f = (f event).toList := by
      intro f
      cases hf : f event <;> simp [hf]
    have hqueue := s.linkQueue_put hi hj hk hl messages
    have hbefore := hw.delivered k hk l hl
    unfold receivedOver sentOver at hlink hbefore ⊢
    unfold queue
    rw [List.filterMap_append, List.filterMap_append, hone, hone, hqueue]
    by_cases hsame : k = i ∧ l = j
    · rw [if_pos hsame]
      obtain ⟨rfl, rfl⟩ := hsame
      exact hlink
    · obtain ⟨hreceived, hsent⟩ := hothers k l hsame
      rw [if_neg hsame, hreceived, hsent, Option.toList_none, List.append_nil, List.append_nil]
      exact hbefore

theorem Wired.send (hw : s.Wired count) (hid : s.ids[me]? = some id) (receiver : Nat)
    (message : Bytes) : (s.act me id (.send receiver message)).Wired count := by
  simp only [act]
  by_cases hme : me ∈ s.left
  · rw [hw.send_left hid hme]
    exact hw
  · rw [hw.send_eq ⟨hid, hme⟩]
    by_cases hreceiver : receiver < count
    · rw [if_pos hreceiver]
      by_cases hleft : receiver ∈ s.left
      · rw [if_pos hleft]
        exact hw
      · rw [if_neg hleft]
        refine hw.put (hw.lt hid) hreceiver rfl ?_ ?_
        · simp only [MeshEvent.receivedOver?, MeshEvent.sentOver?, and_self, if_true]
          rw [Option.toList_none, List.append_nil, ← List.append_assoc,
            hw.delivered me (hw.lt hid) receiver hreceiver]
          rfl
        · intro k l hother
          exact ⟨rfl, if_neg fun hsame => hother ⟨hsame.1.symm, hsame.2.symm⟩⟩
    · rw [if_neg hreceiver]
      exact hw

theorem Wired.receive (hw : s.Wired count) (hid : s.ids[me]? = some id) (sender : Nat) :
    (s.act me id (.receive sender)).Wired count := by
  simp only [act]
  rcases hw.receive_cases hid sender with ⟨message, rest, hsender, hqueue, hreceive⟩ |
    ⟨fault, hreceive⟩
  · rw [hreceive]
    refine hw.put hsender (hw.lt hid) rfl ?_ ?_
    · have hbefore := hw.delivered sender hsender me (hw.lt hid)
      rw [hqueue] at hbefore
      simp only [MeshEvent.receivedOver?, MeshEvent.sentOver?, and_self, if_true]
      rw [← hbefore, Option.toList_none, List.append_nil, Option.toList_some, List.append_assoc]
      rfl
    · intro k l hother
      exact ⟨if_neg fun hsame => hother ⟨hsame.1.symm, hsame.2.symm⟩, rfl⟩
  · rw [hreceive]
    exact hw

/-- Receiving in turn, with the log of it. -/
def collect (s : MeshRun) (me : Nat) (id : TransportId) (senders : List Nat) : MeshRun :=
  { s with
    network := (s.network.receiveInTurn id senders).2
    log := s.log ++ (s.network.taken id senders).map fun (sender, message) =>
      .received me sender message }

theorem collect_of_value {sender : Nat} {message : Bytes} {network : Network}
    (hreceive : s.network.receive id sender = (.value message, network)) (senders : List Nat) :
    s.collect me id (sender :: senders) =
      (s.act me id (.receive sender)).collect me id senders := by
  have hnetwork : (s.network.receiveInTurn id (sender :: senders)).2 =
      (network.receiveInTurn id senders).2 := by
    rw [Network.receiveInTurn, hreceive]
    simp only
    split <;> rename_i hturn <;> rw [hturn]
  have htaken : s.network.taken id (sender :: senders) =
      (sender, message) :: network.taken id senders := by
    rw [Network.taken, hreceive]
  unfold collect
  simp only [act, hreceive, hnetwork, htaken, List.map_cons, List.append_assoc,
    List.singleton_append]

theorem collect_of_refusal {sender : Nat} {fault : TransportFault}
    (hreceive : s.network.receive id sender = (.refusal fault, s.network)) (senders : List Nat) :
    s.collect me id (sender :: senders) = s := by
  have hnetwork : (s.network.receiveInTurn id (sender :: senders)).2 = s.network := by
    rw [Network.receiveInTurn, hreceive]
  have htaken : s.network.taken id (sender :: senders) = [] := by
    rw [Network.taken, hreceive]
  unfold collect
  rw [hnetwork, htaken, List.map_nil, List.append_nil]

/-- Receiving in turn keeps the wiring, and changes only links that it names. -/
theorem Wired.collect (hw : s.Wired count) (hid : s.ids[me]? = some id) (senders : List Nat) :
    (s.collect me id senders).Wired count ∧
      ∀ k < count, ∀ l < count, ¬ (k ∈ senders ∧ l = me) →
        (s.collect me id senders).queue count k l = s.queue count k l := by
  induction senders generalizing s with
  | nil =>
      have hsame : s.collect me id [] = s := by
        unfold MeshRun.collect
        rw [Network.taken, List.map_nil, List.append_nil]
        rfl
      rw [hsame]
      exact ⟨hw, fun _ _ _ _ _ => rfl⟩
  | cons sender senders ih =>
      have hnext := hw.receive hid sender
      rcases hw.receive_cases hid sender with ⟨message, rest, hsender, hqueue, hreceive⟩ |
        ⟨fault, hreceive⟩
      · rw [collect_of_value hreceive]
        have hids : (s.act me id (.receive sender)).ids[me]? = some id := by
          simp only [act, hreceive]
          exact hid
        obtain ⟨hwired, hkept⟩ := ih hnext hids
        refine ⟨hwired, ?_⟩
        intro k hk l hl hother
        rw [hkept k hk l hl fun hnamed => hother ⟨List.mem_cons_of_mem _ hnamed.1, hnamed.2⟩]
        have hput := s.linkQueue_put hsender (hw.lt hid) hk hl rest
        have hlink : ¬ (k = sender ∧ l = me) := by
          rintro ⟨rfl, rfl⟩
          exact hother ⟨List.mem_cons_self, rfl⟩
        rw [if_neg hlink] at hput
        unfold queue
        simp only [act, hreceive]
        exact hput
      · rw [collect_of_refusal hreceive]
        exact ⟨hw, fun _ _ _ _ _ => rfl⟩

/-- A party of a mesh receives from several in turn. -/
theorem Wired.receiveAll_eq (hw : s.Wired count) (hp : s.Present me id) (senders : List Nat) :
    s.network.receiveAll id senders = s.network.receiveInTurn id senders := by
  unfold Network.receiveAll
  rw [hw.transport hp.1, if_neg hp.2]

/-- A party that left receives nothing from anybody. -/
theorem Wired.receiveAll_left (hw : s.Wired count) (hid : s.ids[me]? = some id) (hme : me ∈ s.left)
    (senders : List Nat) : s.act me id (.receiveAll senders) = s := by
  have hreply : (s.network.receiveAll id senders).2 = s.network := by
    unfold Network.receiveAll
    rw [hw.transport hid, if_pos hme]
  have htaken : s.network.taken id senders = [] := by
    cases senders with
    | nil => rfl
    | cons sender senders => rw [Network.taken, hw.receive_left hid hme]
  simp only [act, hreply, htaken, List.map_nil, List.append_nil]

theorem Wired.receiveAll (hw : s.Wired count) (hid : s.ids[me]? = some id) (senders : List Nat) :
    (s.act me id (.receiveAll senders)).Wired count := by
  by_cases hme : me ∈ s.left
  · rw [hw.receiveAll_left hid hme]
    exact hw
  · have hcollect := (hw.collect hid senders).1
    unfold MeshRun.collect at hcollect
    rw [← hw.receiveAll_eq ⟨hid, hme⟩] at hcollect
    exact hcollect

/-- A party that leaves takes its transport and its ends of links with it. -/
theorem Wired.letGo_eq (hw : s.Wired count) (hp : s.Present me id) :
    s.network.letGo id =
      { s.network with
        endpoints := s.network.endpoints.erase id
        meshes := s.network.meshes.modify s.mesh
          (·.leave (Mesh.partyOf (Mesh.links count) count me)) } := by
  unfold Network.letGo
  rw [hw.endpoint me id hp.1, if_neg hp.2]
  rfl

theorem Wired.mesh_letGo (hw : s.Wired count) (hp : s.Present me id) :
    (s.network.letGo id).mesh s.mesh =
      (s.network.mesh s.mesh).leave (Mesh.partyOf (Mesh.links count) count me) := by
  obtain ⟨m, hm⟩ := Option.isSome_iff_exists.mp hw.stands
  rw [hw.letGo_eq hp]
  unfold Network.mesh
  rw [Table.get?_modify, if_pos rfl, hm]
  rfl

theorem Wired.leave (hw : s.Wired count) (hid : s.ids[me]? = some id) :
    (s.act me id .leave).Wired count := by
  simp only [act]
  by_cases hme : me ∈ s.log.filterMap MeshEvent.left?
  · rw [if_pos hme]
    exact hw
  · rw [if_neg hme]
    have hp : s.Present me id := ⟨hid, hme⟩
    have hmesh := hw.mesh_letGo hp
    have hleft : left { s with network := s.network.letGo id, log := s.log ++ [.left me] } =
        s.left ++ [me] := by
      unfold left
      rw [List.filterMap_append]
      rfl
    constructor
    case length => exact hw.length
    case nodup => exact hw.nodup
    case endpoint =>
      intro k other hother
      rw [hleft]
      change (s.network.letGo id).endpoints.get? other = _
      rw [hw.letGo_eq hp]
      change (s.network.endpoints.erase id).get? other = _
      rw [Table.get?_erase]
      by_cases hk : k = me
      · subst hk
        obtain rfl : other = id := Option.some.inj (hother.symm.trans hid)
        rw [if_pos rfl, if_pos (List.mem_append_right _ (List.mem_singleton.mpr rfl))]
      · have hne : other ≠ id := by
          -- two parties do not share a transport
          rintro rfl
          obtain ⟨hlt, hget⟩ := List.getElem?_eq_some_iff.mp hother
          obtain ⟨hlt', hget'⟩ := List.getElem?_eq_some_iff.mp hid
          exact hk ((List.getElem_inj hw.nodup).mp (hget.trans hget'.symm))
        have hsame : k ∈ s.left ++ [me] ↔ k ∈ s.left := by
          rw [List.mem_append, List.mem_singleton]
          exact or_iff_left hk
        rw [if_neg hne, hw.endpoint k other hother]
        simp only [hsame]
    case stands =>
      change ((s.network.letGo id).meshes.get? s.mesh).isSome
      rw [hw.letGo_eq hp]
      change ((s.network.meshes.modify s.mesh _).get? s.mesh).isSome
      rw [Table.get?_modify, if_pos rfl, Option.isSome_map]
      exact hw.stands
    case leftBy =>
      rw [hleft]
      change ((s.network.letGo id).mesh s.mesh).LeftBy count _
      rw [hmesh]
      exact hw.leftBy.leave (hw.lt hid)
    case delivered =>
      intro k hk l hl
      have hbefore := hw.delivered k hk l hl
      unfold receivedOver sentOver queue Network.linkQueue at hbefore ⊢
      rw [List.filterMap_append, List.filterMap_append]
      change _ ++ [] ++ ((s.network.letGo id).mesh s.mesh).queue _ = _ ++ []
      rw [hmesh, Mesh.queue_leave, List.append_nil, List.append_nil]
      exact hbefore

/-- Every step keeps the wiring. -/
theorem Wired.step (hw : s.Wired count) (x : MeshStep) : (s.step x).Wired count := by
  unfold MeshRun.step
  split
  · rename_i id hid
    cases x.deed with
    | send receiver message => exact hw.send hid receiver message
    | receive sender => exact hw.receive hid sender
    | receiveAll senders => exact hw.receiveAll hid senders
    | leave => exact hw.leave hid
  · exact hw

theorem Wired.run (hw : s.Wired count) (steps : List MeshStep) : (s.run steps).Wired count := by
  induction steps generalizing s with
  | nil => exact hw
  | cons x steps ih => exact ih (hw.step x)

/-- The links of a mesh of `count` parties deliver, and each party that is present can do what its
links allow.  A link is named by its sender and its receiver. -/
structure Delivers (s : MeshRun) (count : Nat) : Prop where
  /-- What was received, followed by what is under way, is what was sent. -/
  delivered : ∀ i < count, ∀ j < count, j ∉ s.left →
    s.receivedOver i j ++ s.queue count i j = s.sentOver i j
  /-- A party has its transport until it leaves. -/
  present : ∀ me < count, me ∉ s.left → ∃ id, s.Present me id
  sends : ∀ me id receiver message, s.Present me id →
    ((s.network.send id receiver message).1 = .value () ↔ receiver < count ∧ receiver ∉ s.left)
  sends_link : ∀ me id receiver message, s.Present me id → receiver < count → receiver ∉ s.left →
    ∀ i < count, ∀ j < count,
      (s.network.send id receiver message).2.linkQueue s.mesh count i j =
        if i = me ∧ j = receiver then s.queue count i j ++ [message] else s.queue count i j
  send_fails : ∀ me id receiver message, s.Present me id →
    ¬ (receiver < count ∧ receiver ∉ s.left) →
    ∃ fault, s.network.send id receiver message = (.refusal fault, s.network)
  receives : ∀ me id sender, s.Present me id →
    ((∃ message, (s.network.receive id sender).1 = .value message) ↔
      sender < count ∧ s.queue count sender me ≠ [])
  receives_link : ∀ me id sender message, s.Present me id →
    (s.network.receive id sender).1 = .value message →
    ∀ i < count, ∀ j < count, s.queue count i j =
      if i = sender ∧ j = me then
        message :: (s.network.receive id sender).2.linkQueue s.mesh count i j
      else (s.network.receive id sender).2.linkQueue s.mesh count i j
  receive_fails : ∀ me id sender, s.Present me id →
    ¬ (sender < count ∧ s.queue count sender me ≠ []) →
    ∃ fault : MeshFault,
      s.network.receive id sender = (.refusal (fault.ofReceive me), s.network) ∧
      (fault = .timedOut sender ↔ sender < count ∧ sender ∉ s.left) ∧
      (fault = .hungUp sender ↔ sender < count ∧ sender ∈ s.left) ∧
      (fault = .stranger sender ↔ count ≤ sender)
  /-- Receiving from several takes messages from them in order, answers with all that it takes
  unless one is missing, and changes no other link. -/
  receivesAll : ∀ me id senders, s.Present me id →
    (s.network.taken id senders).map Prod.fst <+: senders ∧
    (∀ messages, (s.network.receiveAll id senders).1 = .value messages →
      messages.length = senders.length ∧ s.network.taken id senders = senders.zip messages) ∧
    ∀ i < count, ∀ j < count, ¬ (i ∈ senders ∧ j = me) →
      (s.network.receiveAll id senders).2.linkQueue s.mesh count i j = s.queue count i j
  leaves_link : ∀ me id, s.Present me id → ∀ i < count, ∀ j < count,
    (s.network.letGo id).linkQueue s.mesh count i j = s.queue count i j

/-- What was sent before its sender left is received, and what was sent to others is not. -/
example :
    ((start {} 3).run [⟨1, .send 0 [1]⟩, ⟨1, .send 2 [2]⟩, ⟨0, .send 0 [3]⟩, ⟨1, .leave⟩,
      ⟨0, .receiveAll [1, 0]⟩, ⟨0, .receive 1⟩]).receivedOver 1 0 = [[1]] := by decide

end MeshRun

end NativeBoundary

import NativeBoundary.Proofs.Transport.MeshDelivery
import NativeBoundary.Proofs.Transport.Outcomes

/-!
# Receiving from several parties of a mesh

A party of a mesh that receives from several parties asks them in turn.  A party may be named more
than once, and then each time gives the oldest message that the earlier times left.  So the message
for a position in the list of senders is known from the start (`Network.due`): it is as far down the
link from its sender as the sender was named before.

Receiving goes on until a position has no message.  What was taken by then, one message for each
position, is gone from the links (`Network.Consumed`); nothing else on the mesh changes.

* `Network.receiveInTurn_cases` — all positions are served, or those before the first one without a
  message;
* `Process.receives_in_turn` — what native code gets through a session of the party.
-/

namespace NativeBoundary

namespace Network

variable {net after : Network} {mesh : MeshId} {count me sender : Nat} {senders : List Nat}
  {id : TransportId}

@[simp] theorem mesh_setMesh (net : Network) (mesh : MeshId) (m : Mesh) :
    (net.setMesh mesh m).mesh mesh = m := by
  unfold setMesh Network.mesh
  rw [Table.get?_insert_self]
  rfl

theorem mesh_setMesh_of_ne (net : Network) (m : Mesh) {other : MeshId} (hother : other ≠ mesh) :
    (net.setMesh mesh m).mesh other = net.mesh other := by
  unfold setMesh Network.mesh
  rw [Table.get?_insert_of_ne _ _ hother]

/-- The messages under way to the party `me` of a mesh from another party; there are none from a
party that the mesh does not have. -/
def waiting (net : Network) (mesh : MeshId) (count me sender : Nat) : List Bytes :=
  if sender < count then net.linkQueue mesh count sender me else []

/-- The message for a position in a list of senders.  The earlier positions with the same sender
come first. -/
def due (net : Network) (mesh : MeshId) (count me : Nat) (senders : List Nat) (position : Nat) :
    Option Bytes :=
  senders[position]?.bind fun sender =>
    (net.waiting mesh count me sender)[(senders.take position).count sender]?

/-- One message for each of some senders was taken from the links to the party `me`, and nothing
else happened. -/
structure Consumed (net : Network) (mesh : MeshId) (count me : Nat) (senders : List Nat)
    (after : Network) : Prop where
  links : ∀ i < count, ∀ j < count, after.linkQueue mesh count i j =
    (net.linkQueue mesh count i j).drop (if j = me then senders.count i else 0)
  gone : (after.mesh mesh).gone = (net.mesh mesh).gone
  meshes : ∀ other, other ≠ mesh → after.mesh other = net.mesh other
  endpoints : after.endpoints = net.endpoints

theorem Consumed.refl (net : Network) (mesh : MeshId) (count me : Nat) :
    net.Consumed mesh count me [] net where
  links := fun _ _ _ _ => by simp
  gone := rfl
  meshes := fun _ _ => rfl
  endpoints := rfl

/-- What is taken first, and what is taken then. -/
theorem Consumed.cons {last : Network} (first : net.Consumed mesh count me [sender] after)
    (rest : after.Consumed mesh count me senders last) :
    net.Consumed mesh count me (sender :: senders) last where
  links := by
    intro i hi j hj
    rw [rest.links i hi j hj, first.links i hi j hj, List.drop_drop]
    congr 1
    split
    · have hsplit : sender :: senders = [sender] ++ senders := rfl
      rw [hsplit, List.count_append]
    · rfl
  gone := rest.gone.trans first.gone
  meshes := fun other hother => (rest.meshes other hother).trans (first.meshes other hother)
  endpoints := rest.endpoints.trans first.endpoints

/-- The transports are those from before. -/
theorem Consumed.transport (hc : net.Consumed mesh count me senders after) (id : TransportId) :
    after.transport? id = net.transport? id := by
  unfold transport?
  rw [hc.endpoints]

theorem Consumed.waiting (hc : net.Consumed mesh count me senders after) (hme : me < count)
    (sender : Nat) : after.waiting mesh count me sender =
      (net.waiting mesh count me sender).drop (senders.count sender) := by
  unfold Network.waiting
  split
  · rename_i hsender
    rw [hc.links sender hsender me hme, if_pos rfl]
  · rw [List.drop_nil]

theorem due_zero (net : Network) (mesh : MeshId) (count me sender : Nat) (senders : List Nat) :
    net.due mesh count me (sender :: senders) 0 = (net.waiting mesh count me sender).head? := by
  rw [List.head?_eq_getElem?]
  rfl

/-- The later positions are due what is left when the first one was served. -/
theorem Consumed.due (hc : net.Consumed mesh count me [sender] after) (hme : me < count)
    (senders : List Nat) (position : Nat) :
    after.due mesh count me senders position =
      net.due mesh count me (sender :: senders) (position + 1) := by
  unfold Network.due
  rw [List.getElem?_cons_succ, List.take_succ_cons]
  congr 1
  funext s
  rw [hc.waiting hme, List.getElem?_drop, ← List.count_append, List.singleton_append]

/-- Taking the oldest message of a link is all that happens. -/
theorem consumed_setQueue {message : Bytes} {rest : List Bytes} (hsender : sender < count)
    (hme : me < count) (hqueue : net.linkQueue mesh count sender me = message :: rest) :
    net.Consumed mesh count me [sender] (net.setMesh mesh
      ((net.mesh mesh).setQueue (Mesh.link (Mesh.links count) sender me) rest)) where
  links := by
    intro i hi j hj
    unfold linkQueue at hqueue ⊢
    rw [mesh_setMesh, Mesh.queue_setQueue]
    simp only [Mesh.link_inj hi hj hsender hme]
    by_cases hlink : i = sender ∧ j = me
    · obtain ⟨rfl, rfl⟩ := hlink
      simp [hqueue]
    · rw [if_neg hlink]
      have hnone : (if j = me then [sender].count i else 0) = 0 := by
        split
        · rename_i hto
          rw [List.count_eq_zero, List.mem_singleton]
          exact fun hfrom => hlink ⟨hfrom, hto⟩
        · rfl
      rw [hnone, List.drop_zero]
  gone := by rw [mesh_setMesh, Mesh.gone_setQueue]
  meshes := fun other hother => mesh_setMesh_of_ne net _ hother
  endpoints := rfl

/-- A party receives the oldest message that is under way to it, or nothing happens. -/
theorem receive_cases (hparty : net.transport? id =
      some (.party mesh (Mesh.partyOf (Mesh.links count) count me))) (hme : me < count)
    (sender : Nat) :
    (∃ message after, net.receive id sender = (.value message, after) ∧
      (net.waiting mesh count me sender).head? = some message ∧
        net.Consumed mesh count me [sender] after) ∨
    (∃ fault, net.receive id sender = (.refusal fault, net) ∧
      (net.waiting mesh count me sender).head? = none) := by
  unfold receive waiting
  rw [hparty]
  simp only [Mesh.receive, Mesh.inbound_partyOf]
  by_cases hsender : sender < count
  · simp only [if_pos hsender]
    unfold linkQueue
    cases hqueue : (net.mesh mesh).queue (Mesh.link (Mesh.links count) sender me) with
    | nil => exact .inr ⟨_, rfl, rfl⟩
    | cons message rest =>
        exact .inl ⟨message, _, rfl, rfl, consumed_setQueue hsender hme hqueue⟩
  · simp only [if_neg hsender]
    exact .inr ⟨_, rfl, rfl⟩

/-- Receiving in turn serves all positions, or those before the first one without a message. -/
theorem receiveInTurn_cases (hparty : net.transport? id =
      some (.party mesh (Mesh.partyOf (Mesh.links count) count me))) (hme : me < count)
    (senders : List Nat) :
    (∃ messages after, net.receiveInTurn id senders = (.value messages, after) ∧
      messages.length = senders.length ∧
      (∀ m < senders.length, net.due mesh count me senders m = messages[m]?) ∧
        net.Consumed mesh count me senders after) ∨
    (∃ m fault after, m < senders.length ∧
      net.receiveInTurn id senders = (.refusal fault, after) ∧
      net.due mesh count me senders m = none ∧
      (∀ j < m, (net.due mesh count me senders j).isSome) ∧
        net.Consumed mesh count me (senders.take m) after) := by
  induction senders generalizing net with
  | nil =>
      exact .inl ⟨[], net, rfl, rfl, fun m hm => absurd hm (Nat.not_lt_zero m), .refl _ _ _ _⟩
  | cons sender senders ih =>
      rcases receive_cases hparty hme sender with ⟨message, next, hreceive, hhead, hnext⟩ |
        ⟨fault, hreceive, hhead⟩
      · have hfirst : net.due mesh count me (sender :: senders) 0 = some message :=
          (due_zero _ _ _ _ _ _).trans hhead
        rw [receiveInTurn, hreceive]
        rcases ih ((hnext.transport id).trans hparty) with
          ⟨messages, last, hturn, hlength, hdue, hlast⟩ |
            ⟨m, fault, last, hm, hturn, hnone, hsome, hlast⟩
        · refine .inl ⟨message :: messages, last, ?_, congrArg (· + 1) hlength, ?_,
            hnext.cons hlast⟩
          · simp only [hturn]
          · intro m hm
            cases m with
            | zero => exact hfirst
            | succ m =>
                rw [← hnext.due hme]
                exact hdue m (Nat.lt_of_succ_lt_succ hm)
        · refine .inr ⟨m + 1, fault, last, Nat.succ_lt_succ hm, ?_, ?_, ?_, hnext.cons hlast⟩
          · simp only [hturn]
          · rw [← hnext.due hme]
            exact hnone
          · intro j hj
            cases j with
            | zero =>
                rw [hfirst]
                rfl
            | succ j =>
                rw [← hnext.due hme]
                exact hsome j (Nat.lt_of_succ_lt_succ hj)
      · refine .inr ⟨0, fault, net, Nat.succ_pos _, ?_, ?_, ?_, .refl _ _ _ _⟩
        · rw [receiveInTurn, hreceive]
        · exact (due_zero _ _ _ _ _ _).trans hhead
        · exact fun j hj => absurd hj (Nat.not_lt_zero j)

end Network

/-- A list of senders as native code passes it names some parties. -/
structure SenderList.Names (s : SenderList) (parties : List Nat) : Prop where
  count : s.count.toInt = parties.length
  indices : s.indices.map Int32.toInt = parties.map Int.ofNat

namespace SenderList.Names

variable {s : SenderList} {parties : List Nat}

theorem decoded (hs : s.Names parties) :
    (s.indices.map fun index => index.toInt.toNat) = parties := by
  have hmap := congrArg (List.map Int.toNat) hs.indices
  rw [List.map_map, List.map_map] at hmap
  exact hmap.trans (List.map_id'' (fun _ => rfl) parties)

theorem not_negative (hs : s.Names parties) : s.indices.any (· < 0) = false := by
  rw [List.any_eq_false]
  intro index hindex
  have hmem : index.toInt ∈ parties.map Int.ofNat := hs.indices ▸ List.mem_map_of_mem hindex
  obtain ⟨party, -, hparty⟩ := List.mem_map.mp hmem
  rw [decide_eq_true_eq, Int32.lt_iff_toInt_lt, Int32.toInt_zero, ← hparty]
  exact Int.not_lt.mpr (Int.natCast_nonneg party)

/-- A list that names somebody is not null, and its count is neither negative nor zero. -/
theorem of_ne_nil (hs : s.Names parties) (hparties : parties ≠ []) :
    ¬ s.count < 0 ∧ s.count ≠ 0 ∧ s.list?.isNone = false := by
  have hpos : 0 < parties.length := List.length_pos_iff.mpr hparties
  have hcount := hs.count
  refine ⟨?_, ?_, ?_⟩
  · rw [Int32.lt_iff_toInt_lt, Int32.toInt_zero]
    omega
  · rw [ne_eq, ← Int32.toInt_inj, Int32.toInt_zero]
    omega
  · cases hlist : s.list? with
    | some list => rfl
    | none =>
        have hnone : s.indices = [] := by
          rw [SenderList.indices, hlist, Option.getD_none, List.take_nil]
        have hempty := hs.indices
        rw [hnone] at hempty
        exact absurd (List.map_eq_nil_iff.mp hempty.symm) hparties

end SenderList.Names

namespace Process

variable {p : Process} {context : UInt64} {mesh : MeshId} {count me : Nat}

/-- A context stands for a session of the party `me` of a mesh of `count` parties. -/
structure Attends (p : Process) (context : UInt64) (mesh : MeshId) (count me : Nat) : Prop where
  lt : me < count
  session : ∃ id, p.sessionTransport? context = some id ∧ p.network.transport? id =
    some (.party mesh (Mesh.partyOf (Mesh.links count) count me))

/-- Without senders nothing is asked. -/
theorem firstStop?_nobody {senders : SenderList} (ha : p.Attends context mesh count me)
    (hparties : senders.Names []) (raw : RawBatch) :
    (TransportCall.receiveAll context senders (some raw)).firstStop? p = some Code.success := by
  obtain ⟨id, hsession, -⟩ := ha.session
  have hzero : senders.count = 0 := by
    rw [← Int32.toInt_inj, Int32.toInt_zero]
    exact hparties.count
  simp [TransportCall.firstStop?, TransportCall.checks, hsession, hzero]

/-- With senders the transport is asked. -/
theorem firstStop?_somebody {senders : SenderList} {parties : List Nat}
    (ha : p.Attends context mesh count me) (hparties : senders.Names parties)
    (hsome : parties ≠ []) (raw : RawBatch) :
    (TransportCall.receiveAll context senders (some raw)).firstStop? p = none := by
  obtain ⟨id, hsession, -⟩ := ha.session
  obtain ⟨hnegative, hzero, hlist⟩ := hparties.of_ne_nil hsome
  have hindices := hparties.not_negative
  simp only [TransportCall.firstStop?, TransportCall.checks, hsession, hlist, hindices]
  rw [decide_eq_false hnegative, decide_eq_false hzero]
  rfl

/-- What native code gets when it receives from several parties of a mesh. -/
structure InTurn (p : Process) (mesh : MeshId) (count me : Nat) (parties : List Nat)
    (reply : ReceiveAllReply) (q : Process) : Prop where
  /-- If every position has a message, these are taken, and, if native memory can hold them, the
  batch is made of them. -/
  served : (∀ m < parties.length, (p.network.due mesh count me parties m).isSome) →
    ∃ messages : List Bytes, messages.length = parties.length ∧
      (∀ m < parties.length, messages[m]? = p.network.due mesh count me parties m) ∧
      p.network.Consumed mesh count me parties q.network ∧
      (messages.flatten.length ≤ nativeSizeLimit →
        p.heap.grants (OwnedBatch.blockSizes messages) = true →
          reply.code = Code.success ∧
            ∃ raw, reply.messages = some raw ∧ (raw.take q.heap).1 = .ok messages)
  /-- The first position without a message ends the call; what was taken for those before it is
  gone, and the batch is empty. -/
  starved : ∀ m < parties.length, p.network.due mesh count me parties m = none →
    (∀ j < m, (p.network.due mesh count me parties j).isSome) →
      reply.code = Code.transport ∧ reply.messages = some .empty ∧
        p.network.Consumed mesh count me (parties.take m) q.network

/-- The first position without a message is the only one. -/
theorem first_none_unique {due : Nat → Option Bytes} {m n : Nat} (hm : due m = none)
    (hn : due n = none) (hbefore : ∀ j < m, (due j).isSome) (hbefore' : ∀ j < n, (due j).isSome) :
    m = n := by
  rcases Nat.lt_trichotomy m n with hlt | heq | hgt
  · have hsome := hbefore' m hlt
    rw [hm] at hsome
    cases hsome
  · exact heq
  · have hsome := hbefore n hgt
    rw [hn] at hsome
    cases hsome

/-- A batch of messages that come to no more than the limit together fits. -/
theorem fits_of_total {senders : SenderList} {parties : List Nat} {messages : List Bytes}
    (hparties : senders.Names parties) (hlength : messages.length = parties.length)
    (htotal : messages.flatten.length ≤ nativeSizeLimit) : OwnedBatch.Fits messages where
  count := by
    have hcount := hparties.count
    have hlimit := Int32.toInt_lt senders.count
    rw [hlength, nativeSizeLimit]
    omega
  each := fun message hmessage =>
    Nat.le_trans (List.sublist_flatten_of_mem hmessage).length_le htotal
  total := htotal

/-- As many messages as there are senders are a success if native memory can hold them. -/
theorem codeFor_messages {senders : SenderList} {parties : List Nat} {messages : List Bytes}
    {out : Option RawBatch} {h : Heap} (hparties : senders.Names parties)
    (hlength : messages.length = parties.length) (hfits : OwnedBatch.Fits messages)
    (hgrants : h.grants (OwnedBatch.blockSizes messages) = true) :
    (TransportCall.receiveAll context senders out).codeFor h (.value messages) = Code.success := by
  have hnumber : ¬ messages.length ≠ senders.number := by
    rw [hlength, SenderList.number, hparties.count]
    exact not_not_intro rfl
  exact (if_neg hnumber).trans (if_pos ⟨hfits, hgrants⟩)

/-- Receiving from nobody. -/
theorem inTurn_nobody {senders : SenderList} (ha : p.Attends context mesh count me)
    (hparties : senders.Names []) (raw : RawBatch) :
    p.InTurn mesh count me []
      (p.transportReceiveAll context senders.list? senders.count (some raw)).1
      (p.transportReceiveAll context senders.list? senders.count (some raw)).2 := by
  have hstop := firstStop?_nobody ha hparties raw
  have hrun := (TransportCall.lawful_receiveAll p context senders (some raw)).nobody hstop
  have hcode : (p.transportReceiveAll context senders.list? senders.count (some raw)).1.code =
      Code.success := congrArg (·.1.code) hrun
  have hmessages :
      (p.transportReceiveAll context senders.list? senders.count (some raw)).1.messages =
        some .empty := congrArg (·.1.messages) hrun
  have hprocess : (p.transportReceiveAll context senders.list? senders.count (some raw)).2 = p :=
    congrArg (·.2) hrun
  rw [hprocess]
  exact ⟨fun _ => ⟨[], rfl, fun m hm => absurd hm (Nat.not_lt_zero m), .refl _ _ _ _,
    fun _ _ => ⟨hcode, .empty, hmessages, rfl⟩⟩, fun m hm => absurd hm (Nat.not_lt_zero m)⟩

/-- Receiving from somebody. -/
theorem inTurn_somebody {senders : SenderList} {parties : List Nat}
    (ha : p.Attends context mesh count me) (hparties : senders.Names parties)
    (hsome : parties ≠ []) (raw : RawBatch) :
    p.InTurn mesh count me parties
      (p.transportReceiveAll context senders.list? senders.count (some raw)).1
      (p.transportReceiveAll context senders.list? senders.count (some raw)).2 := by
  have hlawful := TransportCall.lawful_receiveAll p context senders (some raw)
  have hstop := firstStop?_somebody ha hparties hsome raw
  obtain ⟨id, hsession, hparty⟩ := ha.session
  obtain ⟨call, reply, network, hasked, -, hnetwork, hcode, hcarries⟩ := hlawful.answered hstop
  have hempty := hlawful.emptied hstop
  rw [TransportCall.asked?, hsession, hparties.decoded] at hasked
  have hreply : (p.network.receiveAll id parties).1 = reply :=
    congrArg (·.2.1) (Option.some.inj hasked)
  have hafter : (p.network.receiveAll id parties).2 = network :=
    congrArg (·.2.2) (Option.some.inj hasked)
  have hturn : p.network.receiveAll id parties = p.network.receiveInTurn id parties := by
    unfold Network.receiveAll
    rw [hparty]
  rw [hturn] at hreply hafter
  rw [← hafter] at hnetwork
  rcases Network.receiveInTurn_cases hparty ha.lt parties with
    ⟨messages, after, hreceive, hlength, hdue, hconsumed⟩ |
      ⟨m, fault, after, hm, hreceive, hnone, hbefore, hconsumed⟩
  · rw [hreceive] at hreply hnetwork
    subst hreply
    constructor
    case served =>
      intro _
      refine ⟨messages, hlength, fun m hm => (hdue m hm).symm, hnetwork ▸ hconsumed, ?_⟩
      intro htotal hgrants
      have hsuccess := hcode.trans
        (codeFor_messages hparties hlength (fits_of_total hparties hlength htotal) hgrants)
      obtain ⟨messages', hsame, batch, hbatch, -, htaken⟩ := hcarries hsuccess
      cases hsame
      exact ⟨hsuccess, batch, hbatch, htaken⟩
    case starved =>
      intro m hm hnone
      rw [hdue m hm, List.getElem?_eq_none_iff, hlength] at hnone
      exact absurd hm (Nat.not_lt.mpr hnone)
  · rw [hreceive] at hreply hnetwork
    subst hreply
    constructor
    case served =>
      intro hall
      have hserved := hall m hm
      rw [hnone] at hserved
      cases hserved
    case starved =>
      intro n _ hnone' hbefore'
      obtain rfl := first_none_unique hnone' hnone hbefore' hbefore
      have hfailed : (p.transportReceiveAll context senders.list? senders.count (some raw)).1.code =
          Code.transport := hcode
      refine ⟨hfailed, ?_, hnetwork ▸ hconsumed⟩
      exact congrArg (·.messages) (hempty (hfailed.trans_ne Code.transport_ne_success))

/-- A session of a party of a mesh receives from several parties in turn: whatever is under way on
the mesh, whoever left it, whoever is named, and however often. -/
theorem receives_in_turn (p : Process) {context : UInt64} {mesh : MeshId} {count me : Nat}
    (ha : p.Attends context mesh count me) (senders : SenderList) {parties : List Nat}
    (hparties : senders.Names parties) (raw : RawBatch) :
    p.InTurn mesh count me parties
      (p.transportReceiveAll context senders.list? senders.count (some raw)).1
      (p.transportReceiveAll context senders.list? senders.count (some raw)).2 := by
  by_cases hsome : parties = []
  · subst hsome
    exact inTurn_nobody ha hparties raw
  · exact inTurn_somebody ha hparties hsome raw

/-- A mesh of two parties with two messages under way from the first to the second, the later one
empty, and the context of a session of the second. -/
def twoWaiting : Process × UInt64 :=
  let network := (Network.addMesh {} 2).2
  let network := (network.send 0 1 [7]).2
  let network := (network.send 0 1 []).2
  let (session, p) := ({ network } : Process).openTransport 1
  (p, session.guard.handle.toPointer)

theorem attends_twoWaiting : twoWaiting.1.Attends twoWaiting.2 0 2 1 :=
  ⟨by decide, 1, by decide, rfl⟩

/-- The first party is named twice, and has a message each time. -/
theorem receives_in_turn_twice :
    (∀ m < 2, (twoWaiting.1.network.due 0 2 1 [0, 0] m).isSome) ∧
      twoWaiting.1.InTurn 0 2 1 [0, 0]
        (twoWaiting.1.transportReceiveAll twoWaiting.2 (some [0, 0]) 2 (some .empty)).1
        (twoWaiting.1.transportReceiveAll twoWaiting.2 (some [0, 0]) 2 (some .empty)).2 :=
  ⟨by decide, twoWaiting.1.receives_in_turn attends_twoWaiting ⟨some [0, 0], 2, by decide⟩
    ⟨by decide, by decide⟩ .empty⟩

/-- Named three times, it has no message for the third, and both are gone. -/
example :
    let (reply, p) := twoWaiting.1.transportReceiveAll twoWaiting.2 (some [0, 0, 0]) 3 (some .empty)
    reply.code = Code.transport ∧ reply.messages = some .empty ∧
      p.network.waiting 0 2 1 0 = [] := by
  decide

end Process

end NativeBoundary

import NativeBoundary.Proofs.Handles.Issued
import NativeBoundary.Proofs.Memory.Attempts
import NativeBoundary.Proofs.Process.Operations

/-!
# When memory runs short

Buffers, batches, pools, bridges, inputs of a call and the answers of entry points all ask the
native allocator for memory, some of them twice.  Any of these requests may be refused.  Whichever
it is, whoever asked is told, nothing of the work is left, and everything that was there before is
as it was: live blocks and what they hold, pools, the scope that the input was for, the registries,
the policy slot.  Only messages that were taken from a transport are gone.

* `Request` — whatever asks for native memory, and what it answers;
* `Process.Supplies` — work that can fail for want of memory only as a bad argument;
* `Request.shortage_undone` — a refused request leaves nothing behind.
-/

namespace NativeBoundary

namespace Process

variable {p q : Process}

/-- Work on the heap that can fail for want of memory, and fails then as `failed` says. -/
def Supplies (p : Process) (failed : Prop) (q : Process) : Prop :=
  ∃ ok, p.heap.Tries ok q.heap ∧ q.memory.pools = p.memory.pools ∧ (ok = false → failed)

theorem Supplies.refl (p : Process) (failed : Prop) : p.Supplies failed p :=
  ⟨true, .refl _ _, rfl, Bool.noConfusion⟩

theorem Supplies.mono {failed told : Prop} (hs : p.Supplies failed q) (hi : failed → told) :
    p.Supplies told q := by
  obtain ⟨ok, htries, hpools, hfailed⟩ := hs
  exact ⟨ok, htries, hpools, fun hok => hi (hfailed hok)⟩

/-- An outcome that says that an argument was bad. -/
def Refuses {α : Type} (reply : Reply Fault α) : Prop := ∃ why, reply = .refusal (.badArgument why)

/-- A copy of host bytes. -/
theorem supplies_copyBuffer (p : Process) (bytes : Bytes) (secrecy : Secrecy) :
    p.Supplies (∃ why, (OwnedBuffer.copyFrom bytes secrecy p.heap).1 = .error (.badArgument why))
      (p.setHeap (OwnedBuffer.copyFrom bytes secrecy p.heap).2) := by
  have htries := OwnedBuffer.tries_copyFrom bytes secrecy p.heap
  rcases hc : OwnedBuffer.copyFrom bytes secrecy p.heap with ⟨fault | b, h⟩ <;> rw [hc] at htries
  · obtain ⟨⟨why, rfl⟩, -⟩ := OwnedBuffer.attempt_copyFrom_error hc
    exact ⟨false, htries, rfl, fun _ => ⟨why, rfl⟩⟩
  · exact ⟨true, htries, rfl, Bool.noConfusion⟩

theorem supplies_copyBatch (p : Process) (items : List Bytes) (secrecy : Secrecy) :
    p.Supplies (∃ why, (OwnedBatch.copyFrom items secrecy p.heap).1 = .error (.badArgument why))
      (p.setHeap (OwnedBatch.copyFrom items secrecy p.heap).2) := by
  have htries := OwnedBatch.tries_copyFrom items secrecy p.heap
  rcases hc : OwnedBatch.copyFrom items secrecy p.heap with ⟨fault | b, h⟩ <;> rw [hc] at htries
  · obtain ⟨⟨why, rfl⟩, -⟩ := OwnedBatch.attempt_copyFrom_error hc
    exact ⟨false, htries, rfl, fun _ => ⟨why, rfl⟩⟩
  · exact ⟨true, htries, rfl, Bool.noConfusion⟩

theorem supplies_handOver (p : Process) (bytes : Bytes) (secrecy : Secrecy) :
    p.Supplies (∃ why, (p.handOver bytes secrecy).1 = .error (.badArgument why))
      (p.handOver bytes secrecy).2 := by
  have hcopy := p.supplies_copyBuffer bytes secrecy
  unfold handOver
  split <;> rename_i hc <;> rw [hc] at hcopy
  · exact hcopy.mono fun ⟨why, hwhy⟩ => by cases hwhy
  · refine hcopy.mono fun ⟨why, hwhy⟩ => ⟨why, ?_⟩
    cases hwhy
    rfl

/-- Both results are made, or none: when there is no memory for the second, the first is given
back. -/
theorem supplies_handOverPair (p : Process) (ciphertext secret : Bytes) :
    p.Supplies (∃ why, (p.handOverPair ciphertext secret).1 = .error (.badArgument why))
      (p.handOverPair ciphertext secret).2 := by
  unfold handOverPair
  split <;> rename_i hfirst
  · obtain ⟨⟨why, rfl⟩, hrefused⟩ := OwnedBuffer.attempt_copyFrom_error hfirst
    exact ⟨false, ⟨[], hrefused, fun _ => rfl⟩, rfl, fun _ => ⟨why, rfl⟩⟩
  · have hmade := OwnedBuffer.attempt_copyFrom hfirst
    split <;> rename_i hsecond
    · obtain ⟨⟨why, rfl⟩, hrefused⟩ := OwnedBuffer.attempt_copyFrom_error hsecond
      have hboth := hmade.trans hrefused
      rw [List.append_nil] at hboth
      have hdropped := OwnedBuffer.attempt_drop hboth
      exact ⟨false, ⟨[], hdropped, fun _ => rfl⟩, rfl, fun _ => ⟨why, rfl⟩⟩
    · have hboth := hmade.trans (OwnedBuffer.attempt_copyFrom hsecond)
      exact ⟨true, ⟨_, hboth, Bool.noConfusion⟩, rfl, Bool.noConfusion⟩

/-- What follows the answer of a policy fails as its last step does. -/
theorem supplies_settle {α β : Type} {give : Process → α → Except Fault β × Process}
    (reply : Reply KemError α)
    (hgive : ∀ a, p.Supplies (∃ why, (give p a).1 = .error (.badArgument why)) (give p a).2) :
    p.Supplies (Refuses (p.settle reply give).1) (p.settle reply give).2 := by
  unfold settle
  split
  · rename_i a _
    have hgiven := hgive a
    split <;> rename_i hresult <;> rw [hresult] at hgiven
    · exact hgiven.mono fun ⟨why, hwhy⟩ => by cases hwhy
    · refine hgiven.mono fun ⟨why, hwhy⟩ => ⟨why, ?_⟩
      cases hwhy
      rfl
  · exact .refl _ _
  · exact .refl _ _

theorem supplies_runEncapsulate (p : Process) (encapsulationKey seed : RawBuffer)
    (ciphertext secret : Option RawBuffer) :
    p.Supplies (Refuses (p.runEncapsulate encapsulationKey seed ciphertext secret).1)
      (p.runEncapsulate encapsulationKey seed ciphertext secret).2 := by
  unfold runEncapsulate
  split
  · exact .refl _ _
  · exact supplies_settle (p := p.record _) _ fun pair => supplies_handOverPair _ pair.1 pair.2

theorem supplies_runDecapsulate (p : Process) (key : UInt64) (ciphertext : RawBuffer)
    (out : Option RawBuffer) :
    p.Supplies (Refuses (p.runDecapsulate key ciphertext out).1)
      (p.runDecapsulate key ciphertext out).2 := by
  unfold runDecapsulate
  split
  · exact .refl _ _
  · exact supplies_settle (p := p.record _) _ fun secret => supplies_handOver _ secret .secret

theorem supplies_runDerivePublic (p : Process) (key : UInt64) (out : Option RawBuffer) :
    p.Supplies (Refuses (p.runDerivePublic key out).1) (p.runDerivePublic key out).2 := by
  unfold runDerivePublic
  split
  · exact .refl _ _
  · exact supplies_settle (p := p.record _) _ fun key => supplies_handOver _ key .exposed

/-- A message that is received has to be copied. -/
theorem supplies_receiveBuffer (p : Process) (id : TransportId) (sender : Nat) :
    p.Supplies (Refuses (p.receiveBuffer id sender).1) (p.receiveBuffer id sender).2 := by
  unfold receiveBuffer
  simp only
  split
  · exact .refl p _
  · exact .refl p _
  · rename_i bytes _
    have hcopy := p.supplies_copyBuffer bytes .secret
    split <;> rename_i hc <;> (change OwnedBuffer.copyFrom bytes .secret p.heap = _ at hc) <;>
      rw [hc] at hcopy
    · exact hcopy.mono fun ⟨why, hwhy⟩ => by cases hwhy
    · refine hcopy.mono fun ⟨why, hwhy⟩ => ⟨why, ?_⟩
      cases hwhy
      rfl

theorem supplies_receiveBatch (p : Process) (id : TransportId) (senders : List Nat) :
    p.Supplies (Refuses (p.receiveBatch id senders).1) (p.receiveBatch id senders).2 := by
  unfold receiveBatch
  simp only
  split
  · exact .refl p _
  · exact .refl p _
  · rename_i messages _
    split
    · exact .refl p _
    · have hcopy := p.supplies_copyBatch messages .secret
      split <;> rename_i hc <;>
        (change OwnedBatch.copyFrom messages .secret p.heap = _ at hc) <;> rw [hc] at hcopy
      · exact hcopy.mono fun ⟨why, hwhy⟩ => by cases hwhy
      · refine hcopy.mono fun ⟨why, hwhy⟩ => ⟨why, ?_⟩
        cases hwhy
        rfl

/-- A receive that fails for want of memory has a transport, and empties the out-parameter. -/
theorem supplies_runReceive (p : Process) (context : UInt64) (sender : Int32)
    (out : Option RawBuffer) :
    p.Supplies (Refuses (p.runReceive context sender out).1 ∧
        (p.runReceive context sender out).2.1 = out.map fun _ => .empty)
      (p.runReceive context sender out).2.2 := by
  unfold runReceive
  split
  · exact .refl p _
  · exact .refl p _
  · split
    · exact .refl p _
    · rename_i id _ _ _ party _
      have hreceive := p.supplies_receiveBuffer id party
      split <;> rename_i hresult <;> rw [hresult] at hreceive
      · exact hreceive.mono fun ⟨why, hwhy⟩ => by cases hwhy
      · refine hreceive.mono fun ⟨why, hwhy⟩ => ⟨⟨why, ?_⟩, rfl⟩
        cases hwhy
        rfl
      · exact hreceive.mono fun ⟨why, hwhy⟩ => by cases hwhy

theorem supplies_runReceiveAll (p : Process) (context : UInt64) (senders : Option (List Int32))
    (count : Int32) (out : Option RawBatch) :
    p.Supplies (Refuses (p.runReceiveAll context senders count out).1 ∧
        (p.runReceiveAll context senders count out).2.1 = out.map fun _ => .empty)
      (p.runReceiveAll context senders count out).2.2 := by
  unfold runReceiveAll
  split
  · exact .refl p _
  · exact .refl p _
  · split
    · exact .refl p _
    · exact .refl p _
    · rename_i id _ _ _ parties _ _
      have hreceive := p.supplies_receiveBatch id parties
      split <;> rename_i hresult <;> rw [hresult] at hreceive
      · exact hreceive.mono fun ⟨why, hwhy⟩ => by cases hwhy
      · refine hreceive.mono fun ⟨why, hwhy⟩ => ⟨⟨why, ?_⟩, rfl⟩
        cases hwhy
        rfl
      · exact hreceive.mono fun ⟨why, hwhy⟩ => by cases hwhy

/-- A failed entry point that says that an argument was bad. -/
theorem code_closeKem {α : Type} (p : Process) (op : String) {reply : Reply Fault α}
    (hr : Refuses reply) : (p.closeKem op reply).1 = Code.badArgument := by
  obtain ⟨why, rfl⟩ := hr
  rfl

theorem code_closeTransportCall {α : Type} (p : Process) (op : String) {reply : Reply Fault α}
    (hr : Refuses reply) : (p.closeTransportCall op reply).1 = Code.badArgument := by
  obtain ⟨why, rfl⟩ := hr
  rfl

theorem filled_refused (out : Option RawBuffer) {reply : Reply Fault RawBuffer}
    (hr : Refuses reply) : filled out reply = out.map fun _ => .empty := by
  obtain ⟨why, rfl⟩ := hr
  rfl

/-- Work beside native memory supplies what it did before. -/
theorem Supplies.then {failed : Prop} {r : Process} (hs : p.Supplies failed q)
    (hmemory : r.memory = q.memory) : p.Supplies failed r := by
  obtain ⟨ok, htries, hpools, hfailed⟩ := hs
  refine ⟨ok, ?_, hmemory ▸ hpools, hfailed⟩
  unfold heap at htries ⊢
  rw [hmemory]
  exact htries

end Process

namespace Process.Callback

/-- An entry point says that an argument was bad, and every out-parameter that is there is
empty. -/
def Failed : (c : Callback) → c.Answer → Prop
  | encapsulate _ _ ciphertext secret, reply =>
      reply.code = Code.badArgument ∧ (reply.ciphertext = ciphertext.map fun _ => .empty) ∧
        reply.secret = secret.map fun _ => .empty
  | decapsulate _ _ out, reply | derivePublic _ out, reply =>
      reply.code = Code.badArgument ∧ reply.out = out.map fun _ => .empty
  | send _ _ _, code => code = Code.badArgument
  | receive _ _ out, reply =>
      reply.code = Code.badArgument ∧ reply.message = out.map fun _ => .empty
  | receiveAll _ _ _ out, reply =>
      reply.code = Code.badArgument ∧ reply.messages = out.map fun _ => .empty

/-- An entry point that lacks memory says so and empties its out-parameters. -/
theorem supplies (p : Process) (c : Callback) :
    p.Supplies (c.Failed (c.run p).1) (c.run p).2 := by
  cases c with
  | encapsulate encapsulationKey seed ciphertext secret =>
      have hrun := p.supplies_runEncapsulate encapsulationKey seed ciphertext secret
      refine (hrun.mono fun hrefuses => ⟨code_closeKem _ _ hrefuses, ?_, ?_⟩).then
        (memory_closeKem _ _ _) <;> obtain ⟨why, hwhy⟩ := hrefuses
      · exact congrArg (fun reply => filled ciphertext (Reply.map Prod.fst reply)) hwhy
      · exact congrArg (fun reply => filled secret (Reply.map Prod.snd reply)) hwhy
  | decapsulate key ciphertext out =>
      have hrun := p.supplies_runDecapsulate key ciphertext out
      exact (hrun.mono fun hrefuses => ⟨code_closeKem _ _ hrefuses, filled_refused out hrefuses⟩).then
        (memory_closeKem _ _ _)
  | derivePublic key out =>
      have hrun := p.supplies_runDerivePublic key out
      exact (hrun.mono fun hrefuses => ⟨code_closeKem _ _ hrefuses, filled_refused out hrefuses⟩).then
        (memory_closeKem _ _ _)
  | send context receiver message =>
      exact (Supplies.refl p _).then (p.memory_transportSend context receiver message)
  | receive context sender out =>
      have hrun := p.supplies_runReceive context sender out
      exact (hrun.mono fun ⟨hrefuses, hout⟩ => ⟨code_closeTransportCall _ _ hrefuses, hout⟩).then
        (memory_closeTransportCall _ _ _)
  | receiveAll context senders count out =>
      have hrun := p.supplies_runReceiveAll context senders count out
      exact (hrun.mono fun ⟨hrefuses, hout⟩ => ⟨code_closeTransportCall _ _ hrefuses, hout⟩).then
        (memory_closeTransportCall _ _ _)

end Process.Callback

/-- Whatever asks for native memory. -/
inductive Request
  | copyBuffer (bytes : Bytes) (secrecy : Secrecy)
  | copyBatch (items : List Bytes) (secrecy : Secrecy)
  /-- A copy that is made for native code. -/
  | allocate (bytes : Bytes)
  | input (s : Scope) (bytes : Bytes) (secrecy : Secrecy)
  | inputBatch (s : Scope) (items : List Bytes)
  | createPool (count blockSize : Nat)
  | createBridge (c : Config)
  /-- Native code calls an entry point. -/
  | call (c : Process.Callback)

namespace Request

/-- What a request answers; an input leaves its scope behind as well. -/
abbrev Answer : Request → Type
  | copyBuffer _ _ => Except Fault OwnedBuffer
  | copyBatch _ _ => Except Fault OwnedBatch
  | allocate _ => RawBuffer
  | input _ _ _ => Except Fault RawBuffer × Scope
  | inputBatch _ _ => Except Fault RawBatch × Scope
  | createPool _ _ => Option PoolId
  | createBridge _ => Except Fault Bridge
  | call c => c.Answer

/-- Runs a request. -/
def run (p : Process) : (r : Request) → r.Answer × Process
  | copyBuffer bytes secrecy =>
      let (result, h) := OwnedBuffer.copyFrom bytes secrecy p.heap
      (result, p.setHeap h)
  | copyBatch items secrecy =>
      let (result, h) := OwnedBatch.copyFrom items secrecy p.heap
      (result, p.setHeap h)
  | allocate bytes =>
      let (raw, h) := RawBuffer.allocate bytes p.heap
      (raw, p.setHeap h)
  | input s bytes secrecy =>
      let (result, s, m) := p.memory.input s bytes secrecy
      ((result, s), p.setMemory m)
  | inputBatch s items =>
      let (result, s, m) := p.memory.inputBatch s items
      ((result, s), p.setMemory m)
  | createPool count blockSize =>
      let (pool?, m) := p.memory.createPool count blockSize
      (pool?, p.setMemory m)
  | createBridge c => p.bridgeOf c
  | call c => c.run p

/-- How a request says that it failed.  The scope of an input is as it was. -/
def Failed : (r : Request) → r.Answer → Prop
  | copyBuffer _ _, result => ∃ why, result = .error (.badArgument why)
  | copyBatch _ _, result => ∃ why, result = .error (.badArgument why)
  | allocate _, raw => raw = .empty
  | input s _ _, (result, s') => (∃ why, result = .error (.badArgument why)) ∧ s' = s
  | inputBatch s _, (result, s') => (∃ why, result = .error (.badArgument why)) ∧ s' = s
  | createPool _ _, pool? => pool? = none
  | createBridge _, result => ∃ why, result = .error (.badArgument why)
  | call c, answer => c.Failed answer

/-- Nothing is left of some work, and whatever was there before is as it was. -/
structure Undone (p q : Process) : Prop where
  /-- Every block that was made has been freed again. -/
  freed : ∀ id size, .allocated id size ∈ q.heap.since p.heap →
    id ∈ (q.heap.since p.heap).filterMap HeapEvent.freed?
  live : q.heap.live = p.heap.live
  contents : ∀ id ∈ p.heap.live, q.heap.block? id = p.heap.block? id
  /-- Every pool has its queue, its counter and its users. -/
  pools : q.memory.pools = p.memory.pools
  registries : q.registries = p.registries
  slot : q.slot = p.slot

variable {p q : Process} {failed : Prop} {size : Nat}

/-- Where a request was refused, the work has failed and is undone. -/
theorem undone_of_tries {ok : Bool} (htries : p.heap.Tries ok q.heap)
    (hfailed : ok = false → failed ∧ q.memory.pools = p.memory.pools) (hbeside : p.Beside q)
    (hrefused : .refused size ∈ q.heap.since p.heap) : failed ∧ Undone p q := by
  obtain ⟨left, hattempt, hleft⟩ := htries
  cases ok with
  | true => exact absurd hrefused (hattempt.granted rfl size)
  | false =>
      rw [hleft rfl] at hattempt
      obtain ⟨htold, hpools⟩ := hfailed rfl
      refine ⟨htold, fun id size hm => ?_, ?_, fun id hid => ?_, hpools, hbeside.registries,
        hbeside.slot⟩
      · exact (hattempt.spent id size hm).resolve_left List.not_mem_nil
      · exact hattempt.live.trans (List.append_nil _)
      · exact hattempt.confined.kept id (Heap.mem_live_iff.mp hid).1 List.not_mem_nil

theorem undone_of_supplies (hs : p.Supplies failed q) (hbeside : p.Beside q)
    (hrefused : .refused size ∈ q.heap.since p.heap) : failed ∧ Undone p q := by
  obtain ⟨ok, htries, hpools, hfailed⟩ := hs
  exact undone_of_tries htries (fun hok => ⟨hfailed hok, hpools⟩) hbeside hrefused

/-- Nothing was refused to work that is not in the trace. -/
theorem not_refused_of_trace {h h' : Heap} (htrace : h'.trace = h.trace) :
    .refused size ∉ h'.since h := by
  rw [Heap.since_of_trace htrace]
  exact List.not_mem_nil

/-- A block of a pool is taken without asking the allocator. -/
theorem trace_inputBlock {m m' : Memory} {s : Scope} {bytes : Bytes} {b : PoolBlock}
    (hc : m.inputBlock s bytes = (some b, m')) : m'.heap.trace = m.heap.trace := by
  unfold Memory.inputBlock at hc
  split at hc
  · cases hc
  · rename_i id _
    unfold Memory.acquireWith at hc
    split at hc
    · cases hc
    · split at hc
      · cases hc
      · split at hc
        · cases hc
        · rename_i fresh middle hacquire
          have hheap := Memory.heap_acquire m id
          rw [hacquire] at hheap
          have htrace : middle.heap.trace = m.heap.trace := congrArg Heap.trace hheap
          unfold Memory.writeBlock at hc
          split at hc
          · cases hc
          · split at hc <;> cases hc
            exact htrace

/-- An input that was refused a request is one whose copy on the heap was refused. -/
theorem input_of_refused {m m' : Memory} {s s' : Scope} {bytes : Bytes} {secrecy : Secrecy}
    {result : Except Fault RawBuffer} (hc : m.input s bytes secrecy = (result, s', m'))
    (hrefused : .refused size ∈ m'.heap.since m.heap) :
    ∃ fault h', OwnedBuffer.copyFrom bytes secrecy m.heap = (.error fault, h') ∧
      result = .error fault ∧ s' = s ∧ m' = { m with heap := h' } := by
  unfold Memory.input at hc
  split at hc
  · cases hc
    exact absurd hrefused (not_refused_of_trace rfl)
  · split at hc
    · cases hc
      exact absurd hrefused (not_refused_of_trace rfl)
    · split at hc
      · rename_i block middle hblock
        cases hc
        exact absurd hrefused (not_refused_of_trace (trace_inputBlock hblock))
      · rename_i middle hblock
        cases Memory.inputBlock_none hblock
        split at hc <;> rename_i final hheap <;>
          obtain ⟨h', hcopy, rfl⟩ := Memory.onHeap_eq hheap <;> cases hc
        · exact ⟨_, h', hcopy, rfl, rfl, rfl⟩
        · have hmade := OwnedBuffer.attempt_copyFrom hcopy
          exact absurd hrefused (hmade.granted rfl size)

theorem inputBatch_of_refused {m m' : Memory} {s s' : Scope} {items : List Bytes}
    {result : Except Fault RawBatch} (hc : m.inputBatch s items = (result, s', m'))
    (hrefused : .refused size ∈ m'.heap.since m.heap) :
    ∃ fault h', OwnedBatch.copyFrom items .secret m.heap = (.error fault, h') ∧
      result = .error fault ∧ s' = s ∧ m' = { m with heap := h' } := by
  unfold Memory.inputBatch at hc
  split at hc <;> rename_i final hheap <;>
    obtain ⟨h', hcopy, rfl⟩ := Memory.onHeap_eq hheap <;> cases hc
  · exact ⟨_, h', hcopy, rfl, rfl, rfl⟩
  · have hmade := OwnedBatch.attempt_copyFrom hcopy
    exact absurd hrefused (hmade.granted rfl size)

/-- A bridge asks for the region of its pool. -/
theorem tries_bridgeOf (p : Process) (c : Config) :
    ∃ ok, p.heap.Tries ok (p.bridgeOf c).2.heap ∧ (ok = false →
      (∃ why, (p.bridgeOf c).1 = .error (.badArgument why)) ∧
        (p.bridgeOf c).2.memory.pools = p.memory.pools) := by
  unfold Process.bridgeOf
  split
  · exact ⟨true, .refl _ _, Bool.noConfusion⟩
  · split
    · obtain ⟨htries, hpools⟩ := p.memory.tries_createPool c.pool.blocks c.pool.blockSize
      split <;> rename_i hcreate <;> rw [hcreate] at htries hpools
      · exact ⟨true, htries, Bool.noConfusion⟩
      · exact ⟨false, htries, fun _ => ⟨⟨_, rfl⟩, hpools rfl⟩⟩
    · exact ⟨true, .refl _ _, Bool.noConfusion⟩

/-- **A refused request leaves nothing behind.**  Whichever request the allocator refused during
the work, whoever asked is told, and everything is as it was. -/
theorem shortage_undone (p : Process) (r : Request) (size : Nat)
    (hrefused : .refused size ∈ (r.run p).2.heap.since p.heap) :
    r.Failed (r.run p).1 ∧ Undone p (r.run p).2 := by
  cases r with
  | copyBuffer bytes secrecy =>
      exact undone_of_supplies (p.supplies_copyBuffer bytes secrecy) ⟨rfl, rfl⟩ hrefused
  | copyBatch items secrecy =>
      exact undone_of_supplies (p.supplies_copyBatch items secrecy) ⟨rfl, rfl⟩ hrefused
  | allocate bytes =>
      obtain ⟨ok, htries, hempty⟩ := RawBuffer.tries_allocate bytes p.heap
      exact undone_of_supplies ⟨ok, htries, rfl, hempty⟩ ⟨rfl, rfl⟩ hrefused
  | input s bytes secrecy =>
      simp only [run] at hrefused ⊢
      rcases hc : p.memory.input s bytes secrecy with ⟨result, s', m'⟩
      rw [hc] at hrefused
      obtain ⟨fault, h', hcopy, rfl, rfl, rfl⟩ := input_of_refused hc hrefused
      have hcopied := p.supplies_copyBuffer bytes secrecy
      rw [show OwnedBuffer.copyFrom bytes secrecy p.heap = _ from hcopy] at hcopied
      refine undone_of_supplies (hcopied.mono fun ⟨why, hwhy⟩ => ?_) ⟨rfl, rfl⟩ hrefused
      cases hwhy
      exact ⟨⟨why, rfl⟩, rfl⟩
  | inputBatch s items =>
      simp only [run] at hrefused ⊢
      rcases hc : p.memory.inputBatch s items with ⟨result, s', m'⟩
      rw [hc] at hrefused
      obtain ⟨fault, h', hcopy, rfl, rfl, rfl⟩ := inputBatch_of_refused hc hrefused
      have hcopied := p.supplies_copyBatch items .secret
      rw [show OwnedBatch.copyFrom items .secret p.heap = _ from hcopy] at hcopied
      refine undone_of_supplies (hcopied.mono fun ⟨why, hwhy⟩ => ?_) ⟨rfl, rfl⟩ hrefused
      cases hwhy
      exact ⟨⟨why, rfl⟩, rfl⟩
  | createPool count blockSize =>
      obtain ⟨htries, hpools⟩ := p.memory.tries_createPool count blockSize
      refine undone_of_tries htries (fun hok => ?_) ⟨rfl, rfl⟩ hrefused
      have hnone := Option.isSome_eq_false_iff.mp hok
      exact ⟨Option.isNone_iff_eq_none.mp hnone, hpools (Option.isNone_iff_eq_none.mp hnone)⟩
  | createBridge c =>
      obtain ⟨ok, htries, hfailed⟩ := tries_bridgeOf p c
      exact undone_of_tries htries hfailed (p.beside_bridgeOf c) hrefused
  | call c => exact undone_of_supplies (c.supplies p) (c.beside p) hrefused

/-- A process whose allocator grants one request more. -/
def scarce : Process := { memory := { heap := { granted := some 1 } } }

/-- The size table of a batch was made when its data were refused. -/
theorem shortage_undone_data :
    .refused 3 ∈ ((copyBatch [[1, 2, 3]] .secret).run scarce).2.heap.since scarce.heap ∧
      (copyBatch [[1, 2, 3]] .secret).Failed ((copyBatch [[1, 2, 3]] .secret).run scarce).1 ∧
      Undone scarce ((copyBatch [[1, 2, 3]] .secret).run scarce).2 :=
  have hrefused : .refused 3 ∈
      ((copyBatch [[1, 2, 3]] .secret).run scarce).2.heap.since scarce.heap := by decide
  ⟨hrefused, shortage_undone scarce _ 3 hrefused⟩

end Request

end NativeBoundary

import NativeBoundary.Proofs.Memory.Consumed
import NativeBoundary.Proofs.Memory.Holders

/-!
# Attempts to get native memory

Work that asks for native blocks may be refused one of them, at any point of the work.  What is
made before that has to be given back, so that a failure leaves nothing behind.

`Heap.Attempt h ok left h'` describes such work while it goes on: the blocks `left` are what it has
made and not given back, everything else that it made was freed again, and while `ok` stands no
request was refused.  `Heap.Tries h ok h'` is work that has ended: `ok` says whether it succeeded,
and if it failed nothing is left.

* `Heap.Confined` — work that changes no block from before but the named ones;
* `OwnedBuffer.tries_copyFrom`, `OwnedBatch.tries_copyFrom` — copies of host bytes;
* `Memory.tries_createPool` — the region of a pool.
-/

namespace NativeBoundary

namespace Heap

variable {h h' h'' : Heap} {ids more left later : List BlockId} {ok again : Bool} {id : BlockId}

/-- Work that changes no block from before but the named ones. -/
structure Confined (h : Heap) (ids : List BlockId) (h' : Heap) : Prop where
  next : h.next ≤ h'.next
  trace : h.trace <:+ h'.trace
  kept : ∀ id < h.next, id ∉ ids → h'.block? id = h.block? id

theorem Confined.refl (h : Heap) (ids : List BlockId) : h.Confined ids h :=
  ⟨Nat.le_refl _, List.suffix_refl _, fun _ _ _ => rfl⟩

/-- Two stretches of work.  Of the blocks that the second one names, those that the first one made
need not be named. -/
theorem Confined.append (first : h.Confined ids h') (second : h'.Confined more h'')
    (hsub : ∀ id ∈ more, id < h.next → id ∈ ids) : h.Confined ids h'' where
  next := Nat.le_trans first.next second.next
  trace := first.trace.trans second.trace
  kept := fun id hid hnot =>
    (second.kept id (Nat.lt_of_lt_of_le hid first.next) fun hm => hnot (hsub id hm hid)).trans
      (first.kept id hid hnot)

theorem Confined.trans (first : h.Confined ids h') (second : h'.Confined ids h'') :
    h.Confined ids h'' :=
  first.append second fun _ hm _ => hm

theorem Confined.mono (hc : h.Confined ids h') (hsub : ∀ id ∈ ids, id ∈ more) :
    h.Confined more h' :=
  (refl h more).append hc fun id hm _ => hsub id hm

theorem confined_request {content : Block} {answer : Option BlockId}
    (hr : h.request content = (answer, h')) : h.Confined [] h' := by
  cases answer with
  | none =>
      obtain ⟨hnext, htrace⟩ := request_refused hr
      exact ⟨Nat.le_of_eq hnext.symm, ⟨[_], htrace.symm⟩, fun id _ _ => block?_request_none hr id⟩
  | some new =>
      obtain ⟨hnew, hnext, htrace⟩ := request_granted hr
      refine ⟨hnext ▸ Nat.le_succ _, ⟨[_], htrace.symm⟩, fun id hid _ => ?_⟩
      rw [block?_request hr, if_neg (hnew ▸ Nat.ne_of_lt hid)]

theorem confined_update (h : Heap) (id : BlockId) (f : Block → Block) :
    h.Confined [id] (h.update id f) where
  next := Nat.le_refl _
  trace := List.suffix_refl _
  kept := fun j _ hj => by rw [block?_update, if_neg (by simpa using hj)]

theorem confined_free (h : Heap) (id : BlockId) (holding : Holding) :
    h.Confined [id] (h.free id holding) where
  next := Nat.le_of_eq (next_free h id holding).symm
  trace := by
    obtain ⟨event, htrace, -⟩ := h.trace_free id holding
    exact ⟨[event], htrace.symm⟩
  kept := fun j _ hj => by rw [block?_free, if_neg (by simpa using hj)]

theorem confined_release (h : Heap) (id : BlockId) (length : Nat) (wiped : Bool) :
    h.Confined [id] (h.release id length wiped) := by
  cases wiped with
  | false => exact h.confined_free id _
  | true => exact (h.confined_update id _).trans (confined_free _ id _)

theorem since_trans (first : h.trace <:+ h'.trace) (second : h'.trace <:+ h''.trace) :
    h''.since h = h''.since h' ++ h'.since h := by
  obtain ⟨events, hfirst⟩ := first
  obtain ⟨more, hsecond⟩ := second
  rw [since_eq hfirst.symm, since_eq hsecond.symm]
  refine since_eq ?_
  rw [← hsecond, ← hfirst, List.append_assoc]

theorem since_of_trace (ht : h'.trace = h.trace) : h'.since h = [] := since_eq ht

/-- Work under way: the blocks `left` were made and not given back, whatever else was made has been
freed again, and while `ok` stands no request was refused. -/
structure Attempt (h : Heap) (ok : Bool) (left : List BlockId) (h' : Heap) : Prop where
  confined : h.Confined [] h'
  live : h'.live = h.live ++ left
  spent : ∀ id size, .allocated id size ∈ h'.since h →
    id ∈ left ∨ id ∈ (h'.since h).filterMap HeapEvent.freed?
  granted : ok = true → ∀ size, .refused size ∉ h'.since h

theorem Attempt.refl (h : Heap) (ok : Bool) : h.Attempt ok [] h where
  confined := .refl h []
  live := (List.append_nil _).symm
  spent := by simp
  granted := by simp

theorem Attempt.trans (first : h.Attempt ok left h') (second : h'.Attempt again later h'') :
    h.Attempt (ok && again) (left ++ later) h'' := by
  have hsince := since_trans first.confined.trace second.confined.trace
  refine ⟨first.confined.trans second.confined, ?_, fun id size hm => ?_, fun hok size => ?_⟩
  · rw [second.live, first.live, List.append_assoc]
  · rw [hsince, List.filterMap_append, List.mem_append, List.mem_append]
    rw [hsince, List.mem_append] at hm
    rcases hm with hm | hm
    · exact (second.spent id size hm).imp .inr .inl
    · exact (first.spent id size hm).imp .inl .inr
  · obtain ⟨hfirst, hsecond⟩ := Bool.and_eq_true_iff.mp hok
    rw [hsince, List.mem_append, not_or]
    exact ⟨second.granted hsecond size, first.granted hfirst size⟩

/-- What is left is new. -/
theorem Attempt.fresh (ha : h.Attempt ok left h') (hid : id ∈ left) :
    h.next ≤ id ∧ id ∉ h.live ∧ (h'.block? id).isSome := by
  have hlive : id ∈ h'.live := by
    rw [ha.live]
    exact List.mem_append_right _ hid
  have hnodup := h'.live_nodup
  rw [ha.live] at hnodup
  have hnot : id ∉ h.live := fun hold => (List.nodup_append.mp hnodup).2.2 id hold id hid rfl
  obtain ⟨-, hsome⟩ := mem_live_iff.mp hlive
  refine ⟨Nat.le_of_not_lt fun hold => hnot ?_, hnot, hsome⟩
  rw [ha.confined.kept id hold List.not_mem_nil] at hsome
  exact mem_live_iff.mpr ⟨hold, hsome⟩

/-- A granted request leaves its block. -/
theorem attempt_request {content : Block} (hr : h.request content = (some id, h')) :
    h.Attempt true [id] h' := by
  have hsince : h'.since h = [.allocated id content.size] := since_eq (request_granted hr).2.2
  refine ⟨confined_request hr, live_request hr, fun j size hm => ?_, fun _ size => ?_⟩
  · rw [hsince, List.mem_singleton] at hm
    cases hm
    exact .inl (List.mem_singleton.mpr rfl)
  · simp [hsince]

/-- A refused request leaves nothing. -/
theorem attempt_refused {content : Block} (hr : h.request content = (none, h')) :
    h.Attempt false [] h' := by
  have hsince : h'.since h = [.refused content.size] := since_eq (request_refused hr).2
  refine ⟨confined_request hr, ?_, fun j size hm => ?_, Bool.noConfusion⟩
  · rw [live_refused hr, List.append_nil]
  · simp [hsince] at hm

/-- What is left may be changed. -/
theorem Attempt.update (ha : h.Attempt ok left h') (hid : id ∈ left) (f : Block → Block) :
    h.Attempt ok left (h'.update id f) where
  confined := by
    refine ha.confined.append (h'.confined_update id f) fun j hj hlt => ?_
    rw [List.mem_singleton.mp hj] at hlt
    exact absurd hlt (Nat.not_lt.mpr (ha.fresh hid).1)
  live := (live_update h' id f).trans ha.live
  spent := ha.spent
  granted := ha.granted

/-- What is left may be given back. -/
theorem Attempt.free (ha : h.Attempt ok left h') (hid : id ∈ left) (holding : Holding) :
    h.Attempt ok (left.filter (· ≠ id)) (h'.free id holding) := by
  obtain ⟨hnew, hnot, hlive⟩ := ha.fresh hid
  obtain ⟨last, hlast⟩ := Option.isSome_iff_exists.mp hlive
  have hone : (h'.free id holding).since h' = [.freed id last holding] :=
    since_eq (trace_free_of_live holding hlast)
  have hsince := since_trans ha.confined.trace (h'.confined_free id holding).trace
  rw [hone] at hsince
  refine ⟨?_, ?_, fun j size hm => ?_, fun hok size => ?_⟩
  · refine ha.confined.append (h'.confined_free id holding) fun j hj hlt => ?_
    rw [List.mem_singleton.mp hj] at hlt
    exact absurd hlt (Nat.not_lt.mpr hnew)
  · have hothers : h.live.filter (· ≠ id) = h.live :=
      List.filter_eq_self.mpr fun j hj => decide_eq_true fun heq => hnot (heq ▸ hj)
    rw [live_free, ha.live, List.filter_append, hothers]
  · rw [hsince] at hm ⊢
    have hbefore : .allocated j size ∈ h'.since h := by simpa using hm
    by_cases hj : j = id
    · exact .inr (by simp [hj, HeapEvent.freed?])
    · refine (ha.spent j size hbefore).imp (fun hleft => ?_) fun hfreed => ?_
      · exact List.mem_filter.mpr ⟨hleft, decide_eq_true hj⟩
      · rw [List.filterMap_append]
        exact List.mem_append_right _ hfreed
  · rw [hsince]
    simpa using ha.granted hok size

/-- It may be wiped first. -/
theorem Attempt.release (ha : h.Attempt ok left h') (hid : id ∈ left) (length : Nat)
    (wiped : Bool) : h.Attempt ok (left.filter (· ≠ id)) (h'.release id length wiped) := by
  cases wiped with
  | false => exact ha.free hid _
  | true => exact (ha.update hid _).free hid _

/-- Work that has ended, with success or without: then nothing is left of it. -/
def Tries (h : Heap) (ok : Bool) (h' : Heap) : Prop :=
  ∃ left, h.Attempt ok left h' ∧ (ok = false → left = [])

theorem Tries.refl (h : Heap) (ok : Bool) : h.Tries ok h := ⟨[], .refl h ok, fun _ => rfl⟩

theorem Tries.confined (ht : h.Tries ok h') : h.Confined [] h' := by
  obtain ⟨left, ha, -⟩ := ht
  exact ha.confined

end Heap

open Heap (Attempt Tries)

variable {h h' : Heap}

namespace OwnedBuffer

variable {bytes : Bytes} {secrecy : Secrecy} {b : OwnedBuffer} {fault : Fault}

/-- A copy leaves its block. -/
theorem attempt_copyFrom (hc : copyFrom bytes secrecy h = (.ok b, h')) :
    h.Attempt true b.blocks h' := by
  cases copying_of_copyFrom hc with
  | empty hnone => exact .refl h true
  | block hsome hfits hblock =>
      exact (Heap.attempt_request hblock).update (List.mem_singleton.mpr rfl) _

/-- A copy that is refused is a bad argument and leaves nothing. -/
theorem attempt_copyFrom_error (hc : copyFrom bytes secrecy h = (.error fault, h')) :
    (∃ why, fault = .badArgument why) ∧ h.Attempt false [] h' := by
  cases refusal_of_copyFrom hc with
  | oversized hlong => exact ⟨⟨_, rfl⟩, .refl h false⟩
  | noMemory hsome hfits hblock => exact ⟨⟨_, rfl⟩, Heap.attempt_refused hblock⟩

/-- A copy that was made may be given back. -/
theorem attempt_drop {ok : Bool} (ha : h.Attempt ok b.blocks h') : h.Attempt ok [] (b.drop h') := by
  unfold drop
  unfold blocks at ha
  cases hblock : b.block? with
  | none =>
      rw [hblock] at ha
      exact ha
  | some id =>
      rw [hblock] at ha
      have hgone := ha.release (List.mem_singleton.mpr rfl) b.length b.mustWipe
      simpa using hgone

end OwnedBuffer

namespace OwnedBatch

variable {items : List Bytes} {secrecy : Secrecy} {b : OwnedBatch} {fault : Fault}

/-- Whatever does not fit a size field is a bad argument. -/
theorem measure_error {lengths : List Nat} (hm : measure lengths = .error fault) :
    ∃ why, fault = .badArgument why := by
  unfold measure at hm
  repeat' split at hm
  all_goals cases hm
  all_goals exact ⟨_, rfl⟩

/-- A batch asks for its lengths first and for its data then. -/
theorem attempt_copyFrom (hc : copyFrom items secrecy h = (.ok b, h')) :
    h.Attempt true (b.sizes?.toList ++ b.data?.toList) h' := by
  cases copying_of_copyFrom hc with
  | empty hnone => exact .refl h true
  | lengths hsome hzero hmeasure hsizes =>
      exact (Heap.attempt_request hsizes).update (List.mem_singleton.mpr rfl) _
  | @full total sizes data middle made hsome hpos hmeasure hsizes hdata =>
      have hboth := (Heap.attempt_request hsizes).trans (Heap.attempt_request hdata)
      have hlengths := hboth.update (show sizes ∈ [sizes] ++ [data] by simp)
        (·.write 0 (sizeTable items))
      exact hlengths.update (show data ∈ [sizes] ++ [data] by simp) _

/-- A batch that is refused is a bad argument and leaves nothing: when there is no memory for its
data, its lengths are given back. -/
theorem attempt_copyFrom_error (hc : copyFrom items secrecy h = (.error fault, h')) :
    (∃ why, fault = .badArgument why) ∧ h.Attempt false [] h' := by
  cases refusal_of_copyFrom hc with
  | oversized hmeasure => exact ⟨measure_error hmeasure, .refl h false⟩
  | noSizes reason hsizes => exact ⟨⟨_, rfl⟩, Heap.attempt_refused hsizes⟩
  | @noData total sizes middle refused reason hsizes hdata =>
      have hboth := (Heap.attempt_request hsizes).trans (Heap.attempt_refused hdata)
      have hfreed := hboth.free (show sizes ∈ [sizes] ++ [] by simp) .sizeTable
      exact ⟨⟨_, rfl⟩, by simpa using hfreed⟩

end OwnedBatch

/-- A copy succeeds, or it is a bad argument and leaves nothing. -/
theorem OwnedBuffer.tries_copyFrom (bytes : Bytes) (secrecy : Secrecy) (h : Heap) :
    h.Tries (copyFrom bytes secrecy h).1.isOk (copyFrom bytes secrecy h).2 := by
  rcases hc : copyFrom bytes secrecy h with ⟨fault | b, h'⟩
  · exact ⟨[], (attempt_copyFrom_error hc).2, fun _ => rfl⟩
  · exact ⟨b.blocks, attempt_copyFrom hc, Bool.noConfusion⟩

theorem OwnedBatch.tries_copyFrom (items : List Bytes) (secrecy : Secrecy) (h : Heap) :
    h.Tries (copyFrom items secrecy h).1.isOk (copyFrom items secrecy h).2 := by
  rcases hc : copyFrom items secrecy h with ⟨fault | b, h'⟩
  · exact ⟨[], (attempt_copyFrom_error hc).2, fun _ => rfl⟩
  · exact ⟨_, attempt_copyFrom hc, Bool.noConfusion⟩

/-- A copy for native code to keep succeeds, or it is the empty buffer. -/
theorem RawBuffer.tries_allocate (bytes : Bytes) (h : Heap) :
    ∃ ok, h.Tries ok (allocate bytes h).2 ∧ (ok = false → (allocate bytes h).1 = .empty) := by
  have htries := OwnedBuffer.tries_copyFrom bytes .secret h
  unfold allocate
  split <;> rename_i hc <;> rw [hc] at htries
  · exact ⟨true, htries, Bool.noConfusion⟩
  · exact ⟨false, htries, fun _ => rfl⟩

/-- A pool is made, or no pool is touched. -/
theorem Memory.tries_createPool (m : Memory) (count blockSize : Nat) :
    m.heap.Tries (m.createPool count blockSize).1.isSome (m.createPool count blockSize).2.heap ∧
      ((m.createPool count blockSize).1 = none →
        (m.createPool count blockSize).2.pools = m.pools) := by
  unfold createPool
  split
  · split <;> rename_i hr
    · exact ⟨⟨[], Heap.attempt_refused hr, fun _ => rfl⟩, fun _ => rfl⟩
    · exact ⟨⟨_, Heap.attempt_request hr, Bool.noConfusion⟩, fun hnone => by cases hnone⟩
  · exact ⟨.refl m.heap false, fun _ => rfl⟩

end NativeBoundary

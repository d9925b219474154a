import NativeBoundary.Proofs.Handles.Issued
import NativeBoundary.Proofs.Kem.Slots
import NativeBoundary.Proofs.Process.Honest

/-!
# What a call shows

Native code sees of an entry point for key encapsulation its return code and the bytes in its
out-parameters.  Both follow from the checks of the call, from what the policy does with the
arguments, from which out-parameters are null, and from how far the allocator will go
(`KemCall.shows_congr`).  What numbers the handles and the blocks have does not matter.

Afterwards the registries and the slot are as they were, no block from before has changed, and what
stands in an out-parameter is empty or at the front of a block.

* `KemCall.shows_congr` — two calls that agree in these things show the same;
* `KemCall.beside`, `KemCall.next_le`, `KemCall.placed_outs` — what a call leaves behind.
-/

namespace NativeBoundary

/-- A buffer without data, or one at the front of a block that was made. -/
def RawBuffer.Placed (raw : RawBuffer) (h : Heap) : Prop :=
  raw.data = .null ∨ ∃ id < h.next, raw.data = .native id 0

namespace RawBuffer

variable {raw : RawBuffer} {h h' : Heap}

theorem Placed.mono (hp : raw.Placed h) (hnext : h.next ≤ h'.next) : raw.Placed h' := by
  rcases hp with hnull | ⟨id, hid, hdata⟩
  · exact .inl hnull
  · exact .inr ⟨id, Nat.lt_of_lt_of_le hid hnext, hdata⟩

theorem length_eq_zero_iff (raw : RawBuffer) : raw.length = 0 ↔ raw.isEmpty = true := by
  unfold length
  cases hempty : raw.isEmpty with
  | true => simp
  | false =>
      simp only [isEmpty, Bool.or_eq_false_iff, decide_eq_false_iff_not] at hempty
      have hsize : ¬ raw.size.toInt ≤ 0 := fun hle => hempty.2 (Int32.le_iff_toInt_le.mpr hle)
      simp only [Bool.false_eq_true, if_false, iff_false]
      omega

/-- Such a buffer is empty exactly if it carries no bytes. -/
theorem Placed.isEmpty_iff (hp : raw.Placed h) : raw.isEmpty = true ↔ raw.bytes h = [] := by
  rw [← length_eq_zero_iff]
  unfold bytes
  rcases hp with hnull | ⟨id, -, hdata⟩
  · rw [hnull]
    refine iff_of_true ?_ rfl
    rw [length_eq_zero_iff]
    simp [isEmpty, hnull, Pointer.isNull]
  · rw [hdata, ← List.length_eq_zero_iff]
    unfold Pointer.read Heap.read
    simp only
    split <;> simp

/-- What it carries stays, as long as no block from before changes. -/
theorem Placed.bytes_congr (hp : raw.Placed h)
    (hkept : ∀ id < h.next, h'.block? id = h.block? id) : raw.bytes h' = raw.bytes h := by
  unfold bytes
  rcases hp with hnull | ⟨id, hid, hdata⟩
  · rw [hnull]
    rfl
  · rw [hdata]
    exact Heap.read_congr (hkept id hid) 0 _

end RawBuffer

theorem OwnedBuffer.placed_copyFrom {bytes : Bytes} {secrecy : Secrecy} {h h' : Heap}
    {b : OwnedBuffer} (hc : copyFrom bytes secrecy h = (.ok b, h')) : b.raw.Placed h' := by
  cases copying_of_copyFrom hc with
  | empty hnone => exact .inl rfl
  | @block id made hsome hfits hblock =>
      obtain ⟨hid, hnext, -⟩ := Heap.request_granted hblock
      have hmade : id < made.next := by
        rw [hid, hnext]
        exact Nat.lt_succ_self _
      exact .inr ⟨id, hmade, rfl⟩

namespace Process

variable {p q : Process}

theorem placed_handOver {bytes : Bytes} {secrecy : Secrecy} {raw : RawBuffer}
    (hc : p.handOver bytes secrecy = (.ok raw, q)) : raw.Placed q.heap := by
  obtain ⟨b, h, hcopy, rfl, rfl⟩ := handOver_ok hc
  exact OwnedBuffer.placed_copyFrom hcopy

theorem placed_handOverPair {ciphertext secret : Bytes} {pair : RawBuffer × RawBuffer}
    (hc : p.handOverPair ciphertext secret = (.ok pair, q)) :
    pair.1.Placed q.heap ∧ pair.2.Placed q.heap := by
  obtain ⟨first, second, h, h', hfirst, hsecond, rfl, rfl⟩ := handOverPair_ok hc
  have hmore := (OwnedBuffer.delivers_copyFrom hsecond).1.next
  exact ⟨(OwnedBuffer.placed_copyFrom hfirst).mono hmore, OwnedBuffer.placed_copyFrom hsecond⟩

theorem heap_closeKem {α : Type} (p : Process) (op : String) (reply : Reply Fault α) :
    (p.closeKem op reply).2.heap = p.heap := by
  cases reply <;> rfl

theorem placed_filled {reply : Reply Fault RawBuffer} {h : Heap} (out : Option RawBuffer)
    (hreply : ∀ raw, reply = .value raw → raw.Placed h) :
    ∀ raw, filled out reply = some raw → raw.Placed h := by
  intro raw hraw
  cases reply with
  | value result =>
      obtain ⟨old, -, rfl⟩ := Option.map_eq_some_iff.mp hraw
      exact hreply result rfl
  | refusal _ | panic _ =>
      obtain ⟨old, -, rfl⟩ := Option.map_eq_some_iff.mp hraw
      exact .inl rfl

/-- Closing an entry point moves nothing. -/
theorem placed_closed {reply : Reply Fault RawBuffer} {out : Option RawBuffer} {op : String}
    {raw : RawBuffer} (hreply : ∀ result, reply = .value result → result.Placed q.heap)
    (hraw : filled out reply = some raw) : raw.Placed (q.closeKem op reply).2.heap := by
  rw [heap_closeKem]
  exact placed_filled out hreply raw hraw

theorem placed_encapsulate (p : Process) (encapsulationKey seed : RawBuffer)
    (ciphertext secret : Option RawBuffer) (raw : RawBuffer)
    (hraw : (p.encapsulate encapsulationKey seed ciphertext secret).1.ciphertext = some raw ∨
      (p.encapsulate encapsulationKey seed ciphertext secret).1.secret = some raw) :
    raw.Placed (p.encapsulate encapsulationKey seed ciphertext secret).2.heap := by
  have hpair : ∀ pair q, p.runEncapsulate encapsulationKey seed ciphertext secret =
      (.value pair, q) → pair.1.Placed q.heap ∧ pair.2.Placed q.heap := by
    intro pair q hvalue
    unfold runEncapsulate at hvalue
    split at hvalue
    · cases hvalue
    · obtain ⟨results, hgive⟩ := settle_value hvalue
      exact placed_handOverPair hgive
  rcases hrun : p.runEncapsulate encapsulationKey seed ciphertext secret with ⟨reply, q⟩
  simp only [encapsulate, hrun, heap_closeKem] at hraw ⊢
  rcases hraw with hraw | hraw <;> refine placed_filled _ (fun result hresult => ?_) raw hraw <;>
    cases reply <;> cases hresult
  · exact (hpair _ _ hrun).1
  · exact (hpair _ _ hrun).2

theorem placed_decapsulate (p : Process) (key : UInt64) (ciphertext : RawBuffer)
    (out : Option RawBuffer) (raw : RawBuffer)
    (hraw : (p.decapsulate key ciphertext out).1.out = some raw) :
    raw.Placed (p.decapsulate key ciphertext out).2.heap := by
  rcases hrun : p.runDecapsulate key ciphertext out with ⟨reply, q⟩
  simp only [decapsulate, hrun] at hraw ⊢
  refine placed_closed (fun result hvalue => ?_) hraw
  rw [hvalue] at hrun
  unfold runDecapsulate at hrun
  split at hrun
  · cases hrun
  · obtain ⟨secret, hgive⟩ := settle_value hrun
    exact placed_handOver hgive

theorem placed_derivePublic (p : Process) (key : UInt64) (out : Option RawBuffer)
    (raw : RawBuffer) (hraw : (p.derivePublic key out).1.out = some raw) :
    raw.Placed (p.derivePublic key out).2.heap := by
  rcases hrun : p.runDerivePublic key out with ⟨reply, q⟩
  simp only [derivePublic, hrun] at hraw ⊢
  refine placed_closed (fun result hvalue => ?_) hraw
  rw [hvalue] at hrun
  unfold runDerivePublic at hrun
  split at hrun
  · cases hrun
  · obtain ⟨encapsulationKey, hgive⟩ := settle_value hrun
    exact placed_handOver hgive

end Process

namespace KemCall

variable {p p' : Process} {c c' : KemCall}

/-- What stands in the out-parameters afterwards is empty, or at the front of a block. -/
theorem placed_outs (p : Process) (c : KemCall) :
    ∀ raw, some raw ∈ (c.run p).1.outs → raw.Placed (c.run p).2.heap := by
  intro raw hraw
  cases c with
  | encapsulate encapsulationKey seed ciphertext secret =>
      refine p.placed_encapsulate encapsulationKey seed ciphertext secret raw ?_
      rcases List.mem_cons.mp hraw with hfirst | hrest
      · exact .inl hfirst.symm
      · exact .inr (List.mem_singleton.mp hrest).symm
  | decapsulate key ciphertext out =>
      exact p.placed_decapsulate key ciphertext out raw (List.mem_singleton.mp hraw).symm
  | derivePublic key out =>
      exact p.placed_derivePublic key out raw (List.mem_singleton.mp hraw).symm

/-- Entry points leave the registries and the slot as they are. -/
theorem beside (p : Process) (c : KemCall) : p.Beside (c.run p).2 := by
  cases c with
  | encapsulate encapsulationKey seed ciphertext secret =>
      exact Process.Callback.beside p (.encapsulate encapsulationKey seed ciphertext secret)
  | decapsulate key ciphertext out =>
      exact Process.Callback.beside p (.decapsulate key ciphertext out)
  | derivePublic key out => exact Process.Callback.beside p (.derivePublic key out)

/-- Blocks are only ever made. -/
theorem next_le (p : Process) (c : KemCall) : p.heap.next ≤ (c.run p).2.heap.next := by
  cases hf : c.firstFailure? p with
  | some code =>
      obtain ⟨q, hrun, -, hheap⟩ := run_of_failure hf
      rw [hrun, hheap]
  | none =>
      obtain ⟨call, reply, result, q, -, hsettles, -, -, hheap⟩ := run_of_passed hf
      rw [hheap]
      rcases hsettles.results with ⟨_, _, -, -, hdelivers⟩ | ⟨-, -, hdelivers⟩ <;>
        exact hdelivers.next

/-- What native code sees of a call: its code, and the bytes in the out-parameters. -/
def shows (p : Process) (c : KemCall) : Int32 × List (Option Bytes) :=
  ((c.run p).1.code, (c.run p).1.outs.map (Option.map (RawBuffer.bytes · (c.run p).2.heap)))

/-- What a policy does decides about the code, and so does what the allocator grants. -/
theorem codeIn_congr {h h' : Heap} (hgranted : h'.granted = h.granted)
    (reply : Reply KemError (List Bytes)) : reply.codeIn h' = reply.codeIn h := by
  cases reply with
  | value outputs => simp only [Reply.codeIn, Heap.canHold_congr hgranted]
  | refusal _ | panic _ => rfl

theorem bytes_emptied (c : KemCall) (h : Heap) :
    c.emptied.map (Option.map (RawBuffer.bytes · h)) = c.outs.map (Option.map fun _ => []) := by
  unfold emptied
  rw [List.map_map]
  refine List.map_congr_left fun out _ => ?_
  cases out <;> rfl

/-- Calls show the same if their checks, what the policy does, the out-parameters and the allocator
are the same. -/
theorem shows_congr (hchecks : c'.checks p' = c.checks p)
    (hreply : (c'.asked? p').map (·.2) = (c.asked? p).map (·.2)) (houts : c'.outs = c.outs)
    (hgranted : p'.heap.granted = p.heap.granted) : c'.shows p' = c.shows p := by
  have hl := lawful p c
  have hl' := lawful p' c'
  have hfirst : c'.firstFailure? p' = c.firstFailure? p := by
    unfold firstFailure?
    rw [hchecks]
  have hcode : (c'.run p').1.code = (c.run p).1.code := by
    cases hf : c.firstFailure? p with
    | some code => rw [(hl.refused code hf).1, (hl'.refused code (hfirst.trans hf)).1]
    | none =>
        obtain ⟨call, reply, hasked, -, hcode⟩ := hl.answered hf
        obtain ⟨call', reply', hasked', -, hcode'⟩ := hl'.answered (hfirst.trans hf)
        rw [hasked, hasked', Option.map_some, Option.map_some, Option.some.injEq] at hreply
        cases hreply
        rw [hcode, hcode', codeIn_congr hgranted]
  refine Prod.ext hcode ?_
  by_cases hsuccess : (c.run p).1.code = Code.success
  · obtain ⟨call, outputs, hasked, hbytes⟩ := hl.delivered hsuccess
    obtain ⟨call', outputs', hasked', hbytes'⟩ := hl'.delivered (hcode.trans hsuccess)
    rw [hasked, hasked', Option.map_some, Option.map_some, Option.some.injEq] at hreply
    cases hreply
    exact hbytes'.trans hbytes.symm
  · have hfailed : (c'.run p').1.code ≠ Code.success := by
      rw [hcode]
      exact hsuccess
    change (c'.run p').1.outs.map _ = (c.run p).1.outs.map _
    rw [hl.emptied hsuccess, hl'.emptied hfailed, bytes_emptied, bytes_emptied, houts]

end KemCall

end NativeBoundary

import NativeBoundary.Proofs.Process.Entries

/-!
# Out-parameters after a failed receive

Native code releases what it finds in an out-parameter, so it had better find nothing there when a
receive has failed.  The entry points empty an out-parameter once the context was resolved, and
whatever fails after that, a bad index, the transport, or the native memory for the messages, finds
it empty and leaves it so.  A context that stands for no transport is refused before that: then the
out-parameter still holds what it held before the call.

* `Process.Resolves` — what it is that a context stands for a transport;
* `Process.transport_out_kept_iff` — when exactly a failed receive leaves something behind;
* `Process.receive_keeps_stale_out` — a context that is null.
-/

namespace NativeBoundary

namespace Process

variable {p : Process} {context : UInt64}

/-- A context that stands for a transport: it is the handle of one that is registered. -/
def Resolves (p : Process) (context : UInt64) : Prop :=
  context ≠ 0 ∧ ∃ id, p.lookup? globalRegistry ⟨context⟩ = some (.transport id)

theorem resolves_iff : p.Resolves context ↔ ∃ id, p.resolveTransport context = .ok id := by
  unfold Resolves resolveTransport Handle.ofPointer?
  by_cases hnull : context = 0
  · simp [hnull]
  · simp only [hnull, not_false_eq_true, true_and, if_false, ne_eq]
    cases p.lookup? globalRegistry ⟨context⟩ with
    | none => simp
    | some object => cases object <;> simp

theorem not_resolves_iff :
    ¬ p.Resolves context ↔ ∃ fault, p.resolveTransport context = .error fault := by
  rw [resolves_iff]
  cases p.resolveTransport context <;> simp

section

variable {α : Type} {empty x : α} {out message : Option α} {reply : Reply Fault Unit}

theorem leftover_of_resolves (hc : p.Resolves context) :
    p.leftover context empty out = out.map fun _ => empty := by
  obtain ⟨id, hid⟩ := resolves_iff.mp hc
  unfold leftover
  rw [hid]

theorem leftover_of_not_resolves (hc : ¬ p.Resolves context) :
    p.leftover context empty out = out := by
  obtain ⟨fault, hfault⟩ := not_resolves_iff.mp hc
  unfold leftover
  rw [hfault]

/-- An entry point that leaves either its result or what is left over keeps what it found exactly
when it had no transport to ask. -/
theorem kept_iff (q : Process) (op : String)
    (hunresolved : ∀ fault, p.resolveTransport context = .error fault → reply = .refusal fault)
    (hleft : reply = .value () ∨ message = p.leftover context empty (some x)) :
    ((q.closeTransportCall op reply).1 ≠ Code.success ∧ message ≠ some empty) ↔
      ¬ p.Resolves context ∧ x ≠ empty := by
  have hfailed : (q.closeTransportCall op reply).1 ≠ Code.success →
      message = p.leftover context empty (some x) := by
    intro hcode
    rcases hleft with rfl | hmessage
    · exact absurd rfl hcode
    · exact hmessage
  by_cases hc : p.Resolves context
  · constructor
    · rintro ⟨hcode, hmessage⟩
      exact absurd ((hfailed hcode).trans (leftover_of_resolves hc)) hmessage
    · rintro ⟨hnot, -⟩
      exact absurd hc hnot
  · obtain ⟨fault, hfault⟩ := not_resolves_iff.mp hc
    have hcode : (q.closeTransportCall op reply).1 ≠ Code.success :=
      failed_of_unresolved q op hfault (hunresolved fault hfault)
    have hmessage : message = some x := (hfailed hcode).trans (leftover_of_not_resolves hc)
    constructor
    · rintro ⟨-, hkept⟩
      exact ⟨hc, fun hx => hkept (hmessage.trans (congrArg some hx))⟩
    · rintro ⟨-, hx⟩
      exact ⟨hcode, fun hempty => hx (Option.some.inj (hmessage.symm.trans hempty))⟩

end

/-- A failed receive leaves something behind exactly when the context stands for no transport and
the out-parameter was not empty before. -/
theorem transport_out_kept_iff (p : Process) (context : UInt64) :
    (∀ (sender : Int32) (x : RawBuffer),
      ((p.transportReceive context sender (some x)).1.code ≠ Code.success ∧
          (p.transportReceive context sender (some x)).1.message ≠ some .empty) ↔
        ¬ p.Resolves context ∧ x ≠ .empty) ∧
    (∀ (senders : Option (List Int32)) (count : Int32) (x : RawBatch),
      ((p.transportReceiveAll context senders count (some x)).1.code ≠ Code.success ∧
          (p.transportReceiveAll context senders count (some x)).1.messages ≠ some .empty) ↔
        ¬ p.Resolves context ∧ x ≠ .empty) := by
  constructor
  · intro sender x
    exact kept_iff _ _ (fun _ => p.runReceive_unresolved context sender (some x))
      (p.runReceive_leftover context sender (some x))
  · intro senders count x
    exact kept_iff _ _ (fun _ => p.runReceiveAll_unresolved context senders count (some x))
      (p.runReceiveAll_leftover context senders count (some x))

/-- With a null context, a failed receive leaves in its out-parameter what was there. -/
theorem receive_keeps_stale_out :
    ¬ ∀ (p : Process) (context : UInt64) (senders : Option (List Int32)) (count : Int32)
      (x : RawBatch), (p.transportReceiveAll context senders count (some x)).1.code ≠ Code.success →
        (p.transportReceiveAll context senders count (some x)).1.messages = some .empty := by
  intro hall
  have hempty := hall {} 0 (some [0]) 1 ⟨.native 0 0, .native 1 0, 77⟩ (by decide)
  exact absurd hempty (by decide)

end Process

end NativeBoundary

import NativeBoundary.Proofs.Kem.Outcomes
import NativeBoundary.Proofs.Transport.Contexts

/-!
# The slot and the key of a call

Two arguments of an entry point for key encapsulation are handles: the policy slot of the thread,
and the private key.  The slot is looked at first.  If it stands for no policy, nothing else is
looked at; if it does, no other policy is called.  The key is looked at last, after all other
arguments.

* `KemCall.run_of_unbound`, `KemCall.asks_bound` — what the slot decides;
* `KemCall.run_of_key` — what the key decides, once the checks before it pass.
-/

namespace NativeBoundary

/-- The object that a policy was called with. -/
def HostCall.object? : HostCall → Option HostValue
  | decapsulate _ object _ | derivePublic _ object => some object
  | encapsulate _ _ _ | send _ _ _ | receive _ _ | receiveAll _ _ => none

/-- The policy of a binding, if an object is one. -/
def Object.policy? : Object → Option Policy
  | policy p => some p
  | value _ | transport _ => none

@[simp] theorem Object.policy?_eq_some_iff {object : Object} {policy : Policy} :
    object.policy? = some policy ↔ object = .policy policy := by
  cases object <;> simp [policy?]

/-- The policy of a thread is the object that is registered under its slot, if it is one. -/
theorem Process.boundPolicy?_eq (p : Process) :
    p.boundPolicy? = if p.slot = 0 then none
      else (p.lookup? globalRegistry ⟨p.slot⟩).bind Object.policy? := by
  unfold boundPolicy?
  cases p.lookup? globalRegistry ⟨p.slot⟩ with
  | none => rfl
  | some object => cases object <;> rfl

theorem Process.boundPolicy?_eq_some_iff {p : Process} {policy : Policy} :
    p.boundPolicy? = some policy ↔
      p.slot ≠ 0 ∧ p.lookup? globalRegistry ⟨p.slot⟩ = some (.policy policy) := by
  rw [boundPolicy?_eq]
  by_cases hnull : p.slot = 0 <;> simp [hnull, Option.bind_eq_some_iff]

namespace KemCall

variable {p : Process} {c : KemCall} {key : UInt64}

/-- The private key handle that is passed to an entry point. -/
def key? : KemCall → Option UInt64
  | decapsulate key _ _ | derivePublic key _ => some key
  | encapsulate _ _ _ _ => none

/-- Whether the arguments are as they should be that are looked at before the key. -/
def reachesKey : KemCall → Bool
  | encapsulate _ _ _ _ => false
  | decapsulate _ ciphertext out => out.isSome && !ciphertext.isEmpty
  | derivePublic _ out => out.isSome

/-- Without a policy that is the first failure. -/
theorem firstFailure?_of_unbound (hnone : p.boundPolicy? = none) :
    c.firstFailure? p = some Code.notFound := by
  cases c <;> simp [firstFailure?, checks, hnone]

/-- Without a policy the call fails at once, and nobody is called. -/
theorem run_of_unbound (hnone : p.boundPolicy? = none) :
    (c.run p).1.code = Code.notFound ∧ (c.run p).2.calls = p.calls :=
  (lawful p c).refused _ (firstFailure?_of_unbound hnone)

/-- A policy is asked under the handle in the slot, and about the object of the key. -/
theorem asked?_eq {call : HostCall} {reply : Reply KemError (List Bytes)}
    (hasked : c.asked? p = some (call, reply)) :
    call.policy? = some p.boundHandle ∧
      ∀ key, c.key? = some key → ∃ object, p.lookup? globalRegistry ⟨key⟩ = some object ∧
        call.object? = some object.seen := by
  cases c <;> simp only [asked?, Option.bind_eq_bind, Option.bind_eq_some_iff] at hasked
  case encapsulate =>
    obtain ⟨policy, -, rho, -, heq⟩ := hasked
    cases heq
    refine ⟨rfl, fun key hkey => ?_⟩
    cases hkey
  case decapsulate | derivePublic =>
    obtain ⟨policy, -, object, hlookup, heq⟩ := hasked
    cases heq
    refine ⟨rfl, fun key hkey => ?_⟩
    cases hkey
    exact ⟨object, hlookup, rfl⟩

/-- A call asks the policy of the slot, if any, and at most once. -/
theorem asks_bound (p : Process) (c : KemCall) :
    p.Asks (c.run p).2 (·.policy? = some p.boundHandle) := by
  have hl := lawful p c
  cases hf : c.firstFailure? p with
  | some code => exact Process.asks_none (hl.refused code hf).2
  | none =>
      obtain ⟨call, reply, hasked, hcalls, -⟩ := hl.answered hf
      exact Process.asks_one hcalls (asked?_eq hasked).1

/-- Once the checks before it pass, the key decides. -/
theorem firstFailure?_of_key (hbound : p.boundPolicy? ≠ none) (hkey : c.key? = some key)
    (hreaches : c.reachesKey = true) :
    c.firstFailure? p =
      if key = 0 then some Code.badArgument
      else if p.lookup? globalRegistry ⟨key⟩ = none then some Code.notFound else none := by
  obtain ⟨policy, hpolicy⟩ := Option.ne_none_iff_exists'.mp hbound
  cases c with
  | encapsulate _ _ _ _ => cases hkey
  | decapsulate _ ciphertext out =>
      cases hkey
      obtain ⟨hout, hbytes⟩ : out.isSome = true ∧ ciphertext.isEmpty = false := by
        simpa [reachesKey] using hreaches
      cases hlookup : p.lookup? globalRegistry ⟨key⟩ <;> by_cases hnull : key = 0 <;>
        simp [firstFailure?, checks, hpolicy, hout, hbytes, hlookup, hnull]
  | derivePublic _ out =>
      cases hkey
      have hout : out.isSome = true := hreaches
      cases hlookup : p.lookup? globalRegistry ⟨key⟩ <;> by_cases hnull : key = 0 <;>
        simp [firstFailure?, checks, hpolicy, hout, hlookup, hnull]

/-- What a private key handle decides: a null one and one that is not registered have codes of their
own, and for any other the policy is asked about its object. -/
structure KeyDecides (p : Process) (c : KemCall) (key : UInt64) : Prop where
  null : key = 0 → (c.run p).1.code = Code.badArgument ∧ (c.run p).2.calls = p.calls
  unknown : key ≠ 0 → p.lookup? globalRegistry ⟨key⟩ = none →
    (c.run p).1.code = Code.notFound ∧ (c.run p).2.calls = p.calls
  asked : key ≠ 0 → ∀ object, p.lookup? globalRegistry ⟨key⟩ = some object →
    ∃ call, (c.run p).2.calls = call :: p.calls ∧ call.policy? = some p.boundHandle ∧
      call.object? = some object.seen

theorem run_of_key (hbound : p.boundPolicy? ≠ none) (hkey : c.key? = some key)
    (hreaches : c.reachesKey = true) : c.KeyDecides p key := by
  have hl := lawful p c
  have hf := firstFailure?_of_key hbound hkey hreaches
  constructor
  case null =>
    intro hnull
    rw [if_pos hnull] at hf
    exact hl.refused _ hf
  case unknown =>
    intro hsome hlookup
    rw [if_neg hsome, if_pos hlookup] at hf
    exact hl.refused _ hf
  case asked =>
    intro hsome object hlookup
    have hfound : ¬ p.lookup? globalRegistry ⟨key⟩ = none := by simp [hlookup]
    rw [if_neg hsome, if_neg hfound] at hf
    obtain ⟨call, reply, hasked, hcalls, -⟩ := hl.answered hf
    obtain ⟨hpolicy, hobject⟩ := asked?_eq hasked
    obtain ⟨o, ho, hseen⟩ := hobject key hkey
    cases hlookup.symm.trans ho
    exact ⟨call, hcalls, hpolicy, hseen⟩

end KemCall

end NativeBoundary

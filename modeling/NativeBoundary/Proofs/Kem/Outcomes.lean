import NativeBoundary.Kem.Entry
import NativeBoundary.Proofs.Memory.Delivery

/-!
# Outcomes of entry points for key encapsulation

What native code may rely on when it calls back into the policy of its thread.  The checks of an
entry point are a list (`KemCall.checks`), in the order in which they are made, each with the code
that is returned when it is the first to fail.  If none fails, the policy is called, once, with the
bytes and the key object that the arguments denote (`KemCall.asked`), and its answer decides about
the code (`Reply.codeIn`): a refusal and a panic have codes of their own, and an answer is a success
if native memory can hold all of it.

Whatever the outcome, the live blocks afterwards are those from before and those in the
out-parameters.  After a failure the out-parameters are empty, so nothing that was made on the way
is left; after a success they carry what the policy answered.

* `KemCall.Lawful` — all of that, for one call;
* `KemCall.lawful` — it holds of every call in every process.
-/

namespace NativeBoundary

/-- A call of an entry point for key encapsulation.  An out-parameter is given by what it holds
before the call; a null one is absent. -/
inductive KemCall
  | encapsulate (encapsulationKey seed : RawBuffer) (ciphertext secret : Option RawBuffer)
  | decapsulate (key : UInt64) (ciphertext : RawBuffer) (out : Option RawBuffer)
  | derivePublic (key : UInt64) (out : Option RawBuffer)

/-- What native code sees of such a call. -/
structure KemReply where
  code : Int32
  outs : List (Option RawBuffer)

/-- The blocks that native code was handed. -/
def KemReply.blocks (r : KemReply) : List BlockId :=
  r.outs.filterMap fun out => out.bind (·.data.block?)

/-- The code for a refusal of a policy. -/
def KemError.code : KemError → Int32
  | invalidInput _ => Code.badArgument
  | notSupported _ => Code.notSupported
  | crypto _ => Code.crypto

/-- The code for what a policy does, if its answer has to go into a heap. -/
def Reply.codeIn (h : Heap) : Reply KemError (List Bytes) → Int32
  | .value outputs => if h.canHold outputs then Code.success else Code.badArgument
  | .refusal e => e.code
  | .panic _ => Code.crypto

/-- The policy that the slot of the running thread leads to. -/
def Process.boundPolicy? (p : Process) : Option Policy :=
  if p.slot = 0 then none
  else
    match p.lookup? globalRegistry ⟨p.slot⟩ with
    | some (.policy policy) => some policy
    | _ => none

namespace KemCall

/-- The out-parameters before the call. -/
def outs : KemCall → List (Option RawBuffer)
  | encapsulate _ _ ciphertext secret => [ciphertext, secret]
  | decapsulate _ _ out | derivePublic _ out => [out]

/-- The out-parameters with nothing in them. -/
def emptied (c : KemCall) : List (Option RawBuffer) := c.outs.map fun out => out.map fun _ => .empty

/-- Calls the entry point. -/
def run (p : Process) : KemCall → KemReply × Process
  | encapsulate encapsulationKey seed ciphertext secret =>
      let (reply, p) := p.encapsulate encapsulationKey seed ciphertext secret
      (⟨reply.code, [reply.ciphertext, reply.secret]⟩, p)
  | decapsulate key ciphertext out =>
      let (reply, p) := p.decapsulate key ciphertext out
      (⟨reply.code, [reply.out]⟩, p)
  | derivePublic key out =>
      let (reply, p) := p.derivePublic key out
      (⟨reply.code, [reply.out]⟩, p)

/-- What may be wrong with a call, in the order in which it is looked at, and the code for it. -/
def checks (p : Process) : KemCall → List (Bool × Int32)
  | encapsulate encapsulationKey seed ciphertext secret =>
      [(p.boundPolicy?.isNone, Code.notFound),
        (ciphertext.isNone, Code.badArgument),
        (secret.isNone, Code.badArgument),
        (encapsulationKey.isEmpty, Code.badArgument),
        ((seed.bytes p.heap).length ≠ seedLength, Code.badArgument)]
  | decapsulate key ciphertext out =>
      [(p.boundPolicy?.isNone, Code.notFound),
        (out.isNone, Code.badArgument),
        (ciphertext.isEmpty, Code.badArgument),
        (key = 0, Code.badArgument),
        ((p.lookup? globalRegistry ⟨key⟩).isNone, Code.notFound)]
  | derivePublic key out =>
      [(p.boundPolicy?.isNone, Code.notFound),
        (out.isNone, Code.badArgument),
        (key = 0, Code.badArgument),
        ((p.lookup? globalRegistry ⟨key⟩).isNone, Code.notFound)]

/-- The code of the first check that fails. -/
def firstFailure? (p : Process) (c : KemCall) : Option Int32 :=
  ((c.checks p).find? (·.1)).map (·.2)

/-- What the policy is asked, and what it does. -/
def asked? (p : Process) : KemCall → Option (HostCall × Reply KemError (List Bytes))
  | encapsulate encapsulationKey seed _ _ => do
      let policy ← p.boundPolicy?
      let rho ← (seed.bytes p.heap).to32?
      let key := encapsulationKey.bytes p.heap
      return (.encapsulate p.boundHandle key rho,
        (policy.encapsulate key rho).map fun pair => [pair.1, pair.2])
  | decapsulate key ciphertext _ => do
      let policy ← p.boundPolicy?
      let object ← p.lookup? globalRegistry ⟨key⟩
      let bytes := ciphertext.bytes p.heap
      return (.decapsulate p.boundHandle object.seen bytes,
        (policy.decapsulate object.seen bytes).map fun secret => [secret])
  | derivePublic key _ => do
      let policy ← p.boundPolicy?
      let object ← p.lookup? globalRegistry ⟨key⟩
      return (.derivePublic p.boundHandle object.seen,
        (policy.derivePublic object.seen).map fun key => [key])

/-- What native code may rely on. -/
structure Lawful (p : Process) (c : KemCall) : Prop where
  /-- If a check fails, the first one decides, and the policy is not called. -/
  refused : ∀ code, c.firstFailure? p = some code →
    (c.run p).1.code = code ∧ (c.run p).2.calls = p.calls
  /-- If none fails, the policy is called once with what the arguments denote, and it decides. -/
  answered : c.firstFailure? p = none → ∃ call reply, c.asked? p = some (call, reply) ∧
    (c.run p).2.calls = call :: p.calls ∧ (c.run p).1.code = reply.codeIn p.heap
  /-- After a failure every out-parameter is empty. -/
  emptied : (c.run p).1.code ≠ Code.success → (c.run p).1.outs = c.emptied
  /-- After a success they carry what the policy answered. -/
  delivered : (c.run p).1.code = Code.success → ∃ call outputs,
    c.asked? p = some (call, .value outputs) ∧
      (c.run p).1.outs.map (Option.map (RawBuffer.bytes · (c.run p).2.heap)) = outputs.map some
  /-- The blocks that are live afterwards. -/
  live : (c.run p).2.heap.live = p.heap.live ++ (c.run p).1.blocks
  /-- No block from before is changed. -/
  kept : ∀ id < p.heap.next, (c.run p).2.heap.block? id = p.heap.block? id

end KemCall

namespace Process

open KemEntry

variable {p : Process}

/-- The current policy is the one that the slot leads to, if there is one. -/
theorem currentPolicy_cases (p : Process) :
    (∃ policy, p.boundPolicy? = some policy ∧ p.currentPolicy = .ok policy) ∨
    (p.boundPolicy? = none ∧ ∃ what, p.currentPolicy = .error (.notFound what)) := by
  unfold boundPolicy? currentPolicy Handle.ofPointer?
  by_cases hnull : p.slot = 0
  · exact .inr ⟨if_pos hnull, _, by rw [if_pos hnull]⟩
  · simp only [if_neg hnull]
    cases p.lookup? globalRegistry ⟨p.slot⟩ with
    | none => exact .inr ⟨rfl, _, rfl⟩
    | some object =>
        cases object with
        | policy policy => exact .inl ⟨policy, rfl, rfl⟩
        | value v | transport id => exact .inr ⟨rfl, _, rfl⟩

/-- A private key handle is null, not registered, or leads to an object. -/
theorem privateKey_cases (p : Process) (key : UInt64) :
    (key = 0 ∧ ∃ why, p.privateKey key = .error (.badArgument why)) ∨
    (key ≠ 0 ∧ p.lookup? globalRegistry ⟨key⟩ = none ∧
      ∃ what, p.privateKey key = .error (.notFound what)) ∨
    (key ≠ 0 ∧ ∃ object, p.lookup? globalRegistry ⟨key⟩ = some object ∧
      p.privateKey key = .ok object.seen) := by
  unfold privateKey Handle.ofPointer?
  by_cases hnull : key = 0
  · exact .inl ⟨hnull, _, by rw [if_pos hnull]⟩
  · simp only [if_neg hnull]
    cases hlookup : p.lookup? globalRegistry ⟨key⟩ with
    | none => exact .inr (.inl ⟨hnull, rfl, _, rfl⟩)
    | some object => exact .inr (.inr ⟨hnull, object, rfl, rfl⟩)

/-- A seed has its length, or not. -/
theorem requireSeed_cases (seed : RawBuffer) (h : Heap) :
    ((seed.bytes h).length = seedLength ∧
      ∃ rho, (seed.bytes h).to32? = some rho ∧ requireSeed seed h = .ok rho) ∨
    ((seed.bytes h).length ≠ seedLength ∧
      ∃ why, requireSeed seed h = .error (.badArgument why)) := by
  unfold requireSeed Bytes.to32?
  by_cases hlength : (seed.bytes h).length = 32
  · exact .inl ⟨hlength, ⟨_, hlength⟩, dif_pos hlength, by rw [dif_pos hlength]⟩
  · exact .inr ⟨hlength, _, by rw [dif_neg hlength]⟩

end Process

namespace KemCall

open KemEntry

variable {p : Process}

/-- The checks before a policy encapsulates. -/
theorem encapsulateRequest_cases (p : Process) (encapsulationKey seed : RawBuffer)
    (ciphertext secret : Option RawBuffer) :
    (∃ fault, p.encapsulateRequest encapsulationKey seed ciphertext secret = .error fault ∧
      firstFailure? p (.encapsulate encapsulationKey seed ciphertext secret) = some fault.code) ∨
    (∃ policy rho first second, p.encapsulateRequest encapsulationKey seed ciphertext secret =
        .ok (policy, encapsulationKey.bytes p.heap, rho) ∧
      firstFailure? p (.encapsulate encapsulationKey seed ciphertext secret) = none ∧
      p.boundPolicy? = some policy ∧ (seed.bytes p.heap).to32? = some rho ∧
      ciphertext = some first ∧ secret = some second) := by
  simp only [Process.encapsulateRequest, firstFailure?, checks]
  rcases p.currentPolicy_cases with ⟨policy, hbound, hcurrent⟩ | ⟨hnone, what, hcurrent⟩
  · rw [hcurrent, hbound]
    cases ciphertext with
    | none => exact .inl ⟨_, rfl, rfl⟩
    | some first =>
      cases secret with
      | none => exact .inl ⟨_, rfl, rfl⟩
      | some second =>
        unfold requireInput
        cases hkey : encapsulationKey.isEmpty with
        | true => exact .inl ⟨_, rfl, rfl⟩
        | false =>
          rcases Process.requireSeed_cases seed p.heap with ⟨hlength, rho, hrho, hok⟩ |
            ⟨hlength, why, herror⟩
          · have hpassed : decide ((seed.bytes p.heap).length ≠ seedLength) = false :=
              decide_eq_false (not_not_intro hlength)
            rw [hok, hpassed]
            exact .inr ⟨policy, rho, first, second, rfl, rfl, rfl, hrho, rfl, rfl⟩
          · have hfailed : decide ((seed.bytes p.heap).length ≠ seedLength) = true :=
              decide_eq_true hlength
            rw [herror, hfailed]
            exact .inl ⟨_, rfl, rfl⟩
  · rw [hcurrent, hnone]
    exact .inl ⟨_, rfl, rfl⟩

/-- The checks before a policy decapsulates. -/
theorem decapsulateRequest_cases (p : Process) (key : UInt64) (ciphertext : RawBuffer)
    (out : Option RawBuffer) :
    (∃ fault, p.decapsulateRequest key ciphertext out = .error fault ∧
      firstFailure? p (.decapsulate key ciphertext out) = some fault.code) ∨
    (∃ policy object raw, p.decapsulateRequest key ciphertext out =
        .ok (policy, object.seen, ciphertext.bytes p.heap) ∧
      firstFailure? p (.decapsulate key ciphertext out) = none ∧
      p.boundPolicy? = some policy ∧ p.lookup? globalRegistry ⟨key⟩ = some object ∧
      out = some raw) := by
  simp only [Process.decapsulateRequest, firstFailure?, checks]
  rcases p.currentPolicy_cases with ⟨policy, hbound, hcurrent⟩ | ⟨hnone, what, hcurrent⟩
  · rw [hcurrent, hbound]
    cases out with
    | none => exact .inl ⟨_, rfl, rfl⟩
    | some raw =>
      unfold requireInput
      cases hbytes : ciphertext.isEmpty with
      | true => exact .inl ⟨_, rfl, rfl⟩
      | false =>
        rcases p.privateKey_cases key with ⟨hnull, why, herror⟩ |
          ⟨hkey, hlookup, what, herror⟩ | ⟨hkey, object, hlookup, hok⟩
        · rw [herror, decide_eq_true hnull]
          exact .inl ⟨_, rfl, rfl⟩
        · rw [herror, decide_eq_false hkey, hlookup]
          exact .inl ⟨_, rfl, rfl⟩
        · rw [hok, decide_eq_false hkey, hlookup]
          exact .inr ⟨policy, object, raw, rfl, rfl, rfl, rfl, rfl⟩
  · rw [hcurrent, hnone]
    exact .inl ⟨_, rfl, rfl⟩

/-- The checks before a policy derives a public key. -/
theorem derivePublicRequest_cases (p : Process) (key : UInt64) (out : Option RawBuffer) :
    (∃ fault, p.derivePublicRequest key out = .error fault ∧
      firstFailure? p (.derivePublic key out) = some fault.code) ∨
    (∃ policy object raw, p.derivePublicRequest key out = .ok (policy, object.seen) ∧
      firstFailure? p (.derivePublic key out) = none ∧
      p.boundPolicy? = some policy ∧ p.lookup? globalRegistry ⟨key⟩ = some object ∧
      out = some raw) := by
  simp only [Process.derivePublicRequest, firstFailure?, checks]
  rcases p.currentPolicy_cases with ⟨policy, hbound, hcurrent⟩ | ⟨hnone, what, hcurrent⟩
  · rw [hcurrent, hbound]
    cases out with
    | none => exact .inl ⟨_, rfl, rfl⟩
    | some raw =>
      rcases p.privateKey_cases key with ⟨hnull, why, herror⟩ |
        ⟨hkey, hlookup, what, herror⟩ | ⟨hkey, object, hlookup, hok⟩
      · rw [herror, decide_eq_true hnull]
        exact .inl ⟨_, rfl, rfl⟩
      · rw [herror, decide_eq_false hkey, hlookup]
        exact .inl ⟨_, rfl, rfl⟩
      · rw [hok, decide_eq_false hkey, hlookup]
        exact .inr ⟨policy, object, raw, rfl, rfl, rfl, rfl, rfl⟩
  · rw [hcurrent, hnone]
    exact .inl ⟨_, rfl, rfl⟩

end KemCall

/-- The code of an outcome. -/
def Reply.code {α : Type} : Reply Fault α → Int32
  | .value _ => Code.success
  | .refusal fault => fault.code
  | .panic _ => Code.crypto

/-- What stands in the out-parameters `outs` after an outcome. -/
def Reply.fill (outs : List (Option RawBuffer)) : Reply Fault (List RawBuffer) →
    List (Option RawBuffer)
  | .value raws => raws.map some
  | .refusal _ | .panic _ => outs.map fun out => out.map fun _ => .empty

theorem KemError.code_toFault (e : KemError) : e.toFault.code = e.code := by
  cases e <;> rfl

theorem KemError.code_ne_success (e : KemError) : e.code ≠ Code.success := by
  cases e <;> simp only [KemError.code] <;> decide

namespace Process

/-- What handing over `outputs` does: if they can be held, the results carry them; if not, nothing
is left behind.  Nobody is called for that. -/
def HandsOver {β : Type} (p : Process) (outputs : List Bytes) (raws : β → List RawBuffer) :
    Except Fault β × Process → Prop
  | (.ok b, q) =>
      p.heap.canHold outputs = true ∧ q.calls = p.calls ∧ p.heap.Delivers q.heap outputs (raws b)
  | (.error fault, q) =>
      p.heap.canHold outputs = false ∧ q.calls = p.calls ∧ fault.code = Code.badArgument ∧
        p.heap.Delivers q.heap [] []

/-- One result. -/
theorem handsOver_handOver (p : Process) (bytes : Bytes) (secrecy : Secrecy) :
    p.HandsOver [bytes] ([·]) (p.handOver bytes secrecy) := by
  unfold handOver
  split <;> rename_i hcopy
  · obtain ⟨hdelivers, hhold⟩ := OwnedBuffer.delivers_copyFrom hcopy
    exact ⟨hhold [], rfl, hdelivers⟩
  · obtain ⟨hcode, hdelivers, hhold⟩ := OwnedBuffer.delivers_copyFrom_error hcopy
    exact ⟨hhold [], rfl, hcode, hdelivers⟩

/-- Two results, or none: the first is given back when the second cannot be held. -/
theorem handsOver_handOverPair (p : Process) (ciphertext secret : Bytes) :
    p.HandsOver [ciphertext, secret] (fun pair => [pair.1, pair.2])
      (p.handOverPair ciphertext secret) := by
  unfold handOverPair
  split <;> rename_i hfirst
  · obtain ⟨hcode, hdelivers, hhold⟩ := OwnedBuffer.delivers_copyFrom_error hfirst
    exact ⟨hhold [secret], rfl, hcode, hdelivers⟩
  · obtain ⟨hdelivers, hhold⟩ := OwnedBuffer.delivers_copyFrom hfirst
    split <;> rename_i hsecond
    · obtain ⟨hcode, hrefused, hnone⟩ := OwnedBuffer.delivers_copyFrom_error hsecond
      exact ⟨(hhold [secret]).trans (hnone []), rfl, hcode,
        OwnedBuffer.delivers_drop hdelivers hrefused⟩
    · obtain ⟨hmore, hboth⟩ := OwnedBuffer.delivers_copyFrom hsecond
      exact ⟨(hhold [secret]).trans (hboth []), rfl, OwnedBuffer.delivers_pair hdelivers hmore⟩

variable {p : Process} {α β : Type}

/-- What a policy did is settled: its answer is delivered, or nothing is and there is a code for the
failure. -/
structure Settles (p : Process) (reply : Reply KemError (List Bytes))
    (result : Reply Fault (List RawBuffer)) (q : Process) : Prop where
  calls : q.calls = p.calls
  code : result.code = reply.codeIn p.heap
  results :
    (∃ outputs raws, reply = .value outputs ∧ result = .value raws ∧
      p.heap.Delivers q.heap outputs raws) ∨
    (result.code ≠ Code.success ∧
      (∀ outs, result.fill outs = outs.map fun out => out.map fun _ => .empty) ∧
      p.heap.Delivers q.heap [] [])

/-- Settling a reply does so, if handing over its results does what it should. -/
theorem settles_settle {give : Process → α → Except Fault β × Process} {outputs : α → List Bytes}
    {raws : β → List RawBuffer} (hgive : ∀ a, p.HandsOver (outputs a) raws (give p a))
    (reply : Reply KemError α) :
    p.Settles (reply.map outputs) ((p.settle reply give).1.map raws) (p.settle reply give).2 := by
  cases reply with
  | value a =>
      have hgiven := hgive a
      simp only [settle, Reply.asFault]
      cases hresult : give p a with
      | mk result q =>
          rw [hresult] at hgiven
          cases result with
          | ok b =>
              obtain ⟨hhold, hcalls, hdelivers⟩ := hgiven
              exact ⟨hcalls, (if_pos hhold).symm, .inl ⟨_, _, rfl, rfl, hdelivers⟩⟩
          | error fault =>
              obtain ⟨hhold, hcalls, hcode, hdelivers⟩ := hgiven
              have hnot : ¬ p.heap.canHold (outputs a) = true := by
                rw [hhold]
                exact Bool.false_ne_true
              refine ⟨hcalls, hcode.trans (if_neg hnot).symm, .inr ⟨?_, fun _ => rfl, hdelivers⟩⟩
              exact fun hsuccess => absurd (hcode.symm.trans hsuccess) (by decide)
  | refusal e =>
      refine ⟨rfl, e.code_toFault, .inr ⟨fun hsuccess => ?_, fun _ => rfl, .refl _⟩⟩
      exact e.code_ne_success (e.code_toFault.symm.trans hsuccess)
  | panic message =>
      exact ⟨rfl, rfl, .inr ⟨(by decide : Code.crypto ≠ Code.success), fun _ => rfl, .refl _⟩⟩

/-- One result is settled. -/
theorem settles_handOver (p : Process) (reply : Reply KemError Bytes) (secrecy : Secrecy) :
    p.Settles (reply.map fun bytes => [bytes])
      ((p.settle reply fun p bytes => p.handOver bytes secrecy).1.map fun raw => [raw])
      (p.settle reply fun p bytes => p.handOver bytes secrecy).2 :=
  settles_settle (fun bytes => p.handsOver_handOver bytes secrecy) reply

/-- So are two. -/
theorem settles_handOverPair (p : Process) (reply : Reply KemError (Bytes × Bytes)) :
    p.Settles (reply.map fun pair => [pair.1, pair.2])
      ((p.settle reply fun p (ciphertext, secret) => p.handOverPair ciphertext secret).1.map
        fun pair => [pair.1, pair.2])
      (p.settle reply fun p (ciphertext, secret) => p.handOverPair ciphertext secret).2 :=
  settles_settle (fun pair => p.handsOver_handOverPair pair.1 pair.2) reply

end Process

namespace KemCall

open Process (settles_handOver settles_handOverPair)

variable {p : Process} {c : KemCall}

/-- A failing check is no success. -/
theorem firstFailure?_ne_success {code : Int32} (hf : c.firstFailure? p = some code) :
    code ≠ Code.success := by
  obtain ⟨check, hfind, rfl⟩ := Option.map_eq_some_iff.mp hf
  have hmem := List.mem_of_find?_eq_some hfind
  have hall : ∀ x ∈ c.checks p, x.2 = Code.badArgument ∨ x.2 = Code.notFound := by
    cases c <;> simp [checks]
  rcases hall check hmem with heq | heq <;> rw [heq] <;> decide

/-- A failing check ends the call. -/
theorem run_of_failure {code : Int32} (hf : c.firstFailure? p = some code) :
    ∃ q, c.run p = (⟨code, c.emptied⟩, q) ∧ q.calls = p.calls ∧ q.heap = p.heap := by
  cases c with
  | encapsulate encapsulationKey seed ciphertext secret =>
      rcases encapsulateRequest_cases p encapsulationKey seed ciphertext secret with
        ⟨fault, hrequest, hfirst⟩ | ⟨_, _, _, _, _, hnone, _⟩
      · cases hfirst.symm.trans hf
        refine ⟨p.report (.policyFailed KemEntry.encapsulateName fault), ?_, rfl, rfl⟩
        simp only [run, Process.encapsulate, Process.runEncapsulate, hrequest]
        rfl
      · cases hnone.symm.trans hf
  | decapsulate key ciphertext out =>
      rcases decapsulateRequest_cases p key ciphertext out with
        ⟨fault, hrequest, hfirst⟩ | ⟨_, _, _, _, hnone, _⟩
      · cases hfirst.symm.trans hf
        refine ⟨p.report (.policyFailed KemEntry.decapsulateName fault), ?_, rfl, rfl⟩
        simp only [run, Process.decapsulate, Process.runDecapsulate, hrequest]
        rfl
      · cases hnone.symm.trans hf
  | derivePublic key out =>
      rcases derivePublicRequest_cases p key out with
        ⟨fault, hrequest, hfirst⟩ | ⟨_, _, _, _, hnone, _⟩
      · cases hfirst.symm.trans hf
        refine ⟨p.report (.policyFailed KemEntry.derivePublicName fault), ?_, rfl, rfl⟩
        simp only [run, Process.derivePublic, Process.runDerivePublic, hrequest]
        rfl
      · cases hnone.symm.trans hf

/-- If no check fails, the policy is asked, and what it does is settled. -/
theorem run_of_passed (hf : c.firstFailure? p = none) :
    ∃ call reply result q, c.asked? p = some (call, reply) ∧
      (p.record call).Settles reply result q ∧
      (c.run p).1 = ⟨result.code, result.fill c.outs⟩ ∧
      (c.run p).2.calls = q.calls ∧ (c.run p).2.heap = q.heap := by
  cases c with
  | encapsulate encapsulationKey seed ciphertext secret =>
      rcases encapsulateRequest_cases p encapsulationKey seed ciphertext secret with
        ⟨_, _, hfirst⟩ | ⟨policy, rho, first, second, hrequest, -, hbound, hrho, rfl, rfl⟩
      · cases hfirst.symm.trans hf
      · have hsettles := settles_handOverPair
          (p.record (.encapsulate p.boundHandle (encapsulationKey.bytes p.heap) rho))
          (policy.encapsulate (encapsulationKey.bytes p.heap) rho)
        refine ⟨_, _, _, _, ?_, hsettles, ?_⟩
        · simp only [asked?, hbound, hrho]
          rfl
        · simp only [run, Process.encapsulate, Process.runEncapsulate, hrequest]
          generalize Process.settle _ _ _ = settled
          obtain ⟨reply, q⟩ := settled
          cases reply <;> exact ⟨rfl, rfl, rfl⟩
  | decapsulate key ciphertext out =>
      rcases decapsulateRequest_cases p key ciphertext out with
        ⟨_, _, hfirst⟩ | ⟨policy, object, raw, hrequest, -, hbound, hlookup, rfl⟩
      · cases hfirst.symm.trans hf
      · have hsettles := settles_handOver
          (p.record (.decapsulate p.boundHandle object.seen (ciphertext.bytes p.heap)))
          (policy.decapsulate object.seen (ciphertext.bytes p.heap)) .secret
        refine ⟨_, _, _, _, ?_, hsettles, ?_⟩
        · simp only [asked?, hbound, hlookup]
          rfl
        · simp only [run, Process.decapsulate, Process.runDecapsulate, hrequest]
          generalize Process.settle _ _ _ = settled
          obtain ⟨reply, q⟩ := settled
          cases reply <;> exact ⟨rfl, rfl, rfl⟩
  | derivePublic key out =>
      rcases derivePublicRequest_cases p key out with
        ⟨_, _, hfirst⟩ | ⟨policy, object, raw, hrequest, -, hbound, hlookup, rfl⟩
      · cases hfirst.symm.trans hf
      · have hsettles := settles_handOver
          (p.record (.derivePublic p.boundHandle object.seen)) (policy.derivePublic object.seen)
          .exposed
        refine ⟨_, _, _, _, ?_, hsettles, ?_⟩
        · simp only [asked?, hbound, hlookup]
          rfl
        · simp only [run, Process.derivePublic, Process.runDerivePublic, hrequest]
          generalize Process.settle _ _ _ = settled
          obtain ⟨reply, q⟩ := settled
          cases reply <;> exact ⟨rfl, rfl, rfl⟩

/-- Empty out-parameters hold no block. -/
theorem blocks_emptied (c : KemCall) (code : Int32) :
    (⟨code, c.emptied⟩ : KemReply).blocks = [] := by
  unfold KemReply.blocks emptied
  rw [List.filterMap_map, List.filterMap_eq_nil_iff]
  intro out _
  cases out <;> rfl

/-- Out-parameters that were filled hold the blocks of the results. -/
theorem blocks_filled (code : Int32) (raws : List RawBuffer) :
    (⟨code, raws.map some⟩ : KemReply).blocks = raws.filterMap (·.data.block?) := by
  unfold KemReply.blocks
  rw [List.filterMap_map]
  rfl

/-- A call that fails a check is lawful. -/
theorem lawful_of_failure {code : Int32} (hf : c.firstFailure? p = some code) : c.Lawful p := by
  obtain ⟨q, hrun, hcalls, hheap⟩ := run_of_failure hf
  constructor
  case refused =>
    intro code' hf'
    cases hf.symm.trans hf'
    rw [hrun]
    exact ⟨rfl, hcalls⟩
  case answered =>
    intro hnone
    cases hf.symm.trans hnone
  case emptied =>
    intro _
    rw [hrun]
  case delivered =>
    intro hsuccess
    rw [hrun] at hsuccess
    exact absurd hsuccess (firstFailure?_ne_success hf)
  case live =>
    rw [hrun, blocks_emptied, List.append_nil]
    exact congrArg Heap.live hheap
  case kept =>
    intro id _
    rw [hrun]
    exact congrArg (Heap.block? · id) hheap

/-- So is a call that passes them all. -/
theorem lawful_of_passed (hf : c.firstFailure? p = none) : c.Lawful p := by
  obtain ⟨call, reply, result, q, hasked, hsettles, hreply, hcalls, hheap⟩ := run_of_passed hf
  have hcode : (c.run p).1.code = reply.codeIn p.heap := by
    rw [hreply]
    exact hsettles.code
  have hcalled : (c.run p).2.calls = call :: p.calls := hcalls.trans hsettles.calls
  have hrefused : ∀ code, c.firstFailure? p = some code →
      (c.run p).1.code = code ∧ (c.run p).2.calls = p.calls :=
    fun _ hsome => nomatch hf.symm.trans hsome
  rcases hsettles.results with ⟨outputs, raws, rfl, rfl, hdelivers⟩ | ⟨hfailed, hempty, hdelivers⟩
  · refine ⟨hrefused, fun _ => ⟨call, _, hasked, hcalled, hcode⟩, fun hfailed => ?_, fun _ => ?_,
      ?_, ?_⟩
    · rw [hreply] at hfailed
      exact absurd rfl hfailed
    · refine ⟨call, outputs, hasked, ?_⟩
      rw [hreply, hheap, ← hdelivers.bytes]
      simp only [Reply.fill, List.map_map]
      rfl
    · rw [hreply, hheap]
      exact hdelivers.live.trans (congrArg _ (blocks_filled _ raws).symm)
    · rw [hheap]
      exact hdelivers.kept
  · have houts : (c.run p).1 = ⟨result.code, c.emptied⟩ := by
      rw [hreply, hempty]
      rfl
    refine ⟨hrefused, fun _ => ⟨call, reply, hasked, hcalled, hcode⟩, fun _ => ?_,
      fun hsuccess => ?_, ?_, ?_⟩
    · rw [houts]
    · rw [houts] at hsuccess
      exact absurd hsuccess hfailed
    · rw [houts, hheap, blocks_emptied]
      exact hdelivers.live
    · rw [hheap]
      exact hdelivers.kept

/-- Every call of an entry point for key encapsulation is lawful: whatever the slot and the
registries hold, whatever the policy does, whatever the arguments are and whichever request the
allocator refuses. -/
theorem lawful (p : Process) (c : KemCall) : c.Lawful p := by
  cases hf : c.firstFailure? p with
  | some code => exact lawful_of_failure hf
  | none => exact lawful_of_passed hf

/-- A policy that encapsulates to one byte for each of its results. -/
def oneByteEach : Policy where
  encapsulate := fun _ _ => .value ([1], [2])
  decapsulate := Policy.unsupported.decapsulate
  derivePublic := Policy.unsupported.derivePublic

/-- A process with that policy bound, and with memory for one more block. -/
def shortOfMemory : Process :=
  let p := (({} : Process).bind oneByteEach).2
  p.setHeap { p.heap with granted := some 1 }

/-- The ciphertext was made, but there is no block for the shared secret. -/
example :
    let (reply, p) := KemCall.run shortOfMemory
      (.encapsulate ⟨.host [7], 1⟩ ⟨.host (Bytes.zeros 32), 32⟩ (some .empty) (some .empty))
    reply.code = Code.badArgument ∧ p.calls.length = 1 ∧ p.heap.next = 1 ∧ p.heap.live = [] := by
  decide

end KemCall

end NativeBoundary

import NativeBoundary.Kem.Agreement
import NativeBoundary.Proofs.Kem.Outcomes

/-!
# Key agreement through the entry points

The two sides of a key encapsulation derive one secret from different data.  The sender has the
ephemeral scalar and the encapsulation key; the recipient has the private key and the ciphertext.
Both need the point that the two scalars agree on, and both bind the secret to the ciphertext
followed by the encapsulation key.

That scalars agree is a property of the curve.  Here it is asked only of the two scalars at hand
(`Curve25519.Agree`): everything else is about which of the data reaches which side, across the
three entry points, the registry of private keys and native memory.

* `Agreement.encapsulate_eq`, `Agreement.decapsulate_eq` — what each side derives;
* `KemCall.yields_of_answer` — an answer of a policy reaches native code if memory can hold it;
* `KemCall.agreement` — a shared secret that native code is handed by one entry point is the one
  that it gets back from another.
-/

namespace NativeBoundary

/-- Two scalars agree: each of them with the public key of the other gives the same point. -/
def Curve25519.Agree (a b : Bytes32) : Prop := x25519 a (publicKey b) = x25519 b (publicKey a)

instance (a b : Bytes32) : Decidable (Curve25519.Agree a b) :=
  inferInstanceAs (Decidable (_ = _))

namespace Agreement

open Curve25519

theorem point_val (p : Bytes32) (what : String) : point p.val what = .ok p := by
  have hlength : p.val.length = 32 := p.property
  unfold point Bytes.to32?
  rw [dif_pos hlength]

/-- The point that a sender derives the shared secret from. -/
def agreed (encapsulationKey seed : Bytes32) : Bytes32 :=
  x25519 (ephemeral encapsulationKey seed) encapsulationKey

/-- The ciphertext of a sender. -/
def ciphertextFor (encapsulationKey seed : Bytes32) : Bytes32 :=
  publicKey (ephemeral encapsulationKey seed)

/-- The shared secret of a sender. -/
def secretFor (encapsulationKey seed : Bytes32) : Bytes32 :=
  sharedSecret (agreed encapsulationKey seed) (ciphertextFor encapsulationKey seed) encapsulationKey

theorem encapsulate_eq (encapsulationKey seed : Bytes32) :
    encapsulate encapsulationKey.val seed =
      if isZero (agreed encapsulationKey seed) then
        .error (.crypto "encapsulation key is a low-order point")
      else .ok ((ciphertextFor encapsulationKey seed).val, (secretFor encapsulationKey seed).val) := by
  unfold encapsulate secretFor ciphertextFor agreed
  simp only [point_val, bind, Except.bind]

/-- The recipient derives what the sender derived, if their scalars agree and the point that they
agree on is not zero. -/
theorem decapsulate_eq {key : X25519Key} {seed : Bytes32}
    (hagree : Agree (ephemeral key.encapsulationKey seed) key.secret)
    (hpoint : isZero (agreed key.encapsulationKey seed) = false) :
    decapsulate (.key key) (ciphertextFor key.encapsulationKey seed).val =
      .ok (secretFor key.encapsulationKey seed).val := by
  have hsame : x25519 key.secret (ciphertextFor key.encapsulationKey seed) =
      agreed key.encapsulationKey seed := hagree.symm
  unfold decapsulate secretFor
  simp only [keyOf, point_val, bind, Except.bind, hsame, hpoint, Bool.false_eq_true, if_false]

end Agreement

/-- A buffer that carries a key is not empty. -/
theorem RawBuffer.isEmpty_of_key {raw : RawBuffer} {h : Heap} {key : Bytes32}
    (hbytes : raw.bytes h = key.val) : raw.isEmpty = false := by
  cases hempty : raw.isEmpty with
  | false => rfl
  | true =>
      have hnone : raw.bytes h = [] := by
        unfold bytes length
        rw [if_pos hempty, Pointer.read_zero]
      have hlength := key.property
      rw [← hbytes, hnone] at hlength
      cases hlength

namespace KemCall

variable {p : Process} {c : KemCall} {call : HostCall}

/-- A call succeeds, and its out-parameters carry these byte strings. -/
def Yields (p : Process) (c : KemCall) (outputs : List Bytes) : Prop :=
  (c.run p).1.code = Code.success ∧
    (c.run p).1.outs.map (Option.map (RawBuffer.bytes · (c.run p).2.heap)) = outputs.map some

/-- What a policy answers reaches native code, if there is memory for it. -/
theorem yields_of_answer {outputs : List Bytes} (hpassed : c.firstFailure? p = none)
    (hasked : c.asked? p = some (call, .value outputs)) (hheld : p.heap.canHold outputs = true) :
    c.Yields p outputs := by
  have hlawful := lawful_of_passed hpassed
  obtain ⟨call', reply, hasked', -, hcode⟩ := hlawful.answered hpassed
  cases hasked.symm.trans hasked'
  have hsuccess : (c.run p).1.code = Code.success := by
    rw [hcode, Reply.codeIn, if_pos hheld]
  obtain ⟨_, outputs', hasked'', houts⟩ := hlawful.delivered hsuccess
  cases hasked.symm.trans hasked''
  exact ⟨hsuccess, houts⟩

/-- What a policy refuses is told by its code. -/
theorem code_of_refusal {e : KemError} (hpassed : c.firstFailure? p = none)
    (hasked : c.asked? p = some (call, .refusal e)) : (c.run p).1.code = e.code := by
  obtain ⟨_, reply, hasked', -, hcode⟩ := (lawful_of_passed hpassed).answered hpassed
  cases hasked.symm.trans hasked'
  exact hcode

/-- The bytes of keys and secrets fit native memory, if the allocator grants the blocks. -/
theorem canHold_keys {h : Heap} (keys : List Bytes32)
    (hgrants : h.grants (keys.map fun _ => 32) = true) :
    h.canHold (keys.map Subtype.val) = true := by
  apply Heap.canHold_of_grants
  · intro bytes hbytes
    obtain ⟨key, -, rfl⟩ := List.mem_map.mp hbytes
    have hlength : key.val.length = 32 := key.property
    refine ⟨fun hnil => ?_, ?_⟩
    · rw [hnil] at hlength
      cases hlength
    · rw [hlength]
      decide
  · rw [List.map_map, List.map_congr_left (g := fun _ => 32) fun key _ => key.property]
    exact hgrants

end KemCall

/-- A process in which native code can use a private key: the policy of the thread is key
agreement, and the key is registered under an opaque pointer. -/
structure Process.Offers (p : Process) (pointer : UInt64) (key : X25519Key) : Prop where
  policy : p.boundPolicy? = some Agreement.policy
  notNull : pointer ≠ 0
  key : p.lookup? globalRegistry ⟨pointer⟩ = some (.value (.key key))

namespace KemCall

variable {p : Process} {pointer : UInt64} {key : X25519Key} {rho : Bytes32}

/-- Deriving the public key of a private key yields its encapsulation key. -/
theorem yields_derivePublic (ho : p.Offers pointer key) {out : Option RawBuffer}
    (hout : out.isSome) (hgrants : p.heap.grants [32] = true) :
    (derivePublic pointer out).Yields p [key.encapsulationKey.val] := by
  obtain ⟨raw, rfl⟩ := Option.isSome_iff_exists.mp hout
  apply yields_of_answer
  · simp [firstFailure?, checks, ho.policy, ho.notNull, ho.key]
  · simp only [asked?, ho.policy, ho.key]
    rfl
  · exact canHold_keys [key.encapsulationKey] hgrants

/-- Decapsulating yields the secret of the sender, if the scalars agree. -/
theorem yields_decapsulate (ho : p.Offers pointer key)
    (hagree : Curve25519.Agree (Agreement.ephemeral key.encapsulationKey rho) key.secret)
    (hpoint : Agreement.isZero (Agreement.agreed key.encapsulationKey rho) = false)
    {ciphertext : RawBuffer} {out : Option RawBuffer}
    (hbytes : ciphertext.bytes p.heap =
      (Agreement.ciphertextFor key.encapsulationKey rho).val)
    (hout : out.isSome) (hgrants : p.heap.grants [32] = true) :
    (decapsulate pointer ciphertext out).Yields p
      [(Agreement.secretFor key.encapsulationKey rho).val] := by
  obtain ⟨raw, rfl⟩ := Option.isSome_iff_exists.mp hout
  have hfull := RawBuffer.isEmpty_of_key hbytes
  apply yields_of_answer
  · simp [firstFailure?, checks, ho.policy, ho.notNull, ho.key, hfull]
  · simp only [asked?, ho.policy, ho.key, hbytes]
    change some (_, (Agreement.reply (Agreement.decapsulate (.key key) _)).map _) = _
    rw [Agreement.decapsulate_eq hagree hpoint]
    rfl
  · exact canHold_keys [Agreement.secretFor key.encapsulationKey rho] hgrants

section

variable {encapsulationKey seed : RawBuffer} {ciphertext secret : Option RawBuffer} {ek : Bytes32}

/-- A call to encapsulate in which native code passes a key and a seed, and asks for both
results. -/
structure Encapsulates (p : Process) (encapsulationKey seed : RawBuffer)
    (ciphertext secret : Option RawBuffer) (ek rho : Bytes32) : Prop where
  policy : p.boundPolicy? = some Agreement.policy
  key : encapsulationKey.bytes p.heap = ek.val
  seed : seed.bytes p.heap = rho.val
  ciphertext : ciphertext.isSome
  secret : secret.isSome

theorem Encapsulates.passed (he : Encapsulates p encapsulationKey seed ciphertext secret ek rho) :
    firstFailure? p (.encapsulate encapsulationKey seed ciphertext secret) = none := by
  obtain ⟨first, hfirst⟩ := Option.isSome_iff_exists.mp he.ciphertext
  obtain ⟨second, hsecond⟩ := Option.isSome_iff_exists.mp he.secret
  have hfull := RawBuffer.isEmpty_of_key he.key
  have hseed : (seed.bytes p.heap).length = seedLength := by
    rw [he.seed]
    exact rho.property
  simp [firstFailure?, checks, he.policy, hfirst, hsecond, hfull, hseed]

theorem Encapsulates.asked (he : Encapsulates p encapsulationKey seed ciphertext secret ek rho) :
    asked? p (.encapsulate encapsulationKey seed ciphertext secret) =
      some (.encapsulate p.boundHandle ek.val rho,
        if Agreement.isZero (Agreement.agreed ek rho) then
          .refusal (.crypto "encapsulation key is a low-order point")
        else .value [(Agreement.ciphertextFor ek rho).val, (Agreement.secretFor ek rho).val]) := by
  have hrho : (seed.bytes p.heap).to32? = some rho := by
    rw [he.seed]
    exact dif_pos rho.property
  simp only [asked?, he.policy, he.key, hrho]
  change some (_, (Agreement.reply (Agreement.encapsulate ek.val rho)).map _) = _
  rw [Agreement.encapsulate_eq]
  cases Agreement.isZero (Agreement.agreed ek rho) with
  | true => rfl
  | false => rfl

/-- A sender whose point is zero is refused. -/
theorem Encapsulates.refused (he : Encapsulates p encapsulationKey seed ciphertext secret ek rho)
    (hpoint : Agreement.isZero (Agreement.agreed ek rho) = true) :
    (run p (.encapsulate encapsulationKey seed ciphertext secret)).1.code = Code.crypto := by
  have hasked := he.asked
  rw [if_pos hpoint] at hasked
  exact code_of_refusal he.passed hasked

/-- Every other sender gets a ciphertext and a secret. -/
theorem Encapsulates.yields (he : Encapsulates p encapsulationKey seed ciphertext secret ek rho)
    (hpoint : Agreement.isZero (Agreement.agreed ek rho) = false)
    (hgrants : p.heap.grants [32, 32] = true) :
    Yields p (.encapsulate encapsulationKey seed ciphertext secret)
      [(Agreement.ciphertextFor ek rho).val, (Agreement.secretFor ek rho).val] := by
  have hasked := he.asked
  rw [hpoint, if_neg Bool.false_ne_true] at hasked
  apply yields_of_answer he.passed hasked
  exact canHold_keys [Agreement.ciphertextFor ek rho, Agreement.secretFor ek rho] hgrants

end

/-- For a private key and a seed whose scalars agree: deriving the public key yields 32 bytes, and
encapsulating to these fails exactly when the agreed point is zero.  Otherwise it yields a
ciphertext and a shared secret of 32 bytes each, and wherever the private key is offered, the
ciphertext decapsulates to that secret. -/
theorem agreement {key : X25519Key} {rho : Bytes32}
    (hagree : Curve25519.Agree (Agreement.ephemeral key.encapsulationKey rho) key.secret) :
    (∀ (p : Process) (pointer : UInt64) (out : Option RawBuffer), p.Offers pointer key →
      out.isSome → p.heap.grants [32] = true →
      Yields p (.derivePublic pointer out) [key.encapsulationKey.val]) ∧
    ∀ (q : Process) (encapsulationKey seed : RawBuffer) (ciphertext secret : Option RawBuffer),
      Encapsulates q encapsulationKey seed ciphertext secret key.encapsulationKey rho →
      q.heap.grants [32, 32] = true →
      ((run q (.encapsulate encapsulationKey seed ciphertext secret)).1.code = Code.crypto ↔
        Agreement.isZero (Curve25519.x25519 (Agreement.ephemeral key.encapsulationKey rho)
          key.encapsulationKey) = true) ∧
      ((run q (.encapsulate encapsulationKey seed ciphertext secret)).1.code ≠ Code.crypto →
        ∃ ct ss : Bytes, ct.length = 32 ∧ ss.length = 32 ∧
          Yields q (.encapsulate encapsulationKey seed ciphertext secret) [ct, ss] ∧
          ∀ (r : Process) (pointer : UInt64) (raw : RawBuffer) (out : Option RawBuffer),
            r.Offers pointer key → raw.bytes r.heap = ct → out.isSome →
            r.heap.grants [32] = true → Yields r (.decapsulate pointer raw out) [ss]) := by
  refine ⟨fun p pointer out ho hout hgrants => yields_derivePublic ho hout hgrants, ?_⟩
  intro q encapsulationKey seed ciphertext secret he hgrants
  change (_ ↔ Agreement.isZero (Agreement.agreed key.encapsulationKey rho) = true) ∧ _
  cases hpoint : Agreement.isZero (Agreement.agreed key.encapsulationKey rho) with
  | true =>
      have hcode := he.refused hpoint
      exact ⟨iff_of_true hcode rfl, fun hother => absurd hcode hother⟩
  | false =>
      have hyields := he.yields hpoint hgrants
      have hcode : (run q (.encapsulate encapsulationKey seed ciphertext secret)).1.code ≠
          Code.crypto := by
        rw [hyields.1]
        decide
      refine ⟨iff_of_false hcode Bool.false_ne_true, fun _ => ?_⟩
      refine ⟨_, _, (Agreement.ciphertextFor key.encapsulationKey rho).property,
        (Agreement.secretFor key.encapsulationKey rho).property, hyields, ?_⟩
      intro r pointer raw out ho hraw hout hroom
      exact yields_decapsulate ho hagree hpoint hraw hout hroom

/-- A private key. -/
def sevens : X25519Key := ⟨⟨List.replicate 32 7, rfl⟩⟩

/-- A seed. -/
def ones : Bytes32 := ⟨List.replicate 32 1, rfl⟩

/-- A process with key agreement bound and the private key registered. -/
def offering : Process :=
  ((({} : Process).bind Agreement.policy).2.register globalRegistry (.value (.key sevens))).2

/-- Host bytes as native code passes them in. -/
def lent (bytes : Bytes) : RawBuffer := ⟨.host bytes, Int32.ofNat bytes.length⟩

theorem agreement_sevens :
    Curve25519.Agree (Agreement.ephemeral sevens.encapsulationKey ones) sevens.secret ∧
      offering.Offers (Handle.issue 1).toPointer sevens ∧
      Yields offering (.derivePublic (Handle.issue 1).toPointer (some .empty))
        [sevens.encapsulationKey.val] ∧
      ∃ ct ss : Bytes,
        Yields offering (.encapsulate (lent sevens.encapsulationKey.val) (lent ones.val)
          (some .empty) (some .empty)) [ct, ss] ∧
        Yields offering (.decapsulate (Handle.issue 1).toPointer (lent ct) (some .empty)) [ss] := by
  obtain ⟨hagree, hpoint⟩ :
      Curve25519.Agree (Agreement.ephemeral sevens.encapsulationKey ones) sevens.secret ∧
        ¬ Agreement.isZero (Curve25519.x25519
          (Agreement.ephemeral sevens.encapsulationKey ones) sevens.encapsulationKey) = true := by
    decide +kernel
  have hlent : ∀ (bytes : Bytes) (h : Heap), bytes.length = 32 → (lent bytes).bytes h = bytes := by
    intro bytes h hlength
    unfold lent RawBuffer.bytes RawBuffer.length RawBuffer.isEmpty
    rw [hlength]
    exact List.take_of_length_le (Nat.le_of_eq hlength)
  have hoffers : offering.Offers (Handle.issue 1).toPointer sevens := ⟨rfl, by decide, rfl⟩
  have hpasses : Encapsulates offering (lent sevens.encapsulationKey.val) (lent ones.val)
      (some .empty) (some .empty) sevens.encapsulationKey ones :=
    ⟨rfl, hlent _ _ sevens.encapsulationKey.property, hlent _ _ ones.property, rfl, rfl⟩
  obtain ⟨hderives, hencapsulates⟩ := agreement hagree
  obtain ⟨hcrypto, hyields⟩ := hencapsulates offering _ _ _ _ hpasses (by decide)
  obtain ⟨ct, ss, hct, -, hboth, hdecapsulates⟩ := hyields fun hcode => hpoint (hcrypto.mp hcode)
  refine ⟨hagree, hoffers, hderives offering _ _ hoffers rfl (by decide), ct, ss, hboth, ?_⟩
  exact hdecapsulates offering _ _ _ hoffers (hlent ct _ hct) rfl (by decide)

end KemCall

end NativeBoundary

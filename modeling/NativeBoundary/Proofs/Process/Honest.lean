import NativeBoundary.Proofs.Memory.Faithful
import NativeBoundary.Proofs.Process.Operations

/-!
# Empty buffers hold nothing

Copying a raw buffer out releases its block only when the buffer counts as nonempty: a null pointer
or a size that is not positive means that there is nothing to release.  That is safe because every
raw buffer that the host has handed out, and every buffer that came back unchanged, either has no
block or says that it has at least one byte.  Only a buffer that native code made by itself can be
different.

`Ledger.honest_history` states this for every run in which native code makes no buffers of its own.
-/

namespace NativeBoundary

/-- A block of a buffer has at least one byte, and its length fits the size field. -/
def OwnedBuffer.Honest (b : OwnedBuffer) : Prop :=
  b.block?.isSome → 0 < b.length ∧ b.length ≤ nativeSizeLimit

/-- A raw buffer with a block does not count as empty. -/
def RawBuffer.Honest (raw : RawBuffer) : Prop := raw.data.block?.isSome → raw.isEmpty = false

/-- What a holder says of its buffer. -/
def Holder.Honest : Holder → Prop
  | .buffer b => b.Honest
  | .rawBuffer raw => raw.Honest
  | _ => True

theorem RawBuffer.honest_empty : RawBuffer.empty.Honest := fun h => by cases h

namespace OwnedBuffer

variable {b : OwnedBuffer}

theorem Honest.raw (hb : b.Honest) : b.raw.Honest := by
  intro hblock
  unfold OwnedBuffer.raw at hblock ⊢
  split at hblock
  · rename_i id hid
    obtain ⟨hpos, hlimit⟩ := hb (by simp [hid])
    have hsize : ¬ Int32.ofNat b.length ≤ 0 := by
      intro hle
      have hint : (Int32.ofNat b.length).toInt ≤ 0 := Int32.le_iff_toInt_le.mp hle
      have hnat := toNat_ofNat_of_le hlimit
      omega
    simp [RawBuffer.isEmpty, Pointer.isNull, hsize]
  · cases hblock

theorem honest_adopt {raw : RawBuffer} (hraw : raw.Honest) : (adopt raw).Honest := by
  intro hblock
  unfold adopt at hblock ⊢
  split at hblock
  · rename_i id hid
    have hfull := hraw (by simp [hid])
    have hsize : ¬ raw.size ≤ 0 := by
      intro hle
      simp [RawBuffer.isEmpty, hle] at hfull
    have hint : ¬ raw.size.toInt ≤ 0 := fun hle => hsize (Int32.le_iff_toInt_le.mpr hle)
    exact ⟨by simp only; omega, toNat_le_limit raw.size⟩
  · cases hblock

theorem honest_copyFrom {bytes : Bytes} {secrecy : Secrecy} {h h' : Heap}
    (hc : copyFrom bytes secrecy h = (.ok b, h')) : b.Honest := by
  intro hblock
  cases copying_of_copyFrom hc with
  | empty hnone => cases hblock
  | block hsome hfits hgranted => exact ⟨List.length_pos_iff.mpr hsome, hfits⟩

end OwnedBuffer

/-- Everybody among some holders is honest. -/
def AllHonest (holders : List Holder) : Prop := ∀ x ∈ holders, x.Honest

theorem allHonest_nil : AllHonest [] := fun _ hx => by cases hx

theorem AllHonest.append {xs ys : List Holder} (hxs : AllHonest xs) (hys : AllHonest ys) :
    AllHonest (xs ++ ys) := by
  intro x hx
  rcases List.mem_append.mp hx with hx | hx
  · exact hxs x hx
  · exact hys x hx

/-- A holder of anything but a buffer. -/
theorem allHonest_inBatch (out : Option RawBatch) : AllHonest (inBatch out) := by
  intro x hx
  obtain ⟨raw, -, rfl⟩ := List.mem_map.mp hx
  trivial

theorem allHonest_inBuffer {out : Option RawBuffer} (hout : ∀ raw, out = some raw → raw.Honest) :
    AllHonest (inBuffer out) := by
  intro x hx
  obtain ⟨raw, hraw, rfl⟩ := List.mem_map.mp hx
  exact hout raw (Option.mem_toList.mp hraw)

namespace Process

variable {p p' : Process}

theorem honest_handOver {bytes : Bytes} {secrecy : Secrecy} {raw : RawBuffer}
    (hc : p.handOver bytes secrecy = (.ok raw, p')) : raw.Honest := by
  obtain ⟨b, h, hcopy, rfl, -⟩ := handOver_ok hc
  exact (OwnedBuffer.honest_copyFrom hcopy).raw

theorem honest_handOverPair {ciphertext secret : Bytes} {pair : RawBuffer × RawBuffer}
    (hc : p.handOverPair ciphertext secret = (.ok pair, p')) :
    pair.1.Honest ∧ pair.2.Honest := by
  obtain ⟨first, second, h, h', hfirst, hsecond, rfl, -⟩ := handOverPair_ok hc
  exact ⟨(OwnedBuffer.honest_copyFrom hfirst).raw, (OwnedBuffer.honest_copyFrom hsecond).raw⟩

/-- An outcome that is a result was handed over last. -/
theorem settle_value {α β : Type} {reply : Reply KemError α}
    {give : Process → α → Except Fault β × Process} {b : β} {q : Process}
    (hc : p.settle reply give = (.value b, q)) : ∃ a, give p a = (.ok b, q) := by
  unfold settle at hc
  split at hc
  · split at hc
    · rename_i hgive
      cases hc
      exact ⟨_, hgive⟩
    · cases hc
  · cases hc
  · cases hc

/-- What an entry point leaves in an out-parameter is its result, or nothing. -/
theorem allHonest_filled {reply : Reply Fault RawBuffer} (out : Option RawBuffer)
    (hreply : ∀ raw, reply = .value raw → raw.Honest) :
    AllHonest (inBuffer (filled out reply)) := by
  refine allHonest_inBuffer fun raw hraw => ?_
  cases reply with
  | value result =>
      obtain ⟨old, -, rfl⟩ := Option.map_eq_some_iff.mp hraw
      exact hreply result rfl
  | refusal fault =>
      obtain ⟨old, -, rfl⟩ := Option.map_eq_some_iff.mp hraw
      exact RawBuffer.honest_empty
  | panic message =>
      obtain ⟨old, -, rfl⟩ := Option.map_eq_some_iff.mp hraw
      exact RawBuffer.honest_empty

theorem allHonest_encapsulate (p : Process) (encapsulationKey seed : RawBuffer)
    (ciphertext secret : Option RawBuffer) :
    AllHonest (inBuffer (p.encapsulate encapsulationKey seed ciphertext secret).1.ciphertext ++
      inBuffer (p.encapsulate encapsulationKey seed ciphertext secret).1.secret) := by
  have hpair : ∀ pair, (p.runEncapsulate encapsulationKey seed ciphertext secret).1 =
      .value pair → pair.1.Honest ∧ pair.2.Honest := by
    intro pair hvalue
    unfold runEncapsulate at hvalue
    split at hvalue
    · cases hvalue
    · obtain ⟨results, hgive⟩ := settle_value (Prod.ext hvalue rfl)
      exact honest_handOverPair hgive
  unfold encapsulate
  revert hpair
  generalize p.runEncapsulate encapsulationKey seed ciphertext secret = result
  obtain ⟨reply, q⟩ := result
  intro hpair
  refine .append (allHonest_filled ciphertext fun raw hraw => ?_)
    (allHonest_filled secret fun raw hraw => ?_)
  · cases reply <;> cases hraw
    exact (hpair _ rfl).1
  · cases reply <;> cases hraw
    exact (hpair _ rfl).2

theorem allHonest_decapsulate (p : Process) (key : UInt64) (ciphertext : RawBuffer)
    (out : Option RawBuffer) : AllHonest (inBuffer (p.decapsulate key ciphertext out).1.out) := by
  refine allHonest_filled out fun raw hvalue => ?_
  split at hvalue
  · cases hvalue
  · obtain ⟨secret, hgive⟩ := settle_value (Prod.ext hvalue rfl)
    exact honest_handOver hgive

theorem allHonest_derivePublic (p : Process) (key : UInt64) (out : Option RawBuffer) :
    AllHonest (inBuffer (p.derivePublic key out).1.out) := by
  refine allHonest_filled out fun raw hvalue => ?_
  split at hvalue
  · cases hvalue
  · obtain ⟨encapsulationKey, hgive⟩ := settle_value (Prod.ext hvalue rfl)
    exact honest_handOver hgive

theorem honest_receiveBuffer {id : TransportId} {sender : Nat} {raw : RawBuffer}
    (hc : (p.receiveBuffer id sender).1 = .value raw) : raw.Honest := by
  unfold receiveBuffer at hc
  simp only at hc
  split at hc
  · cases hc
  · cases hc
  · split at hc
    · rename_i hcopy
      cases hc
      exact (OwnedBuffer.honest_copyFrom hcopy).raw
    · cases hc

/-- A message that was received is the result of asking the transport. -/
theorem runReceive_value (p : Process) (context : UInt64) (sender : Int32)
    (out : Option RawBuffer) :
    (p.runReceive context sender out).1 ≠ .value () ∨
      ∃ id party raw, (p.receiveBuffer id party).1 = .value raw ∧
        (p.runReceive context sender out).2.1 = some raw := by
  unfold runReceive
  split
  · exact .inl nofun
  · exact .inl nofun
  · split
    · exact .inl nofun
    · split
      · rename_i raw q hresult
        exact .inr ⟨_, _, raw, congrArg Prod.fst hresult, rfl⟩
      · exact .inl nofun
      · exact .inl nofun

theorem allHonest_receive (p : Process) (context : UInt64) (sender : Int32)
    (out : Option RawBuffer) : AllHonest (p.transportReceive context sender out).1.given := by
  have hcases := given_cases (p.runReceive context sender out).2.2 TransportEntry.receiveName
    (fun _ => p.runReceive_unresolved context sender out)
    (p.runReceive_leftover context sender out)
  unfold ReceiveReply.given
  split
  · rename_i hcode
    refine allHonest_inBuffer fun raw hraw => ?_
    rcases hcases with hvalue | hfailed | hempty
    · rcases p.runReceive_value context sender out with hnot | ⟨id, party, got, hgot, hmessage⟩
      · exact absurd hvalue hnot
      · cases hmessage.symm.trans hraw
        exact honest_receiveBuffer hgot
    · exact absurd hcode hfailed
    · obtain ⟨old, -, rfl⟩ := Option.map_eq_some_iff.mp (hempty.symm.trans hraw)
      exact RawBuffer.honest_empty
  · exact allHonest_nil

theorem Callback.allHonest (p : Process) (c : Callback) :
    AllHonest (c.given (c.run p).1) := by
  cases c with
  | encapsulate encapsulationKey seed ciphertext secret =>
      exact p.allHonest_encapsulate encapsulationKey seed ciphertext secret
  | decapsulate key ciphertext out => exact p.allHonest_decapsulate key ciphertext out
  | derivePublic key out => exact p.allHonest_derivePublic key out
  | send context receiver message => exact allHonest_nil
  | receive context sender out => exact p.allHonest_receive context sender out
  | receiveAll context senders count out =>
      simp only [given, ReceiveAllReply.given]
      split
      · exact allHonest_inBatch _
      · exact allHonest_nil

end Process

/-- Whether native code makes a buffer of its own. -/
def Memory.Operation.isForeign : Memory.Operation → Bool
  | nativeBuffer _ _ => true
  | _ => false

/-- Whether native code makes a buffer of its own. -/
def Process.Operation.isForeign : Process.Operation → Bool
  | memory op => op.isForeign
  | _ => false

/-- An operation leaves honest holders behind, if whom it names is honest. -/
theorem Memory.Operation.allHonest (p : Process) {op : Memory.Operation}
    (hown : op.isForeign = false) (howner : ∀ x, op.owner? = some x → x.Honest) :
    AllHonest (op.effect p).gained := by
  have hplain : ∀ {x : Holder}, x.Honest → AllHonest [x] := by
    intro x hx y hy
    rwa [List.mem_singleton.mp hy]
  cases op with
  | copyBuffer bytes secrecy =>
      simp only [effect]
      split
      · rename_i hcopy
        exact hplain (OwnedBuffer.honest_copyFrom hcopy)
      · exact allHonest_nil
  | flagBuffer b wipePublic => exact hplain (x := .buffer _) (howner (.buffer b) rfl)
  | handBuffer b => exact hplain (x := .rawBuffer _) (OwnedBuffer.Honest.raw (howner _ rfl))
  | allocate bytes =>
      refine hplain (x := .rawBuffer _) ?_
      split
      · rename_i hcopy
        exact (OwnedBuffer.honest_copyFrom hcopy).raw
      · exact RawBuffer.honest_empty
  | adoptBuffer raw => exact hplain (x := .buffer _) (OwnedBuffer.honest_adopt (howner _ rfl))
  | takeBuffer raw =>
      simp only [effect]
      split
      · exact hplain (howner _ rfl)
      · exact allHonest_nil
  | nativeWrite x offset data => exact hplain (howner x rfl)
  | nativeBuffer content size => cases hown
  | createPool count blockSize =>
      simp only [effect]
      split
      · exact hplain trivial
      · exact allHonest_nil
  | acquire id =>
      simp only [effect]
      split
      · exact (hplain (x := .pool id) trivial).append (hplain trivial)
      · exact hplain trivial
  | acquireWith id data =>
      simp only [effect]
      split
      · exact (hplain (x := .pool id) trivial).append (hplain trivial)
      · exact hplain trivial
  | writeBlock b data =>
      simp only [effect]
      split <;> exact hplain trivial
  | copyBatch items secrecy =>
      simp only [effect]
      split
      · exact hplain trivial
      · exact allHonest_nil
  | adoptBatch raw =>
      simp only [effect]
      split
      · exact hplain trivial
      · exact allHonest_nil
  | openScope strategy pool? wipePublic =>
      refine (hplain (x := .scope _) trivial).append fun x hx => ?_
      obtain ⟨id, -, rfl⟩ := List.mem_map.mp hx
      trivial
  | sharePool id => exact (hplain (x := .pool id) trivial).append (hplain trivial)
  | handBatch _ | input _ _ _ | inputBatch _ _ | nativeBatch _ _ _ => exact hplain trivial
  | refuse _ | dropBuffer _ | discardBuffer _ | dropBatch _ | takeBatch _ | discardBatch _
  | dropPool _ | dropBlock _ | endScope _ => exact allHonest_nil

theorem Process.Operation.allHonest (p : Process) {op : Process.Operation}
    (hown : op.isForeign = false) (howner : ∀ x, op.owner? = some x → x.Honest) :
    AllHonest (op.effect p).gained := by
  have hplain : ∀ {x : Holder}, x.Honest → AllHonest [x] := by
    intro x hx y hy
    rwa [List.mem_singleton.mp hy]
  cases op with
  | memory op => exact op.allHonest p hown howner
  | createBridge c =>
      simp only [effect]
      split
      · exact hplain trivial
      · exact allHonest_nil
  | bridgePool b =>
      refine .append (fun x hx => ?_) (hplain trivial)
      obtain ⟨id, -, rfl⟩ := List.mem_map.mp hx
      trivial
  | shareBridge b => exact (hplain (x := .bridge b) trivial).append (hplain trivial)
  | bridgeScope b shape => exact (hplain (x := .scope _) trivial).append (hplain trivial)
  | call c => exact c.allHonest p
  | defaultBridge => exact hplain trivial
  | dropBridge _ | bind _ | unbind _ | setSlot _ | clearSlot | createRegistry
  | register _ _ | release _ _ | dropGuard _ | addTransport _ | addMesh _ | openTransport _
  | closeTransport _ => exact allHonest_nil

/-- In a run in which native code makes no buffers of its own, a raw buffer that counts as empty
has no block. -/
theorem Ledger.allHonest_history {ops : List Process.Operation}
    (hown : ∀ op ∈ ops, op.isForeign = false) : AllHonest (history ops).holders := by
  refine history_induction (P := fun s => AllHonest s.holders) allHonest_nil fun s op hop hs => ?_
  have hgained := fun howner => op.allHonest s.process (hown op hop) howner
  unfold Ledger.work Ledger.perform
  cases howner : op.owner? with
  | none =>
      rw [howner] at hgained
      exact (hgained nofun).append hs
  | some x =>
      simp only
      split
      · rename_i hx
        refine (hgained fun y hy => ?_).append fun y hy => hs y (List.mem_of_mem_erase hy)
        rw [howner] at hy
        cases hy
        exact hs x hx
      · exact hs

end NativeBoundary

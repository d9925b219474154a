import Mathlib.Algebra.Group.Nat.Defs
import NativeBoundary.Proofs.Process.Operations

/-!
# Issued handles

Handles are counted up from a seed, in sixty-four bits.  Until the counter wraps around, after
`Handle.room` registrations, no two handles are the same and none is null.

Every handle that is registered anywhere was given out by the counter before
(`Registries.Issued`), so the handle that is given out next is registered nowhere.  That holds in
every registry after every run of a process (`Ledger.issued_history`).
-/

namespace NativeBoundary

namespace Handle

/-- How many handles there are from the seed to the end of the counter. -/
def room : Nat := 2 ^ 64 - seed

variable {n k : Nat}

theorem toNat_issue (hn : n < room) : (issue n).id.toNat = seed + n := by
  have hlt : seed + n < 2 ^ 64 := by
    unfold room at hn
    omega
  unfold issue
  exact UInt64.toNat_ofNat_of_lt hlt

/-- No handle is given out twice. -/
theorem issue_injective (hn : n < room) (hk : k < room) (heq : issue n = issue k) : n = k := by
  have hnat := congrArg (fun h => h.id.toNat) heq
  simp only [toNat_issue hn, toNat_issue hk] at hnat
  omega

/-- No handle is null. -/
theorem issue_ne_null (hn : n < room) : (issue n).toPointer ≠ 0 := by
  intro heq
  have hnat := toNat_issue hn
  have hzero : (issue n).id = 0 := heq
  rw [hzero] at hnat
  have hpos : 0 < seed := by decide
  have hnone : (0 : UInt64).toNat = 0 := rfl
  omega

end Handle

namespace Registries

variable {rs : Registries} {r q : RegistryId} {handle : Handle}

/-- Every handle that is registered was given out. -/
def Issued (rs : Registries) : Prop :=
  ∀ r handle, (rs.lookup? r handle).isSome → ∃ n < rs.issued, handle = Handle.issue n

theorem issued_empty : Issued {} := by
  intro r handle hsome
  cases hsome

/-- The next handle is not registered yet. -/
theorem Issued.fresh (hi : rs.Issued) (hroom : rs.issued < Handle.room) (r : RegistryId) :
    rs.lookup? r (Handle.issue rs.issued) = none := by
  cases hl : rs.lookup? r (Handle.issue rs.issued) with
  | none => rfl
  | some object =>
      obtain ⟨n, hn, heq⟩ := hi r _ (by rw [hl]; rfl)
      have hsame := Handle.issue_injective hroom (Nat.lt_trans hn hroom) heq
      omega

theorem Issued.register (hi : rs.Issued) (r : RegistryId) (object : Object) :
    (rs.register r object).2.Issued := by
  intro q handle hsome
  rw [lookup?_register] at hsome
  by_cases hnew : q = r ∧ handle = Handle.issue rs.issued
  · exact ⟨rs.issued, Nat.lt_succ_self _, hnew.2⟩
  · rw [if_neg hnew] at hsome
    obtain ⟨n, hn, heq⟩ := hi q handle hsome
    exact ⟨n, Nat.lt_succ_of_lt hn, heq⟩

@[simp] theorem issued_release (rs : Registries) (r : RegistryId) (handle : Handle) :
    (rs.release r handle).2.issued = rs.issued := by
  unfold release
  split <;> rfl

theorem Issued.release (hi : rs.Issued) (r : RegistryId) (handle : Handle) :
    (rs.release r handle).2.Issued := by
  intro q other hsome
  rw [lookup?_release] at hsome
  rw [issued_release]
  by_cases hgone : q = r ∧ other = handle
  · rw [if_pos hgone] at hsome
    cases hsome
  · rw [if_neg hgone] at hsome
    exact hi q other hsome

/-- A registry that is made has no handles. -/
theorem Issued.create (hi : rs.Issued) : rs.create.2.Issued := hi

end Registries

namespace Process

variable {p : Process}

section

variable (p)

/-- Releasing a handle releases it from its registry. -/
theorem registries_releaseHandle (r : RegistryId) (handle : Handle) :
    (p.releaseHandle r handle).2.registries = (p.registries.release r handle).2 := by
  unfold releaseHandle
  cases hrelease : p.registries.release r handle with
  | mk object? registries =>
      cases object? with
      | some object => rfl
      | none =>
          unfold Registries.release at hrelease
          split at hrelease
          · cases hrelease
            rfl
          · cases hrelease

@[simp] theorem slot_releaseHandle (r : RegistryId) (handle : Handle) :
    (p.releaseHandle r handle).2.slot = p.slot := by
  unfold releaseHandle
  split <;> rfl

@[simp] theorem registries_dropObject (object : Object) :
    (p.dropObject object).registries = p.registries := by
  cases object <;> rfl

@[simp] theorem slot_dropObject (object : Object) : (p.dropObject object).slot = p.slot := by
  cases object <;> rfl

theorem registries_dropGuard (g : HandleGuard) :
    (p.dropGuard g).registries = (p.registries.release g.registry g.handle).2 := by
  have hreleased := p.registries_releaseHandle g.registry g.handle
  unfold dropGuard
  split <;> rename_i hresult <;> rw [hresult] at hreleased
  · rw [registries_dropObject]
    exact hreleased
  · exact hreleased

@[simp] theorem slot_dropGuard (g : HandleGuard) : (p.dropGuard g).slot = p.slot := by
  have hreleased := p.slot_releaseHandle g.registry g.handle
  unfold dropGuard
  split <;> rename_i hresult <;> rw [hresult] at hreleased
  · rw [slot_dropObject]
    exact hreleased
  · exact hreleased

@[simp] theorem registries_setSlot (pointer : UInt64) :
    (p.setSlot pointer).registries = p.registries := by
  unfold setSlot
  simp only
  split <;> rfl

theorem registries_unbind (b : Binding) :
    (p.unbind b).registries = (p.registries.release globalRegistry b.handle).2 := by
  rw [unbind_eq, registries_dropGuard]
  split <;> rfl

/-- The end of a binding clears the slot only while it holds that binding. -/
theorem slot_unbind (b : Binding) :
    (p.unbind b).slot = if p.slot = b.handle.toPointer then 0 else p.slot := by
  rw [unbind_eq, slot_dropGuard]
  split <;> rfl

/-- The end of a binding takes away its own handle and no other. -/
theorem lookup?_unbind (b : Binding) (r : RegistryId) (handle : Handle) :
    (p.unbind b).lookup? r handle =
      if r = globalRegistry ∧ handle = b.handle then none else p.lookup? r handle := by
  unfold lookup?
  rw [registries_unbind, Registries.lookup?_release]

end

/-- Work that touches neither the registries nor the policy slot. -/
structure Beside (p q : Process) : Prop where
  registries : q.registries = p.registries
  slot : q.slot = p.slot

theorem Beside.refl (p : Process) : p.Beside p := ⟨rfl, rfl⟩

theorem Beside.trans {q r : Process} (first : p.Beside q) (second : q.Beside r) : p.Beside r :=
  ⟨second.registries.trans first.registries, second.slot.trans first.slot⟩

/-- What happens to memory happens beside the registries. -/
theorem beside_setMemory (p : Process) (m : Memory) : p.Beside (p.setMemory m) := ⟨rfl, rfl⟩

theorem beside_setHeap (p : Process) (h : Heap) : p.Beside (p.setHeap h) := ⟨rfl, rfl⟩

theorem beside_report (p : Process) (notice : Notice) : p.Beside (p.report notice) := ⟨rfl, rfl⟩

theorem beside_sharePool? (p : Process) (pool? : Option PoolId) : p.Beside (p.sharePool? pool?) := by
  cases pool? <;> exact ⟨rfl, rfl⟩

theorem beside_closeKem {α : Type} (p : Process) (op : String) (reply : Reply Fault α) :
    p.Beside (p.closeKem op reply).2 := by
  cases reply <;> exact ⟨rfl, rfl⟩

theorem beside_closeTransportCall {α : Type} (p : Process) (op : String) (reply : Reply Fault α) :
    p.Beside (p.closeTransportCall op reply).2 := by
  cases reply <;> exact ⟨rfl, rfl⟩

theorem beside_handOver (p : Process) (bytes : Bytes) (secrecy : Secrecy) :
    p.Beside (p.handOver bytes secrecy).2 := by
  unfold handOver
  split <;> exact ⟨rfl, rfl⟩

theorem beside_handOverPair (p : Process) (ciphertext secret : Bytes) :
    p.Beside (p.handOverPair ciphertext secret).2 := by
  unfold handOverPair
  split
  · exact ⟨rfl, rfl⟩
  · split <;> exact ⟨rfl, rfl⟩

theorem beside_settle {α β : Type} (p : Process) (reply : Reply KemError α)
    {give : Process → α → Except Fault β × Process} (hgive : ∀ a, p.Beside (give p a).2) :
    p.Beside (p.settle reply give).2 := by
  unfold settle
  split
  · rename_i a _
    have hresult := hgive a
    split <;> rename_i heq <;> rw [heq] at hresult <;> exact hresult
  · exact .refl p
  · exact .refl p

theorem beside_receiveBuffer (p : Process) (id : TransportId) (sender : Nat) :
    p.Beside (p.receiveBuffer id sender).2 := by
  unfold receiveBuffer
  simp only
  split
  · exact ⟨rfl, rfl⟩
  · exact ⟨rfl, rfl⟩
  · split <;> exact ⟨rfl, rfl⟩

theorem beside_receiveBatch (p : Process) (id : TransportId) (senders : List Nat) :
    p.Beside (p.receiveBatch id senders).2 := by
  unfold receiveBatch
  simp only
  split
  · exact ⟨rfl, rfl⟩
  · exact ⟨rfl, rfl⟩
  · split
    · exact ⟨rfl, rfl⟩
    · split <;> exact ⟨rfl, rfl⟩

/-- Entry points look up the registries and the slot, but change neither. -/
theorem Callback.beside (p : Process) (c : Callback) : p.Beside (c.run p).2 := by
  have hrecord : ∀ call : HostCall, p.Beside (p.record call) := fun _ => ⟨rfl, rfl⟩
  cases c with
  | encapsulate encapsulationKey seed ciphertext secret =>
      refine Beside.trans ?_ (beside_closeKem _ _ _)
      split
      · exact .refl p
      · exact (hrecord _).trans (beside_settle _ _ fun pair => beside_handOverPair _ _ _)
  | decapsulate key ciphertext out =>
      refine Beside.trans ?_ (beside_closeKem _ _ _)
      split
      · exact .refl p
      · exact (hrecord _).trans (beside_settle _ _ fun secret => beside_handOver _ _ _)
  | derivePublic key out =>
      refine Beside.trans ?_ (beside_closeKem _ _ _)
      split
      · exact .refl p
      · exact (hrecord _).trans (beside_settle _ _ fun key => beside_handOver _ _ _)
  | send context receiver message =>
      refine Beside.trans ?_ (beside_closeTransportCall _ _ _)
      split <;> exact ⟨rfl, rfl⟩
  | receive context sender out =>
      refine Beside.trans ?_ (beside_closeTransportCall _ _ _)
      split
      · exact .refl p
      · exact .refl p
      · split
        · exact .refl p
        · rename_i id _ _ _ party _
          have hreceive := beside_receiveBuffer p id party
          split <;> rename_i heq <;> rw [heq] at hreceive <;> exact hreceive
  | receiveAll context senders count out =>
      refine Beside.trans ?_ (beside_closeTransportCall _ _ _)
      split
      · exact .refl p
      · exact .refl p
      · split
        · exact .refl p
        · exact .refl p
        · rename_i id _ _ _ parties _ _
          have hreceive := beside_receiveBatch p id parties
          split <;> rename_i heq <;> rw [heq] at hreceive <;> exact hreceive

theorem beside_takeBatch (p : Process) (raw : RawBatch) : p.Beside (p.takeBatch raw).2 := by
  unfold takeBatch
  split <;> exact ⟨rfl, rfl⟩

theorem beside_discardBatch (p : Process) (raw : RawBatch) : p.Beside (p.discardBatch raw) := by
  unfold discardBatch
  split <;> exact ⟨rfl, rfl⟩

/-- So do the operations on native memory. -/
theorem beside_memory (p : Process) (op : Memory.Operation) : p.Beside (op.effect p).process := by
  cases op with
  | takeBatch raw => exact p.beside_takeBatch raw
  | discardBatch raw => exact p.beside_discardBatch raw
  | adoptBatch raw =>
      simp only [Memory.Operation.effect, adoptBatch]
      split
      · rename_i heq
        split at heq <;> cases heq
        exact ⟨rfl, rfl⟩
      · rename_i heq
        split at heq <;> cases heq
        exact ⟨rfl, rfl⟩
  | copyBuffer _ _ | copyBatch _ _ | createPool _ _ | acquire _ | acquireWith _ _ | writeBlock _ _ =>
      simp only [Memory.Operation.effect]
      split <;> exact ⟨rfl, rfl⟩
  | openScope strategy pool? wipePublic => exact p.beside_sharePool? pool?
  | _ => exact ⟨rfl, rfl⟩

theorem beside_bridgeOf (p : Process) (c : Config) : p.Beside (p.bridgeOf c).2 := by
  unfold bridgeOf
  split
  · exact .refl p
  · split
    · split <;> exact ⟨rfl, rfl⟩
    · exact .refl p

/-- A binding that was made is registered under the next handle. -/
theorem registries_bind (p : Process) (policy : Policy) :
    (p.bind policy).2.registries = p.registries ∨
      (p.bind policy).2.registries =
        (p.registries.register globalRegistry (.policy policy)).2 := by
  unfold bind
  split
  · exact .inl rfl
  · exact .inr (registries_setSlot _ _)

namespace Operation

/-- Whether an operation is on the registries or on the policy slot. -/
def touches : Operation → Bool
  | bind _ | unbind _ | setSlot _ | clearSlot | createRegistry | register _ _ | release _ _
  | dropGuard _ | openTransport _ | closeTransport _ => true
  | memory _ | createBridge _ | defaultBridge | shareBridge _ | dropBridge _ | bridgePool _
  | bridgeScope _ _ | call _ | addTransport _ | addMesh _ => false

/-- The object that an operation registers, if it gets that far. -/
def registered? : Operation → Option (RegistryId × Object)
  | bind policy => some (globalRegistry, .policy policy)
  | register r object => some (r, object)
  | openTransport id => some (globalRegistry, .transport id)
  | _ => none

/-- The handle that an operation releases, if it is registered. -/
def released? : Operation → Option (RegistryId × Handle)
  | unbind b => some (globalRegistry, b.handle)
  | release r handle => some (r, handle)
  | dropGuard g => some (g.registry, g.handle)
  | closeTransport s => some (s.guard.registry, s.guard.handle)
  | _ => none

/-- All other operations are beside the registries and the slot. -/
theorem beside (p : Process) {op : Operation} (hop : op.touches = false) :
    p.Beside (op.effect p).process := by
  cases op with
  | memory op => exact p.beside_memory op
  | createBridge c =>
      have hbridge := p.beside_bridgeOf c
      simp only [effect]
      split <;> rename_i heq <;> rw [heq] at hbridge <;> exact hbridge
  | shareBridge b => exact p.beside_sharePool? b.pool?
  | bridgePool b => exact p.beside_sharePool? b.pool?
  | bridgeScope b shape => exact p.beside_sharePool? b.pool?
  | dropBridge b =>
      simp only [effect, Process.dropBridge, dropPool?]
      cases b.pool? <;> exact ⟨rfl, rfl⟩
  | call c => exact c.beside p
  | defaultBridge =>
      simp only [effect, Process.defaultBridge]
      cases p.memory.createPool defaultBlocks defaultBlockSize
      exact ⟨rfl, rfl⟩
  | addTransport _ | addMesh _ => exact ⟨rfl, rfl⟩
  | bind _ | unbind _ | setSlot _ | clearSlot | createRegistry | register _ _ | release _ _
  | dropGuard _ | openTransport _ | closeTransport _ => cases hop

/-- All that an operation may do to the registries: nothing, a new registry, one object registered,
or one handle released. -/
theorem registries_cases (p : Process) (op : Operation) :
    (op.effect p).process.registries = p.registries ∨
    (op.effect p).process.registries = p.registries.create.2 ∨
    (∃ r object, op.registered? = some (r, object) ∧
      (op.effect p).process.registries = (p.registries.register r object).2) ∨
    (∃ r handle, op.released? = some (r, handle) ∧
      (op.effect p).process.registries = (p.registries.release r handle).2) := by
  cases htouches : op.touches with
  | false => exact .inl (beside p htouches).registries
  | true =>
      cases op with
      | bind policy =>
          rcases p.registries_bind policy with hsame | hnew
          · exact .inl hsame
          · exact .inr (.inr (.inl ⟨_, _, rfl, hnew⟩))
      | unbind b => exact .inr (.inr (.inr ⟨_, _, rfl, p.registries_unbind b⟩))
      | setSlot pointer => exact .inl (p.registries_setSlot pointer)
      | clearSlot => exact .inl rfl
      | createRegistry => exact .inr (.inl rfl)
      | register r object => exact .inr (.inr (.inl ⟨r, object, rfl, rfl⟩))
      | release r handle =>
          exact .inr (.inr (.inr ⟨_, _, rfl, p.registries_releaseHandle r handle⟩))
      | dropGuard g => exact .inr (.inr (.inr ⟨_, _, rfl, p.registries_dropGuard g⟩))
      | openTransport id => exact .inr (.inr (.inl ⟨_, _, rfl, rfl⟩))
      | closeTransport s => exact .inr (.inr (.inr ⟨_, _, rfl, p.registries_dropGuard s.guard⟩))
      | memory _ | createBridge _ | defaultBridge | shareBridge _ | dropBridge _ | bridgePool _
      | bridgeScope _ _ | call _ | addTransport _ | addMesh _ => cases htouches

/-- Only bindings and what is done to the slot itself change what stands in the slot. -/
theorem slot_eq (p : Process) {op : Operation} (hbind : ∀ policy, op ≠ bind policy)
    (hunbind : ∀ b, op ≠ unbind b) (hset : ∀ pointer, op ≠ setSlot pointer)
    (hclear : op ≠ clearSlot) : (op.effect p).process.slot = p.slot := by
  cases htouches : op.touches with
  | false => exact (beside p htouches).slot
  | true =>
      cases op with
      | bind policy => exact absurd rfl (hbind policy)
      | unbind b => exact absurd rfl (hunbind b)
      | setSlot pointer => exact absurd rfl (hset pointer)
      | clearSlot => exact absurd rfl hclear
      | createRegistry | register _ _ | openTransport _ => rfl
      | release r handle => exact p.slot_releaseHandle r handle
      | dropGuard g => exact p.slot_dropGuard g
      | closeTransport s => exact p.slot_dropGuard s.guard
      | memory _ | createBridge _ | defaultBridge | shareBridge _ | dropBridge _ | bridgePool _
      | bridgeScope _ _ | call _ | addTransport _ | addMesh _ => cases htouches

theorem issued (hi : p.registries.Issued) (op : Operation) :
    (op.effect p).process.registries.Issued := by
  rcases op.registries_cases p with hsame | hcreate | ⟨r, object, -, hregister⟩ |
    ⟨r, handle, -, hrelease⟩
  · rw [hsame]
    exact hi
  · rw [hcreate]
    exact hi.create
  · rw [hregister]
    exact hi.register r object
  · rw [hrelease]
    exact hi.release r handle

end Operation

end Process

/-- Every handle that is registered after a run was given out during the run. -/
theorem Ledger.issued_history (ops : List Process.Operation) :
    (history ops).process.registries.Issued := by
  refine history_induction (P := fun s => s.process.registries.Issued) Registries.issued_empty
    fun s op _ hs => ?_
  unfold Ledger.work Ledger.perform
  have hstep := Process.Operation.issued hs op
  cases op.owner? with
  | none => exact hstep
  | some x =>
      simp only
      split
      · exact hstep
      · exact hs

end NativeBoundary

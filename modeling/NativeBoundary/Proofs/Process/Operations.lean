import NativeBoundary.Proofs.Memory.Ledger
import NativeBoundary.Proofs.Process.Entries

/-!
# Runs of a process

Beside what is done with native memory itself, a process makes and drops bridges, opens scopes
through them, answers native code at the entry points, binds policies, registers objects and
opens transports.  `Process.Operation` lists all of it, with the operations on native memory among
them, and `Ledger.history` is the ledger after any sequence of them in a new process.

Handles, the policy slot and transports are no native memory, so the operations on them change no
holder; the others are trades of the holder that they name.  The books of memory therefore agree
with the holders after every run (`Ledger.balanced_history`).
-/

namespace NativeBoundary

namespace Process

section

variable (p : Process)

@[simp] theorem memory_releaseHandle (r : RegistryId) (handle : Handle) :
    (p.releaseHandle r handle).2.memory = p.memory := by
  unfold releaseHandle
  split <;> rfl

@[simp] theorem memory_dropObject (object : Object) : (p.dropObject object).memory = p.memory := by
  cases object <;> rfl

@[simp] theorem memory_setSlot (pointer : UInt64) : (p.setSlot pointer).memory = p.memory := by
  unfold setSlot
  simp only
  split <;> rfl

@[simp] theorem memory_bind (policy : Policy) : (p.bind policy).2.memory = p.memory := by
  unfold bind
  split
  · rfl
  · exact memory_setSlot _ _

@[simp] theorem memory_dropGuard (g : HandleGuard) : (p.dropGuard g).memory = p.memory := by
  unfold dropGuard
  split
  · rename_i object q hrelease
    have hmemory := congrArg (fun x => x.2.memory) hrelease
    rw [memory_dropObject]
    exact hmemory.symm.trans (memory_releaseHandle p _ _)
  · rename_i fault q hrelease
    have hmemory := congrArg (fun x => x.2.memory) hrelease
    exact hmemory.symm.trans (memory_releaseHandle p _ _)

/-- A binding ends like a guard, once the slot is looked after. -/
theorem unbind_eq (b : Binding) :
    p.unbind b = (if p.slot = b.handle.toPointer then p.clearSlot
      else p.report (.slotLost b.handle)).dropGuard ⟨globalRegistry, b.handle⟩ := rfl

@[simp] theorem memory_unbind (b : Binding) : (p.unbind b).memory = p.memory := by
  rw [unbind_eq, memory_dropGuard]
  split <;> rfl

end

/-- A call of an entry point by native code, with what it passes in.  An out-parameter is given by
what it holds before the call. -/
inductive Callback
  | encapsulate (encapsulationKey seed : RawBuffer) (ciphertext secret : Option RawBuffer)
  | decapsulate (key : UInt64) (ciphertext : RawBuffer) (out : Option RawBuffer)
  | derivePublic (key : UInt64) (out : Option RawBuffer)
  | send (context : UInt64) (receiver : Int32) (message : RawBuffer)
  | receive (context : UInt64) (sender : Int32) (out : Option RawBuffer)
  | receiveAll (context : UInt64) (senders : Option (List Int32)) (count : Int32)
      (out : Option RawBatch)

namespace Callback

/-- What native code sees of an entry point. -/
abbrev Answer : Callback → Type
  | encapsulate _ _ _ _ => EncapsulateReply
  | decapsulate _ _ _ | derivePublic _ _ => OutReply
  | send _ _ _ => Int32
  | receive _ _ _ => ReceiveReply
  | receiveAll _ _ _ _ => ReceiveAllReply

/-- Runs an entry point. -/
def run (p : Process) : (c : Callback) → c.Answer × Process
  | encapsulate encapsulationKey seed ciphertext secret =>
      p.encapsulate encapsulationKey seed ciphertext secret
  | decapsulate key ciphertext out => p.decapsulate key ciphertext out
  | derivePublic key out => p.derivePublic key out
  | send context receiver message => p.transportSend context receiver message
  | receive context sender out => p.transportReceive context sender out
  | receiveAll context senders count out => p.transportReceiveAll context senders count out

/-- What native code was handed. -/
def given : (c : Callback) → c.Answer → List Holder
  | encapsulate _ _ _ _, reply => inBuffer reply.ciphertext ++ inBuffer reply.secret
  | decapsulate _ _ _, reply | derivePublic _ _, reply => inBuffer reply.out
  | send _ _ _, _ => []
  | receive _ _ _, reply => reply.given
  | receiveAll _ _ _ _, reply => reply.given

/-- The secrets among what native code was handed. -/
def secrets : (c : Callback) → c.Answer → List Holder
  | encapsulate _ _ _ _, reply => inBuffer reply.secret
  | decapsulate _ _ _, reply => inBuffer reply.out
  | derivePublic _ _, _ | send _ _ _, _ => []
  | receive _ _ _, reply => reply.given
  | receiveAll _ _ _ _, reply => reply.given

/-- An entry point trades nothing for what it hands over. -/
theorem trade (p : Process) (c : Callback) :
    p.memory.Trade [] (c.run p).2.memory (c.given (c.run p).1) := by
  cases c with
  | encapsulate encapsulationKey seed ciphertext secret =>
      exact p.trade_encapsulate encapsulationKey seed ciphertext secret
  | decapsulate key ciphertext out => exact p.trade_decapsulate key ciphertext out
  | derivePublic key out => exact p.trade_derivePublic key out
  | send context receiver message =>
      have hsame := p.memory_transportSend context receiver message
      change p.memory.Trade [] (p.transportSend context receiver message).2.memory []
      rw [hsame]
      exact .refl _ _
  | receive context sender out => exact p.trade_receive context sender out
  | receiveAll context senders count out => exact p.trade_receiveAll context senders count out

end Callback

/-- Everything that is done in a process. -/
inductive Operation
  | memory (op : Memory.Operation)
  | createBridge (c : Config)
  | defaultBridge
  | shareBridge (b : Bridge)
  | dropBridge (b : Bridge)
  /-- A pool value beside the bridge that the pool was made for. -/
  | bridgePool (b : Bridge)
  | bridgeScope (b : Bridge) (shape : CallShape)
  /-- Native code calls an entry point. -/
  | call (c : Callback)
  | bind (policy : Policy)
  | unbind (b : Binding)
  | setSlot (pointer : UInt64)
  | clearSlot
  | createRegistry
  | register (r : RegistryId) (object : Object)
  | release (r : RegistryId) (handle : Handle)
  | dropGuard (g : HandleGuard)
  | addTransport (t : Transport)
  | addMesh (parties : Nat)
  | openTransport (id : TransportId)
  | closeTransport (s : TransportSession)

namespace Operation

/-- The holder that an operation consumes or changes. -/
def owner? : Operation → Option Holder
  | memory op => op.owner?
  | shareBridge b | dropBridge b | bridgePool b | bridgeScope b _ => some (.bridge b)
  | _ => none

/-- What an operation does. -/
def effect (p : Process) : Operation → Effect
  | memory op => op.effect p
  | createBridge c =>
      match p.bridgeOf c with
      | (.ok b, p) => ⟨p, [.bridge b], b.pool?.toList⟩
      | (.error _, p) => ⟨p, [], []⟩
  | defaultBridge =>
      let (b, p) := p.defaultBridge
      ⟨p, [.bridge b], b.pool?.toList⟩
  | shareBridge b => ⟨p.shareBridge b, [.bridge b, .bridge b], []⟩
  | dropBridge b => ⟨p.dropBridge b, [], []⟩
  | bridgePool b => ⟨p.sharePool? b.pool?, b.pool?.toList.map .pool ++ [.bridge b], []⟩
  | bridgeScope b shape => ⟨(p.openScope (b.scope shape)).2, [.scope (b.scope shape), .bridge b], []⟩
  | call c =>
      let (answer, p) := c.run p
      ⟨p, c.given answer, (c.secrets answer).filterMap Memory.writable?⟩
  | bind policy => ⟨(p.bind policy).2, [], []⟩
  | unbind b => ⟨p.unbind b, [], []⟩
  | setSlot pointer => ⟨p.setSlot pointer, [], []⟩
  | clearSlot => ⟨p.clearSlot, [], []⟩
  | createRegistry => ⟨{ p with registries := p.registries.create.2 }, [], []⟩
  | register r object => ⟨(p.register r object).2, [], []⟩
  | release r handle => ⟨(p.releaseHandle r handle).2, [], []⟩
  | dropGuard g => ⟨p.dropGuard g, [], []⟩
  | addTransport t => ⟨{ p with network := (p.network.add t).2 }, [], []⟩
  | addMesh parties => ⟨{ p with network := (p.network.addMesh parties).2 }, [], []⟩
  | openTransport id => ⟨(p.openTransport id).2, [], []⟩
  | closeTransport s => ⟨p.closeTransport s, [], []⟩

/-- Every operation of a process trades the holder that it names for the holders that it leaves
behind. -/
theorem trade (p : Process) (op : Operation) :
    p.memory.Trade op.owner?.toList (op.effect p).process.memory (op.effect p).gained := by
  have hsame : ∀ {q : Process}, q.memory = p.memory → p.memory.Trade [] q.memory [] := by
    intro q hq
    rw [hq]
    exact .refl _ _
  cases op with
  | memory op => exact op.trade p
  | createBridge c =>
      simp only [effect]
      split
      · rename_i hcreate
        exact trade_bridgeOf hcreate
      · rename_i hcreate
        exact trade_bridgeOf_error hcreate
  | defaultBridge => exact p.trade_defaultBridge
  | shareBridge b => exact p.trade_shareBridge b
  | dropBridge b => exact p.trade_dropBridge b
  | bridgePool b => exact p.trade_bridgePool b
  | bridgeScope b shape => exact p.trade_bridgeScope b shape
  | call c => exact c.trade p
  | bind policy => exact hsame (p.memory_bind policy)
  | unbind b => exact hsame (p.memory_unbind b)
  | setSlot pointer => exact hsame (p.memory_setSlot pointer)
  | release r handle => exact hsame (p.memory_releaseHandle r handle)
  | dropGuard g => exact hsame (p.memory_dropGuard g)
  | closeTransport s => exact hsame (p.memory_dropGuard s.guard)
  | clearSlot | createRegistry | register _ _ | addTransport _ | addMesh _ | openTransport _ =>
      exact .refl _ _

end Operation

end Process

namespace Ledger

variable {s : Ledger}

/-- One operation of a process. -/
def work (s : Ledger) (op : Process.Operation) : Ledger := s.perform op.owner? op.effect

/-- The ledger after some operations in a new process. -/
def history (ops : List Process.Operation) : Ledger := ops.foldl work {}

/-- What holds of a new process and is kept by every operation of a run holds after the run. -/
theorem history_induction {P : Ledger → Prop} {ops : List Process.Operation} (hnew : P {})
    (hstep : ∀ s, ∀ op ∈ ops, P s → P (s.work op)) : P (history ops) :=
  List.foldlRecOn ops Ledger.work hnew fun s hs op hop => hstep s op hop hs

theorem Balanced.work (hb : s.Balanced) (op : Process.Operation) : (s.work op).Balanced :=
  hb.perform (op.trade s.process)

/-- The books of memory agree with the holders after every run of a process. -/
theorem balanced_history (ops : List Process.Operation) : (history ops).Balanced :=
  history_induction balanced_empty fun _ op _ hb => hb.work op

end Ledger

end NativeBoundary

import NativeBoundary.Binding
import NativeBoundary.Config.Settings

/-!
# Calls of native operations

A bridge runs one native operation with everything that has to stand around it.  The policy is
bound first; if the thread has one already, the call is refused before anything else happens.
Then a scope is opened, the body of the call runs with it, the scope ends and releases its
inputs, and last the binding ends.  That order holds on every way out: a return code, an error,
or a panic.

* `Process.beginCall`, `Process.endCall` — what stands before and after the body of a call.
* `Process.invoke` — a whole call.
-/

namespace NativeBoundary

/-- What native operations are called through. -/
structure Bridge where
  config : Config
  pool? : Option PoolId
deriving DecidableEq, Repr

namespace Bridge

/-- The strategy for a call. -/
def strategy (b : Bridge) (shape : CallShape) : Strategy :=
  .select shape b.config.strategy.forceOwned

/-- An empty scope for a call. -/
def scope (b : Bridge) (shape : CallShape) : Scope where
  strategy := b.strategy shape
  pool? := b.pool?
  wipePublic := b.config.zeroize.publicBuffers

end Bridge

/-- How the body of a call ends. -/
inductive CallOutcome
  /-- With the return code of the native operation. -/
  | returned (code : Int32)
  | failed (fault : Fault)
  | panicked (message : String)
deriving DecidableEq, Repr

/-- A call that is under way. -/
structure Call where
  op : String
  binding? : Option Binding
  scope : Scope
deriving DecidableEq, Repr

namespace Process

/-- One more user of a pool that may be absent. -/
def sharePool? (p : Process) : Option PoolId → Process
  | none => p
  | some id => p.setMemory (p.memory.sharePool id)

/-- One user fewer of a pool that may be absent. -/
def dropPool? (p : Process) : Option PoolId → Process
  | none => p
  | some id => p.setMemory (p.memory.dropPool id)

/-- A pool that could not be had. -/
def poolRefused (c : Config) : Fault :=
  .badArgument s!"cannot allocate a pool of {c.pool.blocks} x {c.pool.blockSize} bytes"

/-- A bridge with a valid configuration, and with a pool if that is enabled. -/
def bridgeOf (p : Process) (c : Config) : Except Fault Bridge × Process :=
  match c.validate with
  | .error fault => (.error (.badArgument fault.message), p)
  | .ok () =>
      if c.pool.enabled then
        match p.memory.createPool c.pool.blocks c.pool.blockSize with
        | (some id, memory) => (.ok { config := c, pool? := some id }, p.setMemory memory)
        | (none, memory) => (.error (poolRefused c), p.setMemory memory)
      else (.ok { config := c, pool? := none }, p)

/-- A bridge with the default configuration; if there is no memory for its pool, without one. -/
def defaultBridge (p : Process) : Bridge × Process :=
  let (pool?, memory) := p.memory.createPool defaultBlocks defaultBlockSize
  ({ config := default, pool? }, p.setMemory memory)

/-- A second bridge with the same configuration and pool. -/
def shareBridge (p : Process) (b : Bridge) : Process := p.sharePool? b.pool?

/-- Lets go of a bridge. -/
def dropBridge (p : Process) (b : Bridge) : Process := p.dropPool? b.pool?

/-- Opens a scope; it is one more user of its pool. -/
def openScope (p : Process) (s : Scope) : Scope × Process := (s, p.sharePool? s.pool?)

/-- Ends a scope. -/
def endScope (p : Process) (s : Scope) : Process := p.setMemory (p.memory.endScope s)

/-- Binds the policy of a call, if it has one. -/
def bind? (p : Process) : Option Policy → Except Fault (Option Binding) × Process
  | none => (.ok none, p)
  | some policy =>
      match p.bind policy with
      | (.ok binding, p) => (.ok (some binding), p)
      | (.error fault, p) => (.error fault, p)

/-- Ends the binding of a call, if it has one. -/
def unbind? (p : Process) : Option Binding → Process
  | none => p
  | some binding => p.unbind binding

/-- What stands before the body of a call: the policy is bound and the scope opened. -/
def beginCall (p : Process) (bridge : Bridge) (op : String) (shape : CallShape)
    (policy : Option Policy) : Except Fault Call × Process :=
  match p.bind? policy with
  | (.error fault, p) => (.error fault, p)
  | (.ok binding?, p) =>
      let (scope, p) := p.openScope (bridge.scope shape)
      (.ok { op, binding?, scope }, p)

/-- The outcome of a call.  A return code is success or stands for a fault; a leaked bit is
reported. -/
def judge (p : Process) (op : String) : CallOutcome → Reply Fault Unit × Process
  | .failed fault => (.refusal fault, p)
  | .panicked message => (.panic message, p)
  | .returned code =>
      match Fault.ofCode? op code with
      | none => (.value (), p)
      | some fault => (.refusal fault, if fault.isBitLeak then p.report (.bitLeak op) else p)

/-- What stands after the body of a call: the scope ends, then the binding. -/
def endCall (p : Process) (call : Call) (outcome : CallOutcome) : Reply Fault Unit × Process :=
  let (reply, p) := (p.endScope call.scope).judge call.op outcome
  (reply, p.unbind? call.binding?)

/-- Runs one native operation.  The body marshals its inputs through the scope of the call. -/
def invoke (p : Process) (bridge : Bridge) (op : String) (shape : CallShape)
    (policy : Option Policy) (body : Process → Scope → CallOutcome × Scope × Process) :
    Reply Fault Unit × Process :=
  match p.beginCall bridge op shape policy with
  | (.error fault, p) => (.refusal fault, p)
  | (.ok call, p) =>
      let (outcome, scope, p) := body p call.scope
      p.endCall { call with scope } outcome

end Process

end NativeBoundary

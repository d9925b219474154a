import NativeBoundary.Scenario.Batches
import NativeBoundary.Scenario.Bridges
import NativeBoundary.Scenario.Extents
import NativeBoundary.Scenario.Pools
import NativeBoundary.Scenario.Transports

/-!
# Running scenarios

A scenario is a list of steps.  Most steps act on things with names; three of them have a body of
further steps, which runs with a policy bound, on a thread of its own, or inside a native call.
Each step leaves one record.  The steps of a body leave records of their own inside that of the
step around them, so every event stands in exactly one record.

* `Step.run`, `Step.runAll` — running by recursion on the steps.
* `run` — a whole scenario, with the blocks that are live after it.
-/

namespace NativeBoundary.Scenario

/-- A step without a body. -/
inductive Action
  | buffer (action : BufferAction)
  | extent (action : ExtentAction)
  | batch (action : BatchAction)
  | pool (action : PoolAction)
  | scope (action : ScopeAction)
  | handle (action : HandleAction)
  | policy (action : PolicyAction)
  | bridge (action : BridgeAction)
  | transport (action : TransportAction)

/-- Runs a step without a body. -/
def Action.run (s : State) : Action → Answer × State
  | buffer action => action.run s
  | extent action => action.run s
  | batch action => action.run s
  | pool action => action.run s
  | scope action => action.run s
  | handle action => action.run s
  | policy action => action.run s
  | bridge action => action.run s
  | transport action => action.run s

/-- How the body of a native call ends. -/
inductive Ending
  | panic (message : String)
  | fail (fault : Fault)
  | code (code : Int32)
  /-- With the last return code of an entry point. -/
  | lastCode
deriving DecidableEq, Repr

/-- What a native call is made with. -/
structure CallSpec where
  bridge : SlotName
  op : String
  shape : CallShape
  policy : Option Policy
  ending : Ending

/-- A step of a scenario.  The allocator may be told to refuse the request that so many others in
the step come before. -/
inductive Step
  | act (failAt : Option Nat) (action : Action)
  /-- Runs the body with a policy bound and then panics if there is a message to panic with. -/
  | withPolicy (failAt : Option Nat) (policy : Policy) (body : List Step) (panic : Option String)
  /-- Runs the body on a thread of its own. -/
  | thread (failAt : Option Nat) (body : List Step)
  /-- Runs the body inside a native call. -/
  | invoke (failAt : Option Nat) (call : CallSpec) (body : List Step)

instance : Inhabited Step := ⟨.act none (.policy .clearSlot)⟩

/-- The request that the allocator is to refuse. -/
def Step.failAt : Step → Option Nat
  | act failAt _ => failAt
  | withPolicy failAt _ _ _ => failAt
  | thread failAt _ => failAt
  | invoke failAt _ _ => failAt

namespace State

/-- The outcome that an ending stands for. -/
def outcome (s : State) : Ending → CallOutcome
  | .panic message => .panicked message
  | .fail fault => .failed fault
  | .code code => .returned code
  | .lastCode => .returned s.lastCode

/-- The outcome of a body that runs with a policy bound. -/
def bodyReply : Option String → CallReply
  | some message => .panic message
  | none => .value ()

/-- Runs a body with a policy bound, unless one is bound already. -/
def withPolicy (s : State) (policy : Policy) (panic : Option String)
    (body : State → List (Record Answer) × State) : Answer × State :=
  let work (process : Process) : (List (Record Answer) × State) × Process :=
    let (records, t) := body { s with process }
    ((records, t), t.process)
  match s.process.withPolicy policy work with
  | (.error fault, process) => (.bound [] (.refusal fault) process.isBound, { s with process })
  | (.ok (records, t), process) =>
      (.bound records (bodyReply panic) process.isBound, { t with process })

/-- The state as a new thread finds it: a heap that is not watched, and no slots but those of the
handles. -/
def onThread (s : State) : State where
  process := s.process.onThread
  slots := Slots.empty.setTable .handle (s.slots.table .handle)
  watched := false
  releasedElsewhere := s.releases
  noticeMark := s.noticeMark

/-- Lets go of everything that a thread has kept. -/
def leaveThread (s : State) : State :=
  [Kind.binding, .guard, .session, .held, .object, .party, .scripted].foldl dropAll s

/-- The state after a thread that has left `t` behind: what it did to the registries and the
network stays, and the objects that it released count. -/
def rejoin (s t : State) : State :=
  let t := t.leaveThread
  { s with
    process := s.process.rejoin t.process
    releasedElsewhere := t.releases - s.heap.objectsReleased
    noticeMark := t.process.notices.length }

/-- Runs a body on a thread of its own. -/
def thread (s : State) (body : State → List (Record Answer) × State) : Answer × State :=
  let (records, t) := body s.onThread
  (.thread records, s.rejoin t)

/-- The number of blocks of a bridge's pool that are handed out. -/
def inUse (s : State) (b : Bridge) : Option Nat := (s.bridgePool b).map (·.inUse)

/-- The call with the scope that its body leaves behind, and the scopes around it. -/
def leaveCall (s : State) (call : Call) : Call × State :=
  ({ call with scope := s.scopes.headD call.scope }, { s with scopes := s.scopes.tail })

/-- Runs a body inside a native call.  The bridge is held until the call is over. -/
def invoke (s : State) (spec : CallSpec) (bridge : Bridge)
    (body : State → List (Record Answer) × State) : Answer × State :=
  let letGo (s : State) : State := { s with process := s.process.dropBridge bridge }
  match (s.process.shareBridge bridge).beginCall bridge spec.op spec.shape spec.policy with
  | (.error fault, process) =>
      let s : State := { s with process }
      (.invoked [] (.refusal fault) process.isBound (s.inUse bridge) [], letGo s)
  | (.ok call, process) =>
      let (records, s) := body { s with process, scopes := call.scope :: s.scopes }
      let (call, s) := s.leaveCall call
      let (reply, process) := s.process.endCall call (s.outcome spec.ending)
      let s : State := { s with process }
      let answer := .invoked records reply process.isBound (s.inUse bridge) s.eventsSince
      (answer, letGo { s with eventMark := s.heap.trace.length })

end State

mutual

/-- Runs one step and gives its record. -/
def Step.run (s : State) (step : Step) : Record Answer × State :=
  let s := s.arm step.failAt
  let (answer, s) :=
    match step with
    | .act _ action => action.run s
    | .withPolicy _ policy body panic => s.withPolicy policy panic fun s => Step.runAll s body
    | .thread _ body => s.thread fun s => Step.runAll s body
    | .invoke _ spec body =>
        s.reading .bridge spec.bridge fun bridge => s.invoke spec bridge fun s => Step.runAll s body
  s.close answer

/-- Runs steps in their order. -/
def Step.runAll (s : State) : List Step → List (Record Answer) × State
  | [] => ([], s)
  | step :: steps =>
      let (record, s) := Step.run s step
      let (records, s) := Step.runAll s steps
      (record :: records, s)

end

/-- What a scenario leaves behind. -/
structure Report where
  records : List (Record Answer)
  /-- The blocks that are live after the last step, in order. -/
  live : List BlockId

/-- Runs a scenario in a new process. -/
def run (steps : List Step) : Report :=
  let (records, s) := Step.runAll {} steps
  { records, live := s.heap.live }

end NativeBoundary.Scenario

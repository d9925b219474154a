import NativeBoundary.Scenario.State

/-!
# Steps on bridges

Making bridges, sharing them and letting go of them.
-/

namespace NativeBoundary.Scenario

/-- A step on bridges. -/
inductive BridgeAction
  | create (slot : SlotName) (config : Config)
  /-- A bridge with the default configuration. -/
  | standard (slot : SlotName)
  | info (slot : SlotName)
  /-- A second bridge with the same configuration and pool. -/
  | share (source slot : SlotName)
  | drop (slot : SlotName)

namespace State

/-- The pool of a bridge as it is now. -/
def bridgePool (s : State) (b : Bridge) : Option Pool := b.pool?.bind s.memory.pool?

/-- A bridge as a value of its type. -/
def describeBridge (s : State) (b : Bridge) : String :=
  let pool :=
    match s.bridgePool b with
    | some pool => s!"Some({pool.describe})"
    | none => "None"
  "Bridge \x7b config: " ++ b.config.describe ++ ", pool: " ++ pool ++ " \x7d"

/-- Keeps a bridge. -/
def keepBridge (s : State) (slot : SlotName) (b : Bridge) : Answer × State :=
  (.bridge b (s.bridgePool b) (s.describeBridge b), s.put .bridge slot b)

end State

/-- A bridge made in a new process, with its pool. -/
def bridgeAlone (config : Config) : Except Fault (Bridge × Option Pool) :=
  match Process.bridgeOf {} config with
  | (.error fault, _) => .error fault
  | (.ok bridge, process) => .ok (bridge, bridge.pool?.bind process.memory.pool?)

namespace BridgeAction

/-- Runs a step on bridges. -/
def run (s : State) : BridgeAction → Answer × State
  | create slot config =>
      match s.process.bridgeOf config with
      | (.error fault, process) => (.fault fault, { s with process })
      | (.ok bridge, process) => ({ s with process } : State).keepBridge slot bridge
  | standard slot =>
      let (bridge, process) := s.process.defaultBridge
      ({ s with process } : State).keepBridge slot bridge
  | info slot => s.reading .bridge slot fun bridge => (.bridgePool (s.bridgePool bridge), s)
  | share source slot =>
      s.reading .bridge source fun bridge =>
        (.nothing, ({ s with process := s.process.shareBridge bridge } : State).put .bridge slot
          bridge)
  | drop slot => s.drop .bridge slot

end BridgeAction

end NativeBoundary.Scenario

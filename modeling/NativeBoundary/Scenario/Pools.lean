import NativeBoundary.Scenario.State

/-!
# Steps on pools and scopes

Making pools and sharing them, holding their blocks, and marshalling inputs through scopes.
-/

namespace NativeBoundary.Scenario

/-- A step on pools and their blocks. -/
inductive PoolAction
  | create (slot : SlotName) (count blockSize : Nat)
  | info (slot : SlotName)
  | drop (slot : SlotName)
  /-- A second value for the same pool. -/
  | share (source slot : SlotName)
  | acquire (source slot : SlotName)
  | acquireWith (source slot : SlotName) (bytes : Bytes)
  | write (slot : SlotName) (bytes : Bytes)
  | blockInfo (slot : SlotName)
  | dropBlock (slot : SlotName)
  /-- All bytes of a block, held or not. -/
  | inspect (source : SlotName) (index : Nat)

/-- A step on scopes. -/
inductive ScopeAction
  | create (slot : SlotName) (strategy : Strategy) (source : Option SlotName) (wipePublic : Bool)
  /-- A scope as a bridge makes it for a call. -/
  | ofBridge (bridge slot : SlotName) (shape : CallShape)
  /-- Without a name the scope is that of the call under way. -/
  | input (scope : Option SlotName) (bytes : Bytes) (secrecy : Secrecy)
  | inputBatch (scope : Option SlotName) (items : List Bytes)
  | info (scope : Option SlotName)
  | drop (slot : SlotName)

namespace State

/-- A pool as it is now. -/
def showPool (s : State) (id : PoolId) : Answer :=
  match s.memory.pool? id with
  | some pool => .pool pool
  | none => .nothing

/-- A held block as it is now. -/
def viewBlock (s : State) (b : PoolBlock) : BlockView where
  block := b
  capacity := ((s.memory.pool? b.pool).map (·.blockSize)).getD 0
  bytes := s.memory.blockBytes b
  raw := s.memory.blockRaw b

/-- Keeps a block that was handed out; none is nothing. -/
def keepBlock (s : State) (slot : SlotName) : Option PoolBlock × Memory → Answer × State
  | (none, memory) => (.nothing, s.setMemory memory)
  | (some block, memory) =>
      let s := s.setMemory memory
      (.block (s.viewBlock block), s.put .block slot block)

/-- Opens a scope and keeps it. -/
def keepScope (s : State) (slot : SlotName) (scope : Scope) : Answer × State :=
  let (scope, process) := s.process.openScope scope
  (.scope scope, ({ s with process } : State).put .scope slot scope)

/-- The scope with a name, or that of the call under way. -/
def scope? (s : State) : Option SlotName → Option Scope
  | some name => s.get? .scope name
  | none => s.scopes.head?

/-- The state after a change of that scope. -/
def setScope (s : State) (name : Option SlotName) (scope : Scope) : State :=
  match name with
  | some name => s.store .scope name scope
  | none => { s with scopes := scope :: s.scopes.tail }

/-- Answers from a scope. -/
def inScope (s : State) (name : Option SlotName) (f : Scope → Answer × State) : Answer × State :=
  match s.scope? name with
  | none => (.noSlot, s)
  | some scope => f scope

end State

namespace PoolAction

/-- Runs a step on pools and their blocks. -/
def run (s : State) : PoolAction → Answer × State
  | create slot count blockSize =>
      match s.memory.createPool count blockSize with
      | (none, memory) => (.nothing, s.setMemory memory)
      | (some id, memory) =>
          let s := s.setMemory memory
          (s.showPool id, s.put .pool slot id)
  | info slot => s.reading .pool slot fun id => (s.showPool id, s)
  | drop slot => s.drop .pool slot
  | share source slot =>
      s.reading .pool source fun id =>
        (.nothing, (s.setMemory (s.memory.sharePool id)).put .pool slot id)
  | acquire source slot =>
      s.reading .pool source fun id => s.keepBlock slot (s.memory.acquire id)
  | acquireWith source slot bytes =>
      s.reading .pool source fun id => s.keepBlock slot (s.memory.acquireWith id bytes)
  | write slot bytes =>
      s.reading .block slot fun block =>
        match s.memory.writeBlock block bytes with
        | (none, memory) => (.written false (s.viewBlock block), s.setMemory memory)
        | (some block, memory) =>
            let s := (s.setMemory memory).store .block slot block
            (.written true (s.viewBlock block), s)
  | blockInfo slot => s.reading .block slot fun block => (.block (s.viewBlock block), s)
  | dropBlock slot => s.drop .block slot
  | inspect source index =>
      s.reading .pool source fun id =>
        match s.memory.inspectBlock id index with
        | some bytes => (.bytes bytes, s)
        | none => (.nothing, s)

end PoolAction

namespace ScopeAction

/-- Runs a step on scopes. -/
def run (s : State) : ScopeAction → Answer × State
  | create slot strategy none wipePublic => s.keepScope slot { strategy, wipePublic }
  | create slot strategy (some source) wipePublic =>
      s.reading .pool source fun id => s.keepScope slot { strategy, wipePublic, pool? := some id }
  | ofBridge bridge slot shape =>
      s.reading .bridge bridge fun bridge => s.keepScope slot (Bridge.scope bridge shape)
  | input name bytes secrecy =>
      s.inScope name fun scope =>
        match s.memory.input scope bytes secrecy with
        | (.error fault, scope, memory) => (.fault fault, (s.setMemory memory).setScope name scope)
        | (.ok raw, scope, memory) =>
            let s := (s.setMemory memory).setScope name scope
            (.input raw (raw.bytes s.heap) scope.owned, s)
  | inputBatch name items =>
      s.inScope name fun scope =>
        match s.memory.inputBatch scope items with
        | (.error fault, scope, memory) => (.fault fault, (s.setMemory memory).setScope name scope)
        | (.ok raw, scope, memory) =>
            (.inputBatch raw scope.owned, (s.setMemory memory).setScope name scope)
  | info name => s.inScope name fun scope => (.scope scope, s)
  | drop slot => s.drop .scope slot

end ScopeAction

end NativeBoundary.Scenario

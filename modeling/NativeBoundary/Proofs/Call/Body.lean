import NativeBoundary.Proofs.Call.Restores

/-!
# Bodies of calls

The body of a call marshals inputs through the scope of the call, lets native code call back at the
entry points, makes further calls of its own, and ends with a return code, an error or a panic.  It
may do other work, as long as nothing of that is kept.  A `Body` is a tree of these: every step
hands its result to the rest of the body, so that a body can go on as it likes, in the order that it
likes, and stop wherever it likes.  What a body has learnt when it ends is seen by the body that
made the call.

`Body.exec` runs a body.  Its `Course` says how the body ended and what it left behind; beside that
it keeps, for the statements only, what native code was handed and which copies were made in the
scope, in their order.  `Body.callbacks` lists the entry points that native code calls on the
way, each with the process that it finds.

Two facts are shown for all bodies, by induction on the tree:

* `Body.trade` — a body trades its scope for the scope that it leaves and for what was handed out;
* `Body.restores` — the slot and everything registered are back when a body ends.

In the case of a further call, the induction goes through the inner body first: `trade_invoke` and
`restores_invoke` say what a call does if its body does what it should.
-/

namespace NativeBoundary

open Memory (stakes_scope)

/-- The body of a call that is made while some bridges are there. -/
inductive Body (bridges : List Bridge) (σ : Type) : Type 1
  | done (outcome : CallOutcome) (learnt : σ)
  /-- The allocator will refuse a request to come. -/
  | refuse (granted : Option Nat) (next : Body bridges σ)
  | input (bytes : Bytes) (secrecy : Secrecy) (next : Except Fault RawBuffer → Body bridges σ)
  | inputBatch (items : List Bytes) (next : Except Fault RawBatch → Body bridges σ)
  /-- Native code calls an entry point. -/
  | call (c : Process.Callback) (next : c.Answer → Body bridges σ)
  /-- Work of its own that keeps no block, no binding and no registration. -/
  | aside {α : Type} (work : Process → α × Process)
      (keeps : ∀ p : Process, p.memory.Trade [] (work p).2.memory [])
      (restores : ∀ p : Process, p.Restores (work p).2) (next : α → Body bridges σ)
  /-- A further call.  Nothing is learnt from a body that is not run. -/
  | invoke (bridge : Bridge) (held : bridge ∈ bridges) (op : String) (shape : CallShape)
      (policy : Option Policy) (inner : Body bridges σ)
      (next : Reply Fault Unit → Option σ → Body bridges σ)

/-- How a body went. -/
structure Course (σ : Type) where
  outcome : CallOutcome
  learnt : σ
  scope : Scope
  process : Process
  /-- What native code was handed. -/
  given : List Holder := []
  /-- The copies that were made in the scope, first one first. -/
  made : List ScopeCopy := []

namespace Course

variable {σ : Type}

/-- What the caller sees of a body. -/
def returned (c : Course σ) : CallOutcome × Scope × Process := (c.outcome, c.scope, c.process)

/-- The course with something before it. -/
def after (c : Course σ) (given : List Holder) (made : List ScopeCopy) : Course σ :=
  { c with given := given ++ c.given, made := made ++ c.made }

end Course

/-- The copies that a scope has more than an earlier state of it, first one first. -/
def Scope.since (s old : Scope) : List ScopeCopy :=
  (s.copies.take (s.copies.length - old.copies.length)).reverse

namespace Process

variable {σ : Type}

/-- How the body of a call goes, if the call gets that far. -/
def course? (p : Process) (bridge : Bridge) (op : String) (shape : CallShape)
    (policy : Option Policy) (exec : Process → Scope → Course σ) : Option (Course σ) :=
  match p.beginCall bridge op shape policy with
  | (.error _, _) => none
  | (.ok call, q) => some (exec q call.scope)

/-- A call with a body. -/
def invokeBody (p : Process) (bridge : Bridge) (op : String) (shape : CallShape)
    (policy : Option Policy) (exec : Process → Scope → Course σ) : Reply Fault Unit × Process :=
  p.invoke bridge op shape policy fun p s => (exec p s).returned

/-- What native code was handed during a call. -/
def handedOut (p : Process) (bridge : Bridge) (op : String) (shape : CallShape)
    (policy : Option Policy) (exec : Process → Scope → Course σ) : List Holder :=
  match p.course? bridge op shape policy exec with
  | none => []
  | some course => course.given

/-- The entry points that native code calls during a call, each with the process that it finds, if
`during` says which ones it calls in the body. -/
def callbacks (p : Process) (bridge : Bridge) (op : String) (shape : CallShape)
    (policy : Option Policy) (during : Process → Scope → List (Process × Callback)) :
    List (Process × Callback) :=
  match p.beginCall bridge op shape policy with
  | (.error _, _) => []
  | (.ok call, q) => during q call.scope

end Process

/-- Runs a body in a scope. -/
def Body.exec {bridges : List Bridge} {σ : Type} :
    Body bridges σ → Process → Scope → Course σ
  | done outcome learnt, p, s => { outcome, learnt, scope := s, process := p }
  | refuse granted next, p, s => next.exec (p.setHeap { p.heap with granted }) s
  | input bytes secrecy next, p, s =>
      let step := p.memory.input s bytes secrecy
      ((next step.1).exec (p.setMemory step.2.2) step.2.1).after [] (step.2.1.since s)
  | inputBatch items next, p, s =>
      let step := p.memory.inputBatch s items
      ((next step.1).exec (p.setMemory step.2.2) step.2.1).after [] (step.2.1.since s)
  | call c next, p, s =>
      let step := c.run p
      ((next step.1).exec step.2 s).after (c.given step.1) []
  | aside work _ _ next, p, s =>
      let step := work p
      (next step.1).exec step.2 s
  | invoke bridge _ op shape policy inner next, p, s =>
      let step := p.invokeBody bridge op shape policy inner.exec
      let learnt := (p.course? bridge op shape policy inner.exec).map Course.learnt
      ((next step.1 learnt).exec step.2 s).after
        (p.handedOut bridge op shape policy inner.exec) []

/-- The entry points that native code calls while a body runs, in their order. -/
def Body.callbacks {bridges : List Bridge} {σ : Type} :
    Body bridges σ → Process → Scope → List (Process × Process.Callback)
  | done _ _, _, _ => []
  | refuse granted next, p, s => next.callbacks (p.setHeap { p.heap with granted }) s
  | input bytes secrecy next, p, s =>
      let step := p.memory.input s bytes secrecy
      (next step.1).callbacks (p.setMemory step.2.2) step.2.1
  | inputBatch items next, p, s =>
      let step := p.memory.inputBatch s items
      (next step.1).callbacks (p.setMemory step.2.2) step.2.1
  | call c next, p, s =>
      let step := c.run p
      (p, c) :: (next step.1).callbacks step.2 s
  | aside work _ _ next, p, s =>
      let step := work p
      (next step.1).callbacks step.2 s
  | invoke bridge _ op shape policy inner next, p, s =>
      let step := p.invokeBody bridge op shape policy inner.exec
      let learnt := (p.course? bridge op shape policy inner.exec).map Course.learnt
      p.callbacks bridge op shape policy inner.callbacks ++
        (next step.1 learnt).callbacks step.2 s

namespace Process

variable {σ : Type} {p q : Process} {bridge : Bridge} {op : String} {shape : CallShape}
  {policy : Option Policy} {exec : Process → Scope → Course σ}

/-- A call that is refused runs no body. -/
theorem invoke_refused (exec : Process → Scope → Course σ) {fault : Fault}
    (hc : p.beginCall bridge op shape policy = (.error fault, q)) :
    p.invokeBody bridge op shape policy exec = (.refusal fault, q) ∧
      p.handedOut bridge op shape policy exec = [] := by
  unfold invokeBody invoke handedOut course?
  rw [hc]
  exact ⟨rfl, rfl⟩

/-- A call that is not refused runs its body, then it is brought to its end. -/
theorem invoke_reached (exec : Process → Scope → Course σ) {call : Call}
    (hc : p.beginCall bridge op shape policy = (.ok call, q)) :
    p.invokeBody bridge op shape policy exec =
        (exec q call.scope).process.endCall { call with scope := (exec q call.scope).scope }
          (exec q call.scope).outcome ∧
      p.handedOut bridge op shape policy exec = (exec q call.scope).given := by
  unfold invokeBody invoke handedOut course?
  rw [hc]
  exact ⟨rfl, rfl⟩

/-- The memory that a body starts with: its scope is open. -/
theorem trade_beginCall {call : Call}
    (hc : p.beginCall bridge op shape policy = (.ok call, q)) :
    call.scope = bridge.scope shape ∧
      p.memory.Trade [.bridge bridge] q.memory [.scope (bridge.scope shape), .bridge bridge] := by
  rcases beginCall_cases hc with ⟨_, _, _, hrefused, _⟩ | ⟨_, hresult, rfl⟩ |
    ⟨_, bound, _, _, hmemory, hresult, rfl⟩
  · cases hrefused
  · cases hresult
    exact ⟨rfl, p.trade_bridgeScope bridge shape⟩
  · cases hresult
    refine ⟨rfl, ?_⟩
    rw [← hmemory]
    exact bound.trade_bridgeScope bridge shape

/-- The same among all bridges: the bridge of the call stands in front for a moment. -/
theorem trade_opened {bridges : List Bridge} (held : bridge ∈ bridges) {call : Call}
    (hc : p.beginCall bridge op shape policy = (.ok call, q)) :
    p.memory.Trade (bridges.map .bridge) q.memory
      (.scope call.scope :: bridges.map .bridge) := by
  obtain ⟨hscope, hopen⟩ := trade_beginCall hc
  have hperm : (bridge :: bridges.erase bridge).Perm bridges := (List.perm_cons_erase held).symm
  have hfront := Memory.SameStakes.of_perm (hperm.map Holder.bridge)
  rw [hscope]
  exact (hopen.frame ((bridges.erase bridge).map .bridge)).congr hfront.symm
    (hfront.append_left [.scope (bridge.scope shape)])

/-- A call whose body trades its scope for the scope that it leaves and for what was handed out is
itself a trade of nothing for what was handed out. -/
theorem trade_invoke {bridges : List Bridge} (held : bridge ∈ bridges)
    (hbody : ∀ (q : Process) (s : Scope),
      q.memory.Trade (.scope s :: bridges.map .bridge) (exec q s).process.memory
        (.scope (exec q s).scope :: ((exec q s).given ++ bridges.map .bridge))) :
    p.memory.Trade (bridges.map .bridge) (p.invokeBody bridge op shape policy exec).2.memory
      (p.handedOut bridge op shape policy exec ++ bridges.map .bridge) := by
  cases hc : p.beginCall bridge op shape policy with
  | mk result q =>
      cases result with
      | error fault =>
          obtain ⟨hinvoke, hgiven⟩ := invoke_refused exec hc
          rw [hinvoke, hgiven]
          rcases beginCall_cases hc with ⟨_, _, _, _, rfl⟩ | ⟨_, hresult, _⟩ |
            ⟨_, _, _, _, _, hresult, _⟩
          · exact .refl _ _
          · cases hresult
          · cases hresult
      | ok call =>
          obtain ⟨hinvoke, hgiven⟩ := invoke_reached exec hc
          rw [hinvoke, hgiven, memory_endCall]
          have hopened := trade_opened held hc
          have hended := (Memory.trade_endScope (exec q call.scope).process.memory
            (exec q call.scope).scope).frame ((exec q call.scope).given ++ bridges.map .bridge)
          exact (hopened.trans (hbody q call.scope)).trans hended

/-- Ending a scope and judging the outcome touch neither the slot nor the registries. -/
theorem restores_endBody (p : Process) (s : Scope) (op : String) (outcome : CallOutcome) :
    p.Restores ((p.endScope s).judge op outcome).2 :=
  ((p.beside_setMemory _).trans (beside_judge _ op outcome)).restores

/-- A call whose body restores what it found restores what it found itself. -/
theorem restores_invoke
    (hbody : ∀ (q : Process) (s : Scope), q.Restores (exec q s).process) :
    p.Restores (p.invokeBody bridge op shape policy exec).2 := by
  cases hc : p.beginCall bridge op shape policy with
  | mk result q =>
      rcases beginCall_cases hc with ⟨_, _, _, rfl, rfl⟩ | ⟨_, rfl, rfl⟩ |
        ⟨policy', bound, _, hbinds, _, rfl, rfl⟩
      · obtain ⟨hinvoke, -⟩ := invoke_refused exec hc
        rw [hinvoke]
        exact (p.beside_report _).restores
      · obtain ⟨hinvoke, -⟩ := invoke_reached exec hc
        rw [hinvoke]
        have hopened := (p.beside_sharePool? bridge.pool?).restores
        have hran := hbody (p.sharePool? bridge.pool?) (bridge.scope shape)
        exact (hopened.trans hran).trans (restores_endBody _ _ op _)
      · obtain ⟨hinvoke, -⟩ := invoke_reached exec hc
        rw [hinvoke]
        have hopened := (bound.beside_sharePool? bridge.pool?).restores
        have hran := hbody (bound.sharePool? bridge.pool?) (bridge.scope shape)
        exact restores_binding hbinds ((hopened.trans hran).trans (restores_endBody _ _ op _))

end Process

namespace Body

variable {bridges : List Bridge} {σ : Type}

/-- What was handed out before stands aside. -/
theorem trade_aside {m m' : Memory} {s s' : Scope} {given others : List Holder}
    (earlier : List Holder)
    (ht : m.Trade (.scope s :: others) m' (.scope s' :: (given ++ others))) :
    m.Trade (earlier ++ .scope s :: others) m' (.scope s' :: (earlier ++ given ++ others)) := by
  refine (ht.frame earlier).congr (.of_perm List.perm_append_comm) (.of_perm ?_)
  refine List.Perm.cons _ ?_
  rw [List.append_assoc]
  exact List.perm_append_comm

/-- The scope of a body stands aside during a further call. -/
theorem trade_over {m m' : Memory} {given others : List Holder} (s : Scope)
    (ht : m.Trade others m' (given ++ others)) :
    m.Trade (.scope s :: others) m' (given ++ .scope s :: others) := by
  refine (ht.frame [.scope s]).congr (.of_perm (List.perm_append_singleton _ _).symm) (.of_perm ?_)
  rw [List.append_assoc]
  exact List.perm_append_comm.append_left given

/-- What was handed out then joins the bystanders. -/
theorem accounts_over {m m' : Memory} {given others rest : List Holder} {s : Scope}
    (ht : m.Trade others m' (given ++ others)) (ha : m.Accounts (.scope s :: others ++ rest)) :
    m'.Accounts (.scope s :: others ++ (given ++ rest)) ∧ m.heap.next ≤ m'.heap.next := by
  obtain ⟨hafter, hspares⟩ := trade_over s ht rest ha
  rw [List.append_assoc] at hafter
  exact ⟨hafter.congr (.of_perm (List.perm_append_comm_assoc _ _ _)), hspares.next⟩

/-- A body trades its scope for the scope that it leaves and for what was handed out. -/
theorem trade (body : Body bridges σ) (p : Process) (s : Scope) :
    p.memory.Trade (.scope s :: bridges.map .bridge) (body.exec p s).process.memory
      (.scope (body.exec p s).scope :: ((body.exec p s).given ++ bridges.map .bridge)) := by
  induction body generalizing p s with
  | done outcome learnt => exact .refl _ _
  | refuse granted next ih =>
      have hrefuse := Memory.Operation.trade p (.refuse granted)
      exact (hrefuse.frame (.scope s :: bridges.map .bridge)).trans (ih _ s)
  | input bytes secrecy next ih =>
      have hinput := Memory.Operation.trade p (.input s bytes secrecy)
      exact (hinput.frame (bridges.map .bridge)).trans (ih _ _ _)
  | inputBatch items next ih =>
      have hinput := Memory.Operation.trade p (.inputBatch s items)
      exact (hinput.frame (bridges.map .bridge)).trans (ih _ _ _)
  | call c next ih =>
      have hcall := (c.trade p).frame (.scope s :: bridges.map .bridge)
      exact hcall.trans (trade_aside (c.given (c.run p).1) (ih (c.run p).1 (c.run p).2 s))
  | aside work keeps _ next ih =>
      exact ((keeps p).frame (.scope s :: bridges.map .bridge)).trans (ih _ _ s)
  | invoke bridge held op shape policy inner next ihInner ihNext =>
      have hinvoke : p.memory.Trade (bridges.map .bridge)
          (p.invokeBody bridge op shape policy inner.exec).2.memory
          (p.handedOut bridge op shape policy inner.exec ++ bridges.map .bridge) :=
        Process.trade_invoke held ihInner
      have hframed := trade_over s hinvoke
      exact hframed.trans (trade_aside _ (ihNext _ _ _ s))

/-- A call with a body is a trade of nothing for what was handed out. -/
theorem trade_call (body : Body bridges σ) (p : Process) {bridge : Bridge}
    (held : bridge ∈ bridges) (op : String) (shape : CallShape) (policy : Option Policy) :
    p.memory.Trade (bridges.map .bridge) (p.invokeBody bridge op shape policy body.exec).2.memory
      (p.handedOut bridge op shape policy body.exec ++ bridges.map .bridge) :=
  Process.trade_invoke held body.trade

/-- The slot and everything registered are back when a body ends. -/
theorem restores (body : Body bridges σ) (p : Process) (s : Scope) :
    p.Restores (body.exec p s).process := by
  induction body generalizing p s with
  | done outcome learnt => exact .refl p
  | refuse granted next ih => exact (p.beside_setHeap _).restores.trans (ih _ s)
  | input bytes secrecy next ih => exact (p.beside_setMemory _).restores.trans (ih _ _ _)
  | inputBatch items next ih => exact (p.beside_setMemory _).restores.trans (ih _ _ _)
  | call c next ih => exact (c.beside p).restores.trans (ih _ _ s)
  | aside work _ restores next ih => exact (restores p).trans (ih _ _ s)
  | invoke bridge held op shape policy inner next ihInner ihNext =>
      exact (Process.restores_invoke ihInner).trans (ihNext _ _ _ s)

end Body

end NativeBoundary

import NativeBoundary.Proofs.Memory.Pools

/-!
# Trades of scopes

A scope holds what its copies hold and refers to its pool.  Each input trades the scope for the
same scope with one copy more, or leaves it alone; the end of a scope gives up everything that it
held, copy by copy.

* `Memory.extends_input`, `Memory.extends_inputBatch` — marshalling, whatever comes of it;
* `Memory.trade_endScope` — the end of a scope.
-/

namespace NativeBoundary

/-- A copy of a scope as a holder of its own. -/
def ScopeCopy.holder : ScopeCopy → Holder
  | pooled b => .block b
  | heap b => .buffer b
  | batch b => .batch b

/-- The pool of a scope as a holder of its own, if it has one. -/
def Scope.poolHolder (s : Scope) : List Holder := s.pool?.toList.map Holder.pool

namespace Memory

variable {m m' : Memory} {s s' : Scope}

/-- A scope with one copy more has the stake of that copy more. -/
theorem stakes_copy (s : Scope) (copy : ScopeCopy) :
    SameStakes [.scope { s with copies := copy :: s.copies }] [copy.holder, .scope s] := by
  cases copy with
  | pooled b =>
      refine ⟨fun _ => rfl, fun id => ?_, fun _ => rfl⟩
      simp only [poolsOf_cons, poolsOf_nil, Holder.pools, Scope.pools, ScopeCopy.holder,
        ScopeCopy.pools, List.flatMap_cons, List.append_nil, List.count_append]
      omega
  | heap b => exact ⟨fun _ => by simp [Holder.blocks, Scope.blocks, ScopeCopy.holder,
      ScopeCopy.blocks], fun _ => rfl, fun _ => rfl⟩
  | batch b => exact ⟨fun _ => by simp [Holder.blocks, Scope.blocks, ScopeCopy.holder,
      ScopeCopy.blocks], fun _ => rfl, fun _ => rfl⟩

/-- A scope has the stakes of its copies and of its pool. -/
theorem stakes_scope (s : Scope) :
    SameStakes [.scope s] (s.copies.map ScopeCopy.holder ++ s.poolHolder) := by
  obtain ⟨strategy, pool?, wipePublic, copies⟩ := s
  induction copies with
  | nil =>
      cases pool? with
      | none => exact ⟨fun _ => rfl, fun _ => rfl, fun _ => rfl⟩
      | some id => exact ⟨fun _ => rfl, fun _ => rfl, fun _ => rfl⟩
  | cons copy copies ih =>
      have hcopy := stakes_copy ⟨strategy, pool?, wipePublic, copies⟩ copy
      exact hcopy.trans (ih.append_left [copy.holder])

/-- A scope with some copies more, which were made with the help of its pool alone. -/
def Extends (m : Memory) (s : Scope) (m' : Memory) (s' : Scope) : Prop :=
  ∃ added : List ScopeCopy, s' = { s with copies := added ++ s.copies } ∧
    m.Trade s.poolHolder m' (added.map ScopeCopy.holder ++ s.poolHolder)

theorem Extends.refl (m : Memory) (s : Scope) : m.Extends s m s := ⟨[], rfl, .refl _ _⟩

/-- The copies that were there before are bystanders. -/
theorem Extends.trade (he : m.Extends s m' s') : m.Trade [.scope s] m' [.scope s'] := by
  obtain ⟨added, rfl, ht⟩ := he
  have hold := (stakes_scope s).trans (.of_perm List.perm_append_comm)
  have hnew := (stakes_scope { s with copies := added ++ s.copies }).symm
  refine (ht.frame (s.copies.map ScopeCopy.holder)).congr hold (SameStakes.trans ?_ hnew)
  rw [List.map_append, List.append_assoc, List.append_assoc]
  exact SameStakes.append_left (.of_perm List.perm_append_comm) (added.map ScopeCopy.holder)

/-- Inputs change no block that the scope held before. -/
theorem Extends.kept {others : List Holder} (he : m.Extends s m' s')
    (ha : m.Accounts (.scope s :: others)) :
    ∀ id ∈ s.blocks, m'.heap.block? id = m.heap.block? id := by
  obtain ⟨added, -, ht⟩ := he
  have hstakes := (stakes_scope s).trans (.of_perm List.perm_append_comm)
  have hsplit := ha.congr (hstakes.append_right others)
  rw [List.append_assoc] at hsplit
  obtain ⟨-, hspares⟩ := ht _ hsplit
  intro id hid
  refine hspares.kept id (List.mem_flatMap.mpr ?_)
  obtain ⟨copy, hcopy, hid⟩ := List.mem_flatMap.mp hid
  refine ⟨copy.holder, List.mem_append_left _ (List.mem_map_of_mem hcopy), ?_⟩
  cases copy <;> exact hid

/-- What an operation on the heap does to memory. -/
theorem onHeap_eq {α : Type} {f : Heap → α × Heap} {a : α} (hc : m.onHeap f = (a, m')) :
    ∃ h', f m.heap = (a, h') ∧ m' = { m with heap := h' } := by
  cases hc
  exact ⟨(f m.heap).2, rfl, rfl⟩

/-- A block for an input comes from the pool of the scope. -/
theorem inputBlock_some {bytes : Bytes} {b : PoolBlock}
    (hc : m.inputBlock s bytes = (some b, m')) :
    ∃ id, s.pool? = some id ∧ m.acquireWith id bytes = (some b, m') := by
  unfold inputBlock at hc
  split at hc
  · cases hc
  · rename_i id hpool
    exact ⟨id, hpool, hc⟩

theorem extends_inputBlock {bytes : Bytes} {b : PoolBlock}
    (hc : m.inputBlock s bytes = (some b, m')) :
    m.Extends s m' { s with copies := .pooled b :: s.copies } := by
  obtain ⟨id, hpool, hacquire⟩ := inputBlock_some hc
  refine ⟨[.pooled b], rfl, ?_⟩
  unfold Scope.poolHolder
  rw [hpool]
  exact (trade_acquireWith hacquire).congr (.refl _) (.of_perm (List.Perm.swap _ _ _))

theorem inputBlock_none {bytes : Bytes} (hc : m.inputBlock s bytes = (none, m')) : m' = m := by
  unfold inputBlock at hc
  split at hc
  · cases hc
    rfl
  · exact acquireWith_none hc

/-- The ways an input can go, and its answer: it is lent; or it is to be copied, and there is nothing
to copy, or there is no memory for a copy, or the pool has a block for it, or it is copied to the
heap. -/
theorem input_answer {bytes : Bytes} {secrecy : Secrecy} {result : Except Fault RawBuffer}
    (hc : m.input s bytes secrecy = (result, s', m')) :
    (s' = s ∧ m' = m ∧ (s.strategy = .borrowedView ∧ result = RawBuffer.view bytes ∨
      s.strategy = .ownedCopy ∧ bytes = [] ∧ result = .ok .empty)) ∨
    (∃ fault h', (s.strategy = .ownedCopy ∧ bytes ≠ []) ∧
      OwnedBuffer.copyFrom bytes secrecy m.heap = (.error fault, h') ∧ s' = s ∧
      m' = { m with heap := h' } ∧ result = .error fault) ∨
    (∃ b, (s.strategy = .ownedCopy ∧ bytes ≠ []) ∧ m.inputBlock s bytes = (some b, m') ∧
      s' = { s with copies := .pooled b :: s.copies } ∧ result = .ok (m'.blockRaw b)) ∨
    (∃ b h', (s.strategy = .ownedCopy ∧ bytes ≠ []) ∧
      OwnedBuffer.copyFrom bytes secrecy m.heap = (.ok b, h') ∧
      s' = { s with copies := .heap { b with wipePublic := s.wipePublic } :: s.copies } ∧
      m' = { m with heap := h' } ∧ result = .ok b.raw) := by
  unfold input at hc
  split at hc
  · rename_i hlent
    cases hc
    exact .inl ⟨rfl, rfl, .inl ⟨hlent, rfl⟩⟩
  · rename_i hcopied
    split at hc
    · rename_i hnone
      cases hc
      exact .inl ⟨rfl, rfl, .inr ⟨hcopied, hnone, rfl⟩⟩
    · rename_i hsome
      split at hc
      · rename_i b middle hblock
        cases hc
        exact .inr (.inr (.inl ⟨b, ⟨hcopied, hsome⟩, hblock, rfl, rfl⟩))
      · rename_i middle hblock
        cases inputBlock_none hblock
        split at hc
        · rename_i fault final hheap
          obtain ⟨h', hcopy, rfl⟩ := onHeap_eq hheap
          cases hc
          exact .inr (.inl ⟨fault, h', ⟨hcopied, hsome⟩, hcopy, rfl, rfl, rfl⟩)
        · rename_i b final hheap
          obtain ⟨h', hcopy, rfl⟩ := onHeap_eq hheap
          cases hc
          exact .inr (.inr (.inr ⟨b, h', ⟨hcopied, hsome⟩, hcopy, rfl, rfl, rfl⟩))

/-- What these ways do to the scope and to memory. -/
theorem input_cases {bytes : Bytes} {secrecy : Secrecy} {result : Except Fault RawBuffer}
    (hc : m.input s bytes secrecy = (result, s', m')) :
    (s' = s ∧ m' = m) ∨
    (∃ fault h', OwnedBuffer.copyFrom bytes secrecy m.heap = (.error fault, h') ∧ s' = s ∧
      m' = { m with heap := h' }) ∨
    (∃ b, m.inputBlock s bytes = (some b, m') ∧
      s' = { s with copies := .pooled b :: s.copies }) ∨
    (∃ b h', OwnedBuffer.copyFrom bytes secrecy m.heap = (.ok b, h') ∧
      s' = { s with copies := .heap { b with wipePublic := s.wipePublic } :: s.copies } ∧
      m' = { m with heap := h' }) := by
  rcases input_answer hc with ⟨hs, hm, -⟩ | ⟨fault, h', -, hcopy, hs, hm, -⟩ |
    ⟨b, -, hblock, hs, -⟩ | ⟨b, h', -, hcopy, hs, hm, -⟩
  · exact .inl ⟨hs, hm⟩
  · exact .inr (.inl ⟨fault, h', hcopy, hs, hm⟩)
  · exact .inr (.inr (.inl ⟨b, hblock, hs⟩))
  · exact .inr (.inr (.inr ⟨b, h', hcopy, hs, hm⟩))

/-- The ways a batch can go, and its answer. -/
theorem inputBatch_answer {items : List Bytes} {result : Except Fault RawBatch}
    (hc : m.inputBatch s items = (result, s', m')) :
    (∃ fault h', OwnedBatch.copyFrom items .secret m.heap = (.error fault, h') ∧ s' = s ∧
      m' = { m with heap := h' } ∧ result = .error fault) ∨
    (∃ b h', OwnedBatch.copyFrom items .secret m.heap = (.ok b, h') ∧
      s' = { s with copies := .batch b :: s.copies } ∧ m' = { m with heap := h' } ∧
      result = .ok b.raw) := by
  unfold inputBatch at hc
  split at hc
  · rename_i fault final hheap
    obtain ⟨h', hcopy, rfl⟩ := onHeap_eq hheap
    cases hc
    exact .inl ⟨fault, h', hcopy, rfl, rfl, rfl⟩
  · rename_i b final hheap
    obtain ⟨h', hcopy, rfl⟩ := onHeap_eq hheap
    cases hc
    exact .inr ⟨b, h', hcopy, rfl, rfl, rfl⟩

/-- What these ways do to the scope and to memory. -/
theorem inputBatch_cases {items : List Bytes} {result : Except Fault RawBatch}
    (hc : m.inputBatch s items = (result, s', m')) :
    (∃ fault h', OwnedBatch.copyFrom items .secret m.heap = (.error fault, h') ∧ s' = s ∧
      m' = { m with heap := h' }) ∨
    (∃ b h', OwnedBatch.copyFrom items .secret m.heap = (.ok b, h') ∧
      s' = { s with copies := .batch b :: s.copies } ∧ m' = { m with heap := h' }) := by
  rcases inputBatch_answer hc with ⟨fault, h', hcopy, hs, hm, -⟩ | ⟨b, h', hcopy, hs, hm, -⟩
  · exact .inl ⟨fault, h', hcopy, hs, hm⟩
  · exact .inr ⟨b, h', hcopy, hs, hm⟩

/-- An input leaves at most one copy more in its scope. -/
theorem extends_input {bytes : Bytes} {secrecy : Secrecy} {result : Except Fault RawBuffer}
    (hc : m.input s bytes secrecy = (result, s', m')) : m.Extends s m' s' := by
  rcases input_cases hc with ⟨rfl, rfl⟩ | ⟨fault, h', hcopy, rfl, rfl⟩ | ⟨b, hblock, rfl⟩ |
    ⟨b, h', hcopy, rfl, rfl⟩
  · exact .refl _ _
  · exact ⟨[], rfl, (trade_copyBuffer_error hcopy).frame _⟩
  · exact extends_inputBlock hblock
  · -- the flag of the scope changes how the copy is released, not what it holds
    have hflag : SameStakes [.buffer b]
        ([ScopeCopy.heap { b with wipePublic := s.wipePublic }].map ScopeCopy.holder) :=
      ⟨fun _ => rfl, fun _ => rfl, fun _ => rfl⟩
    exact ⟨[_], rfl, ((trade_copyBuffer hcopy).congr (.refl []) hflag).frame _⟩

/-- A batch leaves at most one copy more in its scope. -/
theorem extends_inputBatch {items : List Bytes} {result : Except Fault RawBatch}
    (hc : m.inputBatch s items = (result, s', m')) : m.Extends s m' s' := by
  rcases inputBatch_cases hc with ⟨fault, h', hcopy, rfl, rfl⟩ | ⟨b, h', hcopy, rfl, rfl⟩
  · exact ⟨[], rfl, (trade_copyBatch_error hcopy).frame _⟩
  · exact ⟨[.batch b], rfl, (trade_copyBatch hcopy).frame _⟩

/-- A copy that is released holds nothing any more. -/
theorem trade_releaseCopy (m : Memory) (copy : ScopeCopy) :
    m.Trade [copy.holder] (m.releaseCopy copy) [] := by
  cases copy with
  | pooled b => exact trade_releaseBlock m b
  | heap b => exact trade_dropBuffer m b
  | batch b => exact trade_dropBatch m b

theorem trade_releaseCopies (m : Memory) (copies : List ScopeCopy) :
    m.Trade (copies.map ScopeCopy.holder) (m.releaseCopies copies) [] := by
  induction copies generalizing m with
  | nil => exact .refl _ _
  | cons copy copies ih =>
      have hfirst := (trade_releaseCopy m copy).frame (copies.map ScopeCopy.holder)
      exact hfirst.trans (ih (m.releaseCopy copy))

/-- A scope that has ended holds nothing any more, and its pool has one user fewer. -/
theorem trade_endScope (m : Memory) (s : Scope) : m.Trade [.scope s] (m.endScope s) [] := by
  refine Trade.congr ?_ (stakes_scope s) (.refl [])
  have hcopies := (trade_releaseCopies m s.copies).frame s.poolHolder
  unfold endScope
  unfold Scope.poolHolder at hcopies ⊢
  cases hpool : s.pool? with
  | none =>
      rw [hpool] at hcopies
      exact hcopies
  | some id =>
      rw [hpool] at hcopies
      exact hcopies.trans (trade_dropPool _ id)

end Memory

end NativeBoundary

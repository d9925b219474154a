import NativeBoundary.Proofs.Call.Body
import NativeBoundary.Proofs.Process.Endings

/-!
# Copies of a scope, made and released

While a body runs, its scope only grows: each input puts at most one copy in front of those that
were there.  A copy on the heap gets blocks that were not given out before, so the numbers of the
blocks of a scope fall strictly from the newest copy to the oldest; a copy in a pool gets a block
of the pool of the scope.  `Memory.Copied` collects this, and `Body.copied` shows it for all bodies.

When a scope ends, its copies are released in exactly that order, newest first: their blocks are
freed and their places given back one after the other, which is all that happens, and the places go
to the end of the queues of their pools (`Memory.Released`).  The regions of the pools stay, because
the bridge refers to its pool too.

* `Body.copied` — what the copies of a body are;
* `Memory.released_endScope` — what the end of a scope releases, and in which order.
-/

namespace NativeBoundary

namespace Memory

variable {m m' m'' : Memory} {s s' s'' : Scope}

/-- Work in which a scope got some copies more, first one first. -/
structure Copied (m : Memory) (s : Scope) (made : List ScopeCopy) (m' : Memory) (s' : Scope) :
    Prop where
  next : m.heap.next ≤ m'.heap.next
  scope : s' = { s with copies := made.reverse ++ s.copies }
  /-- A copy in a pool is in the pool of the scope. -/
  pools : ∀ copy ∈ made, ∀ id ∈ copy.pools, s.pool? = some id
  /-- The blocks were made during this work. -/
  fresh : ∀ id ∈ made.reverse.flatMap ScopeCopy.blocks, m.heap.next ≤ id ∧ id < m'.heap.next
  /-- The block that was made last stands first. -/
  order : (made.reverse.flatMap ScopeCopy.blocks).Pairwise (· > ·)

/-- Work that makes no copies. -/
theorem Copied.of_next (hnext : m.heap.next ≤ m'.heap.next) (s : Scope) :
    m.Copied s [] m' s where
  next := hnext
  scope := rfl
  pools := by
    intro copy hcopy
    cases hcopy
  fresh := by
    intro id hid
    cases hid
  order := .nil

theorem Copied.trans {made more : List ScopeCopy} (first : m.Copied s made m' s')
    (second : m'.Copied s' more m'' s'') : m.Copied s (made ++ more) m'' s'' := by
  have hsplit : (made ++ more).reverse.flatMap ScopeCopy.blocks =
      more.reverse.flatMap ScopeCopy.blocks ++ made.reverse.flatMap ScopeCopy.blocks := by
    rw [List.reverse_append, List.flatMap_append]
  refine ⟨Nat.le_trans first.next second.next, ?_, fun copy hcopy id hid => ?_, fun id hid => ?_,
    ?_⟩
  · rw [second.scope, first.scope, List.reverse_append, List.append_assoc]
  · rcases List.mem_append.mp hcopy with hcopy | hcopy
    · exact first.pools copy hcopy id hid
    · have hpool := second.pools copy hcopy id hid
      rw [first.scope] at hpool
      exact hpool
  · rw [hsplit] at hid
    rcases List.mem_append.mp hid with hid | hid
    · have hfresh := second.fresh id hid
      exact ⟨Nat.le_trans first.next hfresh.1, hfresh.2⟩
    · have hfresh := first.fresh id hid
      exact ⟨hfresh.1, Nat.lt_of_lt_of_le hfresh.2 second.next⟩
  · rw [hsplit]
    refine List.pairwise_append.mpr ⟨second.order, first.order, fun new hnew old hold => ?_⟩
    exact Nat.lt_of_lt_of_le (first.fresh old hold).2 (second.fresh new hnew).1

/-- Work that makes one copy. -/
theorem Copied.one {copy : ScopeCopy} (hnext : m.heap.next ≤ m'.heap.next)
    (hpools : ∀ id ∈ copy.pools, s.pool? = some id)
    (hfresh : ∀ id ∈ copy.blocks, m.heap.next ≤ id ∧ id < m'.heap.next)
    (horder : copy.blocks.Pairwise (· > ·)) :
    m.Copied s [copy] m' { s with copies := copy :: s.copies } where
  next := hnext
  scope := rfl
  pools := by
    intro copy' hcopy id hid
    rw [List.mem_singleton.mp hcopy] at hid
    exact hpools id hid
  fresh := by simpa using hfresh
  order := by simpa using horder

theorem since_self (s : Scope) : s.since s = [] := by
  simp [Scope.since]

theorem since_cons (s : Scope) (copy : ScopeCopy) :
    ({ s with copies := copy :: s.copies } : Scope).since s = [copy] := by
  simp [Scope.since]

/-- The block of an input from a pool is a block of that pool. -/
theorem pool_of_acquireWith {id : PoolId} {data : Bytes} {b : PoolBlock}
    (hc : m.acquireWith id data = (some b, m')) : b.pool = id := by
  obtain ⟨fresh, middle, hacquire, hwritten⟩ := acquireWith_some hc
  obtain ⟨p, free, -, -, hfresh, -⟩ := acquire_some hacquire
  obtain ⟨q, -, -, hb, -⟩ := writeBlock_eq hwritten
  rw [hb]
  exact congrArg PoolBlock.pool hfresh

theorem pool_of_inputBlock {bytes : Bytes} {b : PoolBlock}
    (hc : m.inputBlock s bytes = (some b, m')) : s.pool? = some b.pool := by
  obtain ⟨id, hpool, hacquire⟩ := inputBlock_some hc
  rw [hpool, pool_of_acquireWith hacquire]

/-- The tables of a batch are made in the order in which they are not freed: lengths first. -/
theorem order_copyFrom {items : List Bytes} {secrecy : Secrecy} {h h' : Heap} {b : OwnedBatch}
    (hc : OwnedBatch.copyFrom items secrecy h = (.ok b, h')) : b.blocks.Pairwise (· > ·) := by
  cases OwnedBatch.copying_of_copyFrom hc with
  | empty hnone => exact .nil
  | lengths hsome hzero hmeasure hsizes => exact List.pairwise_singleton _ _
  | full hsome hpos hmeasure hsizes hdata =>
      exact List.pairwise_pair.mpr (Heap.request_lt hsizes hdata)

section

variable {others : List Holder}

theorem copied_input {bytes : Bytes} {secrecy : Secrecy} {result : Except Fault RawBuffer}
    (ha : m.Accounts (.scope s :: others))
    (hc : m.input s bytes secrecy = (result, s', m')) : m.Copied s (s'.since s) m' s' := by
  have hnext : m.heap.next ≤ m'.heap.next := ((extends_input hc).trade others ha).2.next
  rcases input_cases hc with ⟨rfl, -⟩ | ⟨_, _, _, rfl, -⟩ | ⟨b, hblock, rfl⟩ |
    ⟨b, h', hcopy, rfl, rfl⟩
  · rw [since_self]
    exact .of_next hnext s'
  · rw [since_self]
    exact .of_next hnext s'
  · rw [since_cons]
    refine .one hnext (fun id hid => ?_) (fun id hid => by cases hid) .nil
    rw [List.mem_singleton.mp hid]
    exact pool_of_inputBlock hblock
  · rw [since_cons]
    refine .one hnext (fun id hid => by cases hid) (fun id hid => ?_) ?_
    · exact (OwnedBuffer.change_copyFrom ha.sound hcopy).fresh id hid
    · change b.block?.toList.Pairwise (· > ·)
      cases b.block? with
      | none => exact .nil
      | some id => exact List.pairwise_singleton _ _

theorem copied_inputBatch {items : List Bytes} {result : Except Fault RawBatch}
    (ha : m.Accounts (.scope s :: others))
    (hc : m.inputBatch s items = (result, s', m')) : m.Copied s (s'.since s) m' s' := by
  have hnext : m.heap.next ≤ m'.heap.next := ((extends_inputBatch hc).trade others ha).2.next
  rcases inputBatch_cases hc with ⟨_, _, _, rfl, -⟩ | ⟨b, h', hcopy, rfl, rfl⟩
  · rw [since_self]
    exact .of_next hnext s'
  · rw [since_cons]
    refine .one hnext (fun id hid => by cases hid) (fun id hid => ?_) (order_copyFrom hcopy)
    exact (OwnedBatch.change_copyFrom ha.sound hcopy).fresh id hid

end

end Memory

/-- What the copies of a body are. -/
theorem Body.copied {bridges : List Bridge} {σ : Type} (body : Body bridges σ) {p : Process}
    {s : Scope} {others : List Holder}
    (ha : p.memory.Accounts (.scope s :: bridges.map .bridge ++ others)) :
    p.memory.Copied s (body.exec p s).made (body.exec p s).process.memory
      (body.exec p s).scope := by
  induction body generalizing p s others with
  | done outcome learnt => exact .of_next (Nat.le_refl _) s
  | refuse granted next ih =>
      have hrefused := (Memory.Operation.trade p (.refuse granted)) _ ha
      exact (Memory.Copied.of_next hrefused.2.next s).trans (ih hrefused.1)
  | input bytes secrecy next ih =>
      have hinput := (Memory.Operation.trade p (.input s bytes secrecy)) _ ha
      exact (Memory.copied_input ha rfl).trans (ih _ hinput.1)
  | inputBatch items next ih =>
      have hinput := (Memory.Operation.trade p (.inputBatch s items)) _ ha
      exact (Memory.copied_inputBatch ha rfl).trans (ih _ hinput.1)
  | call c next ih =>
      have hcall := (c.trade p).frame (bridges.map .bridge)
      obtain ⟨hafter, hnext⟩ := accounts_over hcall ha
      exact (Memory.Copied.of_next hnext s).trans (ih _ hafter)
  | aside work keeps _ next ih =>
      have hwork := (keeps p) _ ha
      exact (Memory.Copied.of_next hwork.2.next s).trans (ih _ hwork.1)
  | invoke bridge held op shape policy inner next ihInner ihNext =>
      have hinvoke := inner.trade_call p held op shape policy
      obtain ⟨hafter, hnext⟩ := accounts_over hinvoke ha
      exact (Memory.Copied.of_next hnext s).trans (ihNext _ _ hafter)

/-- What ends with a copy, in order. -/
def ScopeCopy.endings : ScopeCopy → List Ending
  | pooled b => [.place b.pool b.index]
  | heap b => b.blocks.map .block
  | batch b => b.blocks.map .block

namespace Memory

variable {m m' m'' : Memory} {id : PoolId} {p : Pool} {others rest : List Holder}

/-- The places in a pool that some copies take, in the order of the copies. -/
def placesIn (id : PoolId) (copies : List ScopeCopy) : List Nat :=
  (copies.flatMap ScopeCopy.places).filterMap fun place =>
    if place.1 = id then some place.2 else none

/-- Work that releases some copies one after the other, and nothing else. -/
structure Released (m : Memory) (copies : List ScopeCopy) (m' : Memory) : Prop where
  /-- Their blocks are freed and their places given back in order. -/
  ends : m.heap.Ends (copies.flatMap ScopeCopy.endings) m'.heap
  /-- Their places go to the end of the queues in order. -/
  queues : ∀ id p, m.pool? id = some p →
    ∃ p', m'.pool? id = some p' ∧ p'.free = p.free ++ placesIn id copies

theorem Released.trans {copies more : List ScopeCopy} (first : m.Released copies m')
    (second : m'.Released more m'') : m.Released (copies ++ more) m'' where
  ends := by
    rw [List.flatMap_append]
    exact first.ends.trans second.ends
  queues := by
    intro id p hp
    obtain ⟨p', hp', hfree'⟩ := first.queues id p hp
    obtain ⟨p'', hp'', hfree''⟩ := second.queues id p' hp'
    refine ⟨p'', hp'', ?_⟩
    rw [hfree'', hfree', List.append_assoc]
    unfold placesIn
    rw [List.flatMap_append, List.filterMap_append]

/-- Work on the heap alone, which frees the blocks of one copy. -/
theorem released_of_heap {copy : ScopeCopy} {h' : Heap} (hplaces : copy.places = [])
    (hends : m.heap.Ends copy.endings h') : m.Released [copy] { m with heap := h' } where
  ends := by simpa using hends
  queues := by
    intro id p hp
    refine ⟨p, hp, ?_⟩
    simp [placesIn, hplaces]

/-- A pool that somebody else refers to has two users at least. -/
theorem Accounts.shared {x : Holder} (ha : m.Accounts (x :: rest)) (hx : id ∈ x.pools)
    (hrest : id ∈ poolsOf rest) (hp : m.pool? id = some p) : 1 < p.users := by
  have husers := (ha.pools id).users
  have hone : 0 < x.pools.count id := List.count_pos_iff.mpr hx
  have htwo : 0 < (poolsOf rest).count id := List.count_pos_iff.mpr hrest
  rw [poolsOf_cons, List.count_append] at husers
  simp only [Memory.users, hp] at husers
  omega

/-- One user fewer of a pool that has more changes nothing but their number. -/
theorem dropPool_shared (hp : m.pool? id = some p) (hmore : 1 < p.users) :
    (m.dropPool id).heap = m.heap ∧
      ∀ j q, m.pool? j = some q → ∃ q', (m.dropPool id).pool? j = some q' ∧ q'.free = q.free := by
  have hkept : m.dropPool id = { m with
      pools := m.pools.insert id { p with users := p.users - 1 } } := by
    unfold dropPool
    rw [hp]
    exact if_neg (Nat.not_le.mpr hmore)
  rw [hkept]
  refine ⟨rfl, fun j q hq => ?_⟩
  by_cases hj : j = id
  · subst hj
    rw [hp] at hq
    cases hq
    exact ⟨_, Table.get?_insert_self _ _ _, rfl⟩
  · exact ⟨q, (Table.get?_insert_of_ne _ _ hj).trans hq, rfl⟩

theorem released_dropBuffer {b : OwnedBuffer} (ha : m.Accounts (.buffer b :: rest)) :
    m.Released [.heap b] { m with heap := b.drop m.heap } := by
  refine released_of_heap rfl ?_
  change m.heap.Ends (b.block?.toList.map .block) _
  unfold OwnedBuffer.drop
  cases hb : b.block? with
  | none => exact .of_history rfl
  | some id =>
      have hlive : (m.heap.block? id).isSome :=
        ha.has.live (by simp [Holder.blocks, OwnedBuffer.blocks, hb])
      exact Heap.ends_release hlive _ _

theorem ends_dropSizes {h : Heap} {b : OwnedBatch} (hh : h.Has b.sizes?.toList) :
    h.Ends (b.sizes?.toList.map .block) (b.dropSizes h) := by
  unfold OwnedBatch.dropSizes
  cases hsizes : b.sizes? with
  | none => exact .of_history rfl
  | some id =>
      rw [hsizes] at hh
      exact Heap.ends_free (hh.live (by simp)) .sizeTable

/-- The data of a batch go first, its size table follows. -/
theorem released_dropBatch {b : OwnedBatch} (ha : m.Accounts (.batch b :: rest)) :
    m.Released [.batch b] { m with heap := b.drop m.heap } := by
  refine released_of_heap rfl ?_
  have hhas : m.heap.Has b.blocks := by
    have hall := ha.has
    rw [blocksOf_cons] at hall
    exact hall.left
  change m.heap.Ends (b.blocks.map .block) _
  unfold OwnedBatch.blocks at hhas ⊢
  unfold OwnedBatch.drop
  cases hdata : b.data? with
  | none =>
      rw [hdata] at hhas
      exact ends_dropSizes hhas
  | some data =>
      rw [hdata] at hhas
      have hlive : (m.heap.block? data).isSome := hhas.left.live (by simp)
      have hrelease := ha.sound.change_release hlive b.total (b.secrecy = .secret)
      rw [List.map_append]
      exact (Heap.ends_release hlive _ _).trans (ends_dropSizes (hhas.after hrelease))

/-- A block of a pool that stays in use goes to the end of the queue. -/
theorem released_releaseBlock {b : PoolBlock} (ha : m.Accounts (.block b :: rest))
    (hrest : b.pool ∈ poolsOf rest) : m.Released [.pooled b] (m.releaseBlock b) := by
  obtain ⟨p, hp⟩ : ∃ p, m.pool? b.pool = some p := ha.pool_live (by simp [Holder.pools])
  have hmore := ha.shared (List.mem_singleton.mpr rfl) hrest hp
  have hroom : p.free.length < p.count := free_lt_count b.index ha hp (by simp [Holder.places])
  -- the block is back in the queue; what is left is one user fewer
  have hrecord := (m.pool?_takeBack p b b.pool).trans (if_pos rfl)
  obtain ⟨hheap, hqueues⟩ := dropPool_shared hrecord hmore
  rw [releaseBlock_of_pool hp]
  refine ⟨?_, fun j q hq => ?_⟩
  · rw [hheap]
    exact m.ends_takeBack p b
  · by_cases hj : j = b.pool
    · subst hj
      rw [hp] at hq
      cases hq
      obtain ⟨q', hq', hfree⟩ := hqueues b.pool _ hrecord
      refine ⟨q', hq', ?_⟩
      rw [hfree, Pool.putBack_of_room hroom]
      simp [placesIn, ScopeCopy.places]
    · have hother := (m.pool?_takeBack p b j).trans (if_neg hj)
      obtain ⟨q', hq', hfree⟩ := hqueues j q (hother.trans hq)
      refine ⟨q', hq', ?_⟩
      simp [placesIn, ScopeCopy.places, hfree, Ne.symm hj]

theorem released_releaseCopy {copy : ScopeCopy} (ha : m.Accounts (copy.holder :: rest))
    (hrest : ∀ id ∈ copy.pools, id ∈ poolsOf rest) : m.Released [copy] (m.releaseCopy copy) := by
  cases copy with
  | pooled b => exact released_releaseBlock ha (hrest b.pool (List.mem_singleton.mpr rfl))
  | heap b => exact released_dropBuffer ha
  | batch b => exact released_dropBatch ha

theorem released_releaseCopies {copies : List ScopeCopy}
    (ha : m.Accounts (copies.map ScopeCopy.holder ++ rest))
    (hrest : ∀ copy ∈ copies, ∀ id ∈ copy.pools, id ∈ poolsOf rest) :
    m.Released copies (m.releaseCopies copies) := by
  induction copies generalizing m with
  | nil => exact ⟨.of_history rfl, fun id p hp => ⟨p, hp, by simp [placesIn]⟩⟩
  | cons copy copies ih =>
      have hfirst : m.Released [copy] (m.releaseCopy copy) := by
        refine released_releaseCopy ha fun id hid => ?_
        change id ∈ poolsOf (copies.map ScopeCopy.holder ++ rest)
        rw [poolsOf_append]
        exact List.mem_append_right _ (hrest copy List.mem_cons_self id hid)
      have hafter := (trade_releaseCopy m copy (copies.map ScopeCopy.holder ++ rest) ha).1
      exact hfirst.trans (ih hafter fun c hc => hrest c (List.mem_cons_of_mem _ hc))

/-- The end of a scope whose pool stays in use releases its copies, newest first, and nothing
else. -/
theorem released_endScope {s : Scope} (ha : m.Accounts (.scope s :: others))
    (hcopies : ∀ copy ∈ s.copies, ∀ id ∈ copy.pools, s.pool? = some id)
    (hothers : ∀ id, s.pool? = some id → id ∈ poolsOf others) :
    m.Released s.copies (m.endScope s) := by
  have hparts : m.Accounts (s.copies.map ScopeCopy.holder ++ (s.poolHolder ++ others)) := by
    rw [← List.append_assoc]
    exact ha.congr ((stakes_scope s).append_right others)
  have hreleased := released_releaseCopies hparts fun copy hcopy id hid => by
    rw [poolsOf_append]
    exact List.mem_append_right _ (hothers id (hcopies copy hcopy id hid))
  have hafter := (trade_releaseCopies m s.copies (s.poolHolder ++ others) hparts).1
  unfold endScope
  unfold Scope.poolHolder at hafter
  cases hpool : s.pool? with
  | none => exact hreleased
  | some id =>
      rw [hpool] at hafter
      have hlast : (m.releaseCopies s.copies).Accounts (.pool id :: others) := hafter
      obtain ⟨p, hp⟩ : ∃ p, (m.releaseCopies s.copies).pool? id = some p :=
        hlast.pool_live (by simp [Holder.pools])
      have hmore := hlast.shared (List.mem_singleton.mpr rfl) (hothers id hpool) hp
      obtain ⟨hheap, hqueues⟩ := dropPool_shared hp hmore
      refine ⟨?_, fun j q hq => ?_⟩
      · change m.heap.Ends _ ((m.releaseCopies s.copies).dropPool id).heap
        rw [hheap]
        exact hreleased.ends
      · obtain ⟨q', hq', hfree⟩ := hreleased.queues j q hq
        obtain ⟨q'', hq'', hfree'⟩ := hqueues j q' hq'
        exact ⟨q'', hq'', hfree'.trans hfree⟩

end Memory

end NativeBoundary

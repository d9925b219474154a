import NativeBoundary.Data.Table
import NativeBoundary.Memory.Block
import NativeBoundary.Memory.Secrecy

/-!
# The native heap

Native memory is a table of live blocks with a history.  Every request to the allocator leaves an
entry there, and an entry for a freed block keeps what the block held at that moment and what it
was freed as.  The trace, which is what the history says of the allocator, is where "wiped before
it is freed" and "freed once" can be seen.  A free of a block that is not live is recorded as well:
it is the one thing that must never happen.  The history also tells when a block of a pool came
back, which the allocator does not see.

The allocator may be told to refuse a later request, and it refuses every request that is larger
than the memory there is.

* `Heap.allocate`, `Heap.allocateCleared` — a new block, or the refusal.
* `Heap.write`, `Heap.wipe`, `Heap.free` — on a live block.
* `Heap.release` — wipe when required, then free.
-/

namespace NativeBoundary

/-- The number of a native block.  Blocks are numbered in the order in which they are made. -/
abbrev BlockId := Nat

/-- What a block is freed as. -/
inductive Holding
  /-- The data of a buffer, a batch or a pool: the number of bytes its owner describes, and
  whether they have to be wiped. -/
  | payload (length : Nat) (wiped : Bool)
  /-- The table of the lengths of a batch. -/
  | sizeTable
  /-- A table of a batch that was rejected. -/
  | rejected
  /-- An object of the native library. -/
  | object
deriving DecidableEq, Repr

/-- What happened at the allocator. -/
inductive HeapEvent
  | allocated (id : BlockId) (size : Nat)
  | refused (size : Nat)
  /-- A block was freed while it held `last`. -/
  | freed (id : BlockId) (last : Block) (holding : Holding)
  /-- A block was freed that was not live. -/
  | misfreed (id : BlockId)
deriving DecidableEq, Repr

/-- What happened in native memory. -/
inductive MemoryEvent
  | allocator (event : HeapEvent)
  /-- The block of a pool came back; `region` is the block that the pool is cut from. -/
  | returned (region : BlockId) (index : Nat)
deriving DecidableEq, Repr

namespace MemoryEvent

/-- What happened at the allocator, if it happened there. -/
def allocator? : MemoryEvent → Option HeapEvent
  | allocator event => some event
  | returned _ _ => none

end MemoryEvent

/-- Native memory and its history. -/
structure Heap where
  blocks : Table BlockId Block := .empty
  /-- The number of the next block. -/
  next : BlockId := 0
  /-- How many requests are still granted before one is refused. -/
  granted : Option Nat := none
  /-- What happened, newest first. -/
  history : List MemoryEvent := []

namespace Heap

/-- What happened at the allocator, newest first. -/
def trace (h : Heap) : List HeapEvent := h.history.filterMap MemoryEvent.allocator?

/-- What happened since an earlier heap, newest first. -/
def historySince (h' h : Heap) : List MemoryEvent :=
  h'.history.take (h'.history.length - h.history.length)

/-- Puts on record that a block of a pool came back. -/
def noteReturned (h : Heap) (region : BlockId) (index : Nat) : Heap :=
  { h with history := .returned region index :: h.history }

/-- A request above this size is refused: of 32 GiB of memory the system keeps one for itself.
Requests are looked at one by one, however much memory is taken already. -/
def capacity : Nat := 0x7C0000000

/-- The block under a number, while it is live. -/
def block? (h : Heap) (id : BlockId) : Option Block := h.blocks.get? id

/-- The numbers of the live blocks, in order. -/
def live (h : Heap) : List BlockId := (List.range h.next).filter h.blocks.contains

/-- A request for a block with the given content. -/
def request (h : Heap) (content : Block) : Option BlockId × Heap :=
  if h.granted = some 0 then
    (none,
      { h with granted := none, history := .allocator (.refused content.size) :: h.history })
  else
    let granted := h.granted.map (· - 1)
    if content.size > capacity then
      (none, { h with granted, history := .allocator (.refused content.size) :: h.history })
    else
      (some h.next,
        { blocks := h.blocks.insert h.next content
          next := h.next + 1
          granted
          history := .allocator (.allocated h.next content.size) :: h.history })

/-- A request for a block that is not cleared. -/
def allocate (h : Heap) (size : Nat) : Option BlockId × Heap := h.request (.uncleared size)

/-- A request for a block of zeros. -/
def allocateCleared (h : Heap) (size : Nat) : Option BlockId × Heap := h.request (.cleared size)

/-- Changes a live block. -/
def update (h : Heap) (id : BlockId) (f : Block → Block) : Heap :=
  { h with blocks := h.blocks.modify id f }

/-- Writes into a live block. -/
def write (h : Heap) (id : BlockId) (offset : Nat) (data : Bytes) : Heap :=
  h.update id (·.write offset data)

/-- Puts zeros into a live block. -/
def wipe (h : Heap) (id : BlockId) (offset n : Nat) : Heap := h.update id (·.wipe offset n)

/-- Reads a live block; nothing can be read where there is none. -/
def read (h : Heap) (id : BlockId) (offset n : Nat) : Bytes :=
  match h.block? id with
  | some b => b.read offset n
  | none => Bytes.zeros n

/-- Gives a block back to the allocator. -/
def free (h : Heap) (id : BlockId) (holding : Holding) : Heap :=
  match h.block? id with
  | some last =>
      { h with
        blocks := h.blocks.erase id
        history := .allocator (.freed id last holding) :: h.history }
  | none => { h with history := .allocator (.misfreed id) :: h.history }

/-- Wipes the `length` bytes that an owner describes, when they have to be, and frees. -/
def release (h : Heap) (id : BlockId) (length : Nat) (wiped : Bool) : Heap :=
  (if wiped then h.wipe id 0 length else h).free id (.payload length wiped)

@[simp] theorem historySince_self (h : Heap) : h.historySince h = [] := by
  rw [historySince, Nat.sub_self, List.take_zero]

@[simp] theorem block?_update (h : Heap) (id j : BlockId) (f : Block → Block) :
    (h.update id f).block? j = if j = id then (h.block? j).map f else h.block? j := by
  unfold update block? Table.modify
  by_cases hj : j = id
  · subst hj
    cases hb : h.blocks.get? j <;> simp [hb]
  · cases hb : h.blocks.get? id <;> simp [hj, Table.get?_insert_of_ne]

/-- A freed block is no longer live; every other block is as it was. -/
theorem block?_free (h : Heap) (id j : BlockId) (holding : Holding) :
    (h.free id holding).block? j = if j = id then none else h.block? j := by
  unfold free
  split
  · simp [block?, Table.get?_erase]
  · rename_i hb
    by_cases hj : j = id
    · subst hj; simpa [block?] using hb
    · simp [hj, block?]

/-- Freeing a live block records what it held. -/
theorem trace_free_of_live {h : Heap} {id : BlockId} {last : Block} (holding : Holding)
    (hb : h.block? id = some last) :
    (h.free id holding).trace = .freed id last holding :: h.trace := by
  simp [free, hb, trace, MemoryEvent.allocator?]

/-- A free that misses is recorded as such. -/
theorem trace_free_of_dead {h : Heap} {id : BlockId} (holding : Holding)
    (hb : h.block? id = none) : (h.free id holding).trace = .misfreed id :: h.trace := by
  simp [free, hb, trace, MemoryEvent.allocator?]

/-- A granted request adds one block and leaves the others. -/
theorem block?_request {h h' : Heap} {content : Block} {id : BlockId}
    (hr : h.request content = (some id, h')) (j : BlockId) :
    h'.block? j = if j = id then some content else h.block? j := by
  unfold request at hr
  repeat' split at hr
  all_goals cases hr
  simp [block?, Table.get?_insert]

/-- A refused request leaves every block. -/
theorem block?_request_none {h h' : Heap} {content : Block}
    (hr : h.request content = (none, h')) (j : BlockId) : h'.block? j = h.block? j := by
  unfold request at hr
  repeat' split at hr
  all_goals cases hr
  all_goals rfl

end Heap

end NativeBoundary

import NativeBoundary.Memory.Buffer

/-!
# Pools

A pool is one region of native memory, cleared when it is made and cut into blocks of one size.
Blocks are handed out from the front of a queue and come back to its end, wiped over their whole
size, so that no block carries a secret from one call to the next.  The region lives as long as
anything uses it: pool values, scopes and bridges that hold the pool, and blocks that are still
handed out.

* `Memory.createPool`, `Memory.sharePool`, `Memory.dropPool` — making a pool and using it.
* `Memory.acquire`, `Memory.acquireWith`, `Memory.writeBlock`, `Memory.releaseBlock` — blocks.
-/

namespace NativeBoundary

/-- The number of a pool: that of its region. -/
abbrev PoolId := BlockId

/-- A pool. -/
structure Pool where
  blockSize : Nat
  count : Nat
  /-- The blocks that nobody holds, next one first. -/
  free : List Nat
  /-- How many blocks are handed out. -/
  inUse : Nat
  /-- How many pool values, scopes, bridges and blocks use the pool. -/
  users : Nat
deriving DecidableEq, Repr

namespace Pool

/-- The number of blocks that can be handed out. -/
def available (p : Pool) : Nat := p.count - p.inUse

/-- A block comes back to the end of the queue, which has room for as many blocks as there are; in
a queue that is full it would be lost. -/
def putBack (p : Pool) (index : Nat) : Pool :=
  { p with
    free := if p.free.length < p.count then p.free ++ [index] else p.free
    inUse := p.inUse - 1 }

/-- A queue with room takes the block. -/
theorem putBack_of_room {p : Pool} (hroom : p.free.length < p.count) (index : Nat) :
    p.putBack index = { p with free := p.free ++ [index], inUse := p.inUse - 1 } := by
  rw [putBack, if_pos hroom]

/-- The pool as a value of its type. -/
def describe (p : Pool) : String :=
  "SecretBlockPool \x7b block_size: " ++ toString p.blockSize ++
    ", capacity: " ++ toString p.count ++ ", in_use: " ++ toString p.inUse ++ " \x7d"

end Pool

/-- A block that somebody holds. -/
structure PoolBlock where
  pool : PoolId
  index : Nat
  /-- How many of its bytes are in use. -/
  length : Nat
deriving DecidableEq, Repr

namespace PoolBlock

/-- The block as a value of its type. -/
def describe (b : PoolBlock) : String :=
  "PoolBlock \x7b index: " ++ toString b.index ++ ", len: " ++ toString b.length ++ " \x7d"

end PoolBlock

/-- Native memory with the pools in it. -/
structure Memory where
  heap : Heap := {}
  pools : Table PoolId Pool := .empty

namespace Memory

/-- The pool under a number, while its region lives. -/
def pool? (m : Memory) (id : PoolId) : Option Pool := m.pools.get? id

/-- The largest length that a request can name, `2⁶⁴ - 1`. -/
def largestLength : Nat := 0xffffffffffffffff

/-- Whether a pool of `count` blocks can be asked for: there are blocks, none is empty or too large
for the size field, and the region has a length. -/
def isPoolShape (count blockSize : Nat) : Bool :=
  0 < count && 0 < blockSize && blockSize ≤ nativeSizeLimit && count * blockSize ≤ largestLength

/-- Makes a pool of `count` blocks with one user, if it has a possible shape and there is memory
for its region. -/
def createPool (m : Memory) (count blockSize : Nat) : Option PoolId × Memory :=
  if isPoolShape count blockSize then
    match m.heap.allocateCleared (count * blockSize) with
    | (none, heap) => (none, { m with heap })
    | (some id, heap) =>
        let pool : Pool := { blockSize, count, free := List.range count, inUse := 0, users := 1 }
        (some id, { heap, pools := m.pools.insert id pool })
  else (none, m)

/-- One more user of a pool. -/
def sharePool (m : Memory) (id : PoolId) : Memory :=
  { m with pools := m.pools.modify id fun p => { p with users := p.users + 1 } }

/-- One user fewer.  With the last one the region is wiped and freed. -/
def dropPool (m : Memory) (id : PoolId) : Memory :=
  match m.pool? id with
  | none => m
  | some p =>
      if p.users ≤ 1 then
        { heap := m.heap.release id (p.count * p.blockSize) true, pools := m.pools.erase id }
      else { m with pools := m.pools.insert id { p with users := p.users - 1 } }

/-- Hands out the block at the front of the queue. -/
def acquire (m : Memory) (id : PoolId) : Option PoolBlock × Memory :=
  match m.pool? id with
  | none => (none, m)
  | some p =>
      match p.free with
      | [] => (none, m)
      | index :: free =>
          (some { pool := id, index, length := 0 },
            { m with
              pools := m.pools.insert id
                { p with free, inUse := p.inUse + 1, users := p.users + 1 } })

/-- Where a block of a pool starts in the region. -/
def blockOffset (p : Pool) (index : Nat) : Nat := index * p.blockSize

/-- Replaces what a block holds.  Nothing happens when it does not fit. -/
def writeBlock (m : Memory) (b : PoolBlock) (data : Bytes) : Option PoolBlock × Memory :=
  match m.pool? b.pool with
  | none => (none, m)
  | some p =>
      if data.length > p.blockSize then (none, m)
      else
        let offset := blockOffset p b.index
        (some { b with length := data.length },
          { m with heap := (m.heap.wipe b.pool offset b.length).write b.pool offset data })

/-- Hands out a block that holds `data`, if it fits and a block is free. -/
def acquireWith (m : Memory) (id : PoolId) (data : Bytes) : Option PoolBlock × Memory :=
  match m.pool? id with
  | none => (none, m)
  | some p =>
      if data.length > p.blockSize then (none, m)
      else
        match m.acquire id with
        | (none, m) => (none, m)
        | (some b, m) => m.writeBlock b data

/-- Takes a block back: it is wiped over its whole size and joins the end of the queue. -/
def takeBack (m : Memory) (p : Pool) (b : PoolBlock) : Memory where
  heap := (m.heap.wipe b.pool (blockOffset p b.index) p.blockSize).noteReturned b.pool b.index
  pools := m.pools.insert b.pool (p.putBack b.index)

/-- Takes a block back, after which its pool has one user fewer. -/
def releaseBlock (m : Memory) (b : PoolBlock) : Memory :=
  match m.pool? b.pool with
  | none => m
  | some p => (m.takeBack p b).dropPool b.pool

theorem pool?_takeBack (m : Memory) (p : Pool) (b : PoolBlock) (id : PoolId) :
    (m.takeBack p b).pool? id = if id = b.pool then some (p.putBack b.index) else m.pool? id :=
  Table.get?_insert m.pools b.pool id _

theorem releaseBlock_of_pool {m : Memory} {p : Pool} {b : PoolBlock}
    (hp : m.pool? b.pool = some p) : m.releaseBlock b = (m.takeBack p b).dropPool b.pool := by
  rw [releaseBlock, hp]

/-- The bytes that a block holds. -/
def blockBytes (m : Memory) (b : PoolBlock) : Bytes :=
  match m.pool? b.pool with
  | none => []
  | some p => m.heap.read b.pool (blockOffset p b.index) b.length

/-- The block as a raw buffer, for as long as it is held. -/
def blockRaw (m : Memory) (b : PoolBlock) : RawBuffer :=
  match m.pool? b.pool with
  | none => .empty
  | some p =>
      if b.length = 0 then .empty
      else ⟨.native b.pool (blockOffset p b.index), Int32.ofNat b.length⟩

/-- All bytes of a block of a pool, held or not. -/
def inspectBlock (m : Memory) (id : PoolId) (index : Nat) : Option Bytes :=
  match m.pool? id with
  | none => none
  | some p =>
      if index < p.count then some (m.heap.read id (blockOffset p index) p.blockSize) else none

end Memory

end NativeBoundary

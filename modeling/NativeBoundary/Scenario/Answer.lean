import NativeBoundary.Call
import NativeBoundary.Handles.NativeObject
import NativeBoundary.Kem.Entry
import NativeBoundary.Transport.Entry

/-!
# Answers

What a step of a scenario shows: a domain value, together with those bytes that can only be read
while the step runs.  A record is the answer of a step with everything that happened at the heap
and in the log meanwhile.
-/

namespace NativeBoundary.Scenario

/-- What happened in one step. -/
structure Record (α : Type) where
  answer : α
  /-- Events at the heap, oldest first. -/
  events : List HeapEvent := []
  /-- Notices, oldest first. -/
  notices : List Notice := []

/-- A held block of a pool with its bytes. -/
structure BlockView where
  block : PoolBlock
  capacity : Nat
  bytes : Bytes
  raw : RawBuffer

/-- A buffer that an entry point has left in an out-parameter, or nothing if it was untouched. -/
abbrev OutView := Option (RawBuffer × Bytes)

/-- The lengths of a raw buffer that was made of memory that cannot be read. -/
structure Extent where
  size : Int32
  length : Nat

/-- The outcome of a call with a policy bound or of a whole call. -/
abbrev CallReply := Reply Fault Unit

/-- The answer of a step. -/
inductive Answer
  /-- There is nothing to report. -/
  | nothing
  /-- The step names an empty slot. -/
  | noSlot
  | fault (fault : Fault)
  | kemRefusal (error : KemError)
  | transportRefusal (fault : TransportFault)
  | panicked (message : String)
  | done
  | flag (value : Bool)
  | count (n : Nat)
  | bytes (bytes : Bytes)
  | bytesList (items : List Bytes)
  | view (buffer : RawBuffer) (bytes : Bytes)
  | owned (buffer : OwnedBuffer) (bytes : Bytes)
  | raw (buffer : RawBuffer) (bytes : Bytes)
  | extent (extent : Extent)
  /-- The extent of a scope input, or why there is none, and the number of copies. -/
  | scopeExtent (extent : Except Fault Extent) (owned : Nat)
  | batch (batch : OwnedBatch) (lengths : List Nat) (entries : List Bytes)
  | rawBatch (batch : RawBatch)
  | pool (pool : Pool)
  | block (view : BlockView)
  | written (ok : Bool) (view : BlockView)
  | scope (scope : Scope)
  | input (buffer : RawBuffer) (bytes : Bytes) (owned : Nat)
  | inputBatch (batch : RawBatch) (owned : Nat)
  | handle (handle : Handle)
  /-- A handle that a named owner stands for, and that owner as a value of its type. -/
  | holder (handle : Handle) (shown : String)
  | value (value : HostValue)
  | registry (size : Nat) (shown : String)
  | handleInfo (handle : Handle) (back : Option Handle)
  /-- Numbers of distinct handles, their span, and the registry's size before and after. -/
  | concurrent (distinct span size after : Nat)
  /-- An object that was taken over: whether its pointer is the given one, and how it is shown. -/
  | object (same : Bool) (shown : String)
  | slot (handle : Option Handle) (bound : Bool)
  | encapsulated (ciphertext secret : Bytes)
  | code (code : Int32)
  | encapsulateReply (code : Int32) (ciphertext secret : OutView)
  | outReply (code : Int32) (out : OutView)
  | batchReply (code : Int32) (out : Option (RawBatch × Except Fault (List Bytes)))
  | tables (kem transport : String)
  | bridge (bridge : Bridge) (pool : Option Pool) (shown : String)
  | bridgePool (pool : Option Pool)
  | parties (shown : List (Nat × String))
  | opened (handle : Handle) (shown : String)
  | sent (messages : List (Nat × Bytes))
  | shares (received : List (Int32 × List Bytes))
  | thread (body : List (Record Answer))
  | bound (body : List (Record Answer)) (reply : CallReply) (bound : Bool)
  | invoked (body : List (Record Answer)) (reply : CallReply) (bound : Bool)
      (inUse : Option Nat) (released : List HeapEvent)

end NativeBoundary.Scenario

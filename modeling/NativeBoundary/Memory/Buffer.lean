import NativeBoundary.Config.Settings
import NativeBoundary.Fault
import NativeBoundary.Memory.Heap

/-!
# Buffers

A raw buffer is the pair that the native side speaks: a pointer and a signed 32-bit size.  A
null pointer or a size that is not positive means "no bytes".  On the host side every raw buffer
belongs to one of two types.  A view lends host memory and owns nothing.  An owned buffer holds
a native block: dropping it wipes the block when it has to be and frees it, and handing it over
as a raw buffer passes that duty on.

What comes back from native code is of unknown secrecy, so it is adopted as secret.

* `OwnedBuffer.copyFrom` — a copy of host bytes in native memory, or the reason why not.
* `OwnedBuffer.adopt` — a raw buffer whose block belongs to the host from now on.
* `OwnedBuffer.drop` — wipe and free.
* `RawBuffer.take` — copy a raw buffer out, then wipe and free it.
-/

namespace NativeBoundary

/-- Where a pointer leads. -/
inductive Pointer
  | null
  /-- Into a native block. -/
  | native (block : BlockId) (offset : Nat)
  /-- To host memory that holds these bytes. -/
  | host (bytes : Bytes)
deriving DecidableEq, Repr

namespace Pointer

/-- Whether a pointer leads nowhere. -/
def isNull : Pointer → Bool
  | null => true
  | _ => false

/-- Whether a pointer leads into host memory. -/
def isHost : Pointer → Bool
  | host _ => true
  | _ => false

/-- The block whose first byte a pointer leads to: what can be freed. -/
def block? : Pointer → Option BlockId
  | native id 0 => some id
  | _ => none

/-- The pointer to a block, or null. -/
def ofBlock? : Option BlockId → Pointer
  | some id => native id 0
  | none => null

/-- The `n` bytes behind a pointer. -/
def read (p : Pointer) (h : Heap) (n : Nat) : Bytes :=
  match p with
  | null => []
  | native id offset => h.read id offset n
  | host bytes => bytes.take n

@[simp] theorem block?_ofBlock? (id : Option BlockId) : (ofBlock? id).block? = id := by
  cases id <;> rfl

end Pointer

/-- A pointer and a size, as the native side speaks them. -/
structure RawBuffer where
  data : Pointer
  size : Int32
deriving DecidableEq, Repr

namespace RawBuffer

/-- The buffer without bytes. -/
def empty : RawBuffer := ⟨.null, 0⟩

instance : Inhabited RawBuffer := ⟨empty⟩

/-- Whether a buffer carries no bytes. -/
def isEmpty (b : RawBuffer) : Bool := b.data.isNull || b.size ≤ 0

/-- The number of bytes that a buffer carries. -/
def length (b : RawBuffer) : Nat := if b.isEmpty then 0 else b.size.toInt.toNat

/-- The bytes that a buffer carries. -/
def bytes (b : RawBuffer) (h : Heap) : Bytes := b.data.read h b.length

end RawBuffer

/-- A length that does not fit the size field. -/
def Fault.oversized (n : Nat) : Fault :=
  .badArgument s!"buffer of {n} bytes exceeds the native size field"

/-- A block that the allocator refused. -/
def Fault.noMemory (n : Nat) : Fault := .badArgument s!"native allocation of {n} bytes failed"

/-- A length as a size field. -/
def sizeField (n : Nat) : Except Fault Int32 :=
  if n ≤ nativeSizeLimit then .ok (Int32.ofNat n) else .error (.oversized n)

/-- The view of host bytes; the view of none is null. -/
def RawBuffer.view (bytes : Bytes) : Except Fault RawBuffer := do
  let size ← sizeField bytes.length
  return ⟨if bytes = [] then .null else .host bytes, size⟩

/-- A native block that the host owns, or none for an empty buffer. -/
structure OwnedBuffer where
  block? : Option BlockId
  length : Nat
  secrecy : Secrecy
  /-- Wipe the block on release even if its content is public. -/
  wipePublic : Bool := false
deriving DecidableEq, Repr

namespace OwnedBuffer

/-- The buffer without a block. -/
def empty (secrecy : Secrecy) : OwnedBuffer := { block? := none, length := 0, secrecy }

/-- A copy of host bytes in native memory.  No bytes need no memory. -/
def copyFrom (bytes : Bytes) (secrecy : Secrecy) (h : Heap) : Except Fault OwnedBuffer × Heap :=
  if bytes.length > nativeSizeLimit then (.error (.oversized bytes.length), h)
  else if bytes = [] then (.ok (empty secrecy), h)
  else
    match h.allocate bytes.length with
    | (none, h) => (.error (.noMemory bytes.length), h)
    | (some id, h) =>
        (.ok { block? := some id, length := bytes.length, secrecy }, h.write id 0 bytes)

/-- Takes over the block of a raw buffer.  What it holds may be secret. -/
def adopt (raw : RawBuffer) : OwnedBuffer :=
  match raw.data.block? with
  | some id => { block? := some id, length := raw.size.toInt.toNat, secrecy := .secret }
  | none => empty .secret

/-- The raw buffer that shows a buffer to native code, and that hands it over. -/
def raw (b : OwnedBuffer) : RawBuffer :=
  match b.block? with
  | some id => ⟨.native id 0, Int32.ofNat b.length⟩
  | none => .empty

/-- The bytes of a buffer. -/
def bytes (b : OwnedBuffer) (h : Heap) : Bytes :=
  match b.block? with
  | some id => h.read id 0 b.length
  | none => []

/-- Whether a buffer is wiped on release. -/
def mustWipe (b : OwnedBuffer) : Bool := b.secrecy.mustWipe b.wipePublic

/-- Releases a buffer: its bytes are wiped when they have to be, then the block is freed. -/
def drop (b : OwnedBuffer) (h : Heap) : Heap :=
  match b.block? with
  | some id => h.release id b.length b.mustWipe
  | none => h

end OwnedBuffer

namespace RawBuffer

/-- A copy of host bytes for native code to keep; empty when there was no memory for it. -/
def allocate (bytes : Bytes) (h : Heap) : RawBuffer × Heap :=
  match OwnedBuffer.copyFrom bytes .secret h with
  | (.ok owned, h) => (owned.raw, h)
  | (.error _, h) => (empty, h)

/-- Copies a raw buffer out, then wipes and frees it.  An empty one is left alone. -/
def take (b : RawBuffer) (h : Heap) : Bytes × Heap :=
  if b.isEmpty then ([], h)
  else
    let owned := OwnedBuffer.adopt b
    (owned.bytes h, owned.drop h)

/-- Wipes and frees a raw buffer. -/
def discard (b : RawBuffer) (h : Heap) : Heap := (OwnedBuffer.adopt b).drop h

end RawBuffer

end NativeBoundary

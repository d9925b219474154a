import NativeBoundary.Memory.Buffer

/-!
# Batches

A batch is a list of byte strings in one piece: their concatenation in one block, and a table of
their lengths in another.  The empty batch has no tables at all, and a batch of empty strings has
a table of zeros and no data block, so the two are never confused.

A batch that comes back from native code is checked before it is read.  One that is malformed is
released at once and rejected with the first rule that it breaks.

* `OwnedBatch.copyFrom` — a list of byte strings in native memory, or the reason why not.
* `OwnedBatch.adopt` — a raw batch whose tables belong to the host from now on, or the rejection.
* `OwnedBatch.entries` — the byte strings of a batch.
* `OwnedBatch.drop` — data wiped when secret, then both tables freed.
-/

namespace NativeBoundary

/-- Two pointers and a count, as the native side speaks them. -/
structure RawBatch where
  data : Pointer
  sizes : Pointer
  count : Int32
deriving DecidableEq, Repr

namespace RawBatch

/-- The batch without byte strings. -/
def empty : RawBatch := ⟨.null, .null, 0⟩

instance : Inhabited RawBatch := ⟨empty⟩

/-- The number of byte strings. -/
def length (b : RawBatch) : Nat := b.count.toInt.toNat

/-- Whether a batch has no byte strings. -/
def isEmpty (b : RawBatch) : Bool := b.count ≤ 0

end RawBatch

/-- The length of byte strings of the given lengths together. -/
def totalOf (lengths : List Nat) : Nat := lengths.foldr (· + ·) 0

/-- Which rule a batch from native code breaks. -/
inductive Malformation
  | negativeCount
  | missingSizes
  | negativeLength
  | missingData
deriving DecidableEq, Repr

namespace Malformation

/-- The broken rule in words. -/
def message : Malformation → String
  | negativeCount => "negative count"
  | missingSizes => "missing size table"
  | negativeLength => "negative entry length"
  | missingData => "missing data block"

/-- The rejection as a fault. -/
def fault (m : Malformation) : Fault := .badArgument s!"malformed native batch: {m.message}"

end Malformation

/-- The native tables of a batch that the host owns. -/
structure OwnedBatch where
  data? : Option BlockId
  sizes? : Option BlockId
  count : Nat
  /-- The length of all byte strings together. -/
  total : Nat
  secrecy : Secrecy
deriving DecidableEq, Repr

namespace OwnedBatch

/-- The batch without tables. -/
def empty (secrecy : Secrecy) : OwnedBatch :=
  { data? := none, sizes? := none, count := 0, total := 0, secrecy }

/-- The number of byte strings, the length of each and their total all have to fit the size
field; the total is the answer. -/
def measure (lengths : List Nat) : Except Fault Nat :=
  if lengths.length > nativeSizeLimit then .error (.oversized lengths.length)
  else
    match lengths.find? (· > nativeSizeLimit) with
    | some n => .error (.oversized n)
    | none =>
        if totalOf lengths > nativeSizeLimit then .error (.oversized (totalOf lengths))
        else .ok (totalOf lengths)

/-- The size table of a list of byte strings. -/
def sizeTable (items : List Bytes) : Bytes :=
  items.flatMap fun item => Bytes.ofInt32 (Int32.ofNat item.length)

/-- A list of byte strings in native memory.  An empty list needs no memory. -/
def copyFrom (items : List Bytes) (secrecy : Secrecy) (h : Heap) :
    Except Fault OwnedBatch × Heap :=
  if items = [] then (.ok (empty secrecy), h)
  else
    let count := items.length
    match measure (items.map List.length) with
    | .error fault => (.error fault, h)
    | .ok total =>
        match h.allocate (4 * count) with
        | (none, h) =>
            (.error (.badArgument s!"native allocation of {count} batch sizes failed"), h)
        | (some sizes, h) =>
            if total = 0 then
              (.ok { data? := none, sizes? := some sizes, count, total, secrecy },
                h.write sizes 0 (sizeTable items))
            else
              match h.allocate total with
              | (none, h) =>
                  (.error (.badArgument s!"native allocation of {total} batch bytes failed"),
                    h.free sizes .sizeTable)
              | (some data, h) =>
                  (.ok { data? := some data, sizes? := some sizes, count, total, secrecy },
                    (h.write sizes 0 (sizeTable items)).write data 0 items.flatten)

/-- The first rule that a raw batch breaks; otherwise the total of its lengths. -/
def inspect (raw : RawBatch) (h : Heap) : Except Malformation Nat :=
  if raw.count < 0 then .error .negativeCount
  else if raw.count = 0 then .ok 0
  else if raw.sizes.isNull then .error .missingSizes
  else
    let lengths := Bytes.toInt32s (raw.sizes.read h (4 * raw.length))
    if lengths.any (· < 0) then .error .negativeLength
    else
      let total := totalOf (lengths.map fun n => n.toInt.toNat)
      if total > 0 && raw.data.isNull then .error .missingData else .ok total

/-- Frees a table of a rejected batch. -/
def freeRejected (table : Pointer) (h : Heap) : Heap :=
  match table.block? with
  | some id => h.free id .rejected
  | none => h

/-- Takes over the tables of a raw batch.  A malformed one is released and rejected. -/
def adopt (raw : RawBatch) (h : Heap) : Except Malformation OwnedBatch × Heap :=
  match inspect raw h with
  | .error reason => (.error reason, freeRejected raw.sizes (freeRejected raw.data h))
  | .ok total =>
      (.ok { data? := raw.data.block?, sizes? := raw.sizes.block?, count := raw.length, total,
             secrecy := .secret }, h)

/-- The raw batch that shows a batch to native code, and that hands it over. -/
def raw (b : OwnedBatch) : RawBatch :=
  ⟨.ofBlock? b.data?, .ofBlock? b.sizes?, Int32.ofNat b.count⟩

/-- The length of each byte string. -/
def lengths (b : OwnedBatch) (h : Heap) : List Nat :=
  match b.sizes? with
  | some id => (Bytes.toInt32s (h.read id 0 (4 * b.count))).map fun n => n.toInt.toNat
  | none => []

/-- Cuts a byte string into parts of the given lengths. -/
def cut : List Nat → Bytes → List Bytes
  | [], _ => []
  | n :: lengths, data => data.take n :: cut lengths (data.drop n)

/-- The byte strings of a batch, empty ones included. -/
def entries (b : OwnedBatch) (h : Heap) : List Bytes :=
  match b.data? with
  | some id => cut (b.lengths h) (h.read id 0 (totalOf (b.lengths h)))
  | none => (b.lengths h).map fun _ => []

/-- Frees the size table, if there is one. -/
def dropSizes (b : OwnedBatch) (h : Heap) : Heap :=
  match b.sizes? with
  | some id => h.free id .sizeTable
  | none => h

/-- Releases a batch: its data is wiped when it is secret, then both tables are freed. -/
def drop (b : OwnedBatch) (h : Heap) : Heap :=
  match b.data? with
  | some id => b.dropSizes (h.release id b.total (b.secrecy = .secret))
  | none => b.dropSizes h

end OwnedBatch

namespace RawBatch

/-- Copies a raw batch out, then wipes and frees it. -/
def take (b : RawBatch) (h : Heap) : Except Malformation (List Bytes) × Heap :=
  match OwnedBatch.adopt b h with
  | (.ok owned, h) => (.ok (owned.entries h), owned.drop h)
  | (.error reason, h) => (.error reason, h)

/-- Wipes and frees a raw batch; says so when it was malformed. -/
def discard (b : RawBatch) (h : Heap) : Option Malformation × Heap :=
  match OwnedBatch.adopt b h with
  | (.ok owned, h) => (none, owned.drop h)
  | (.error reason, h) => (some reason, h)

end RawBatch

end NativeBoundary

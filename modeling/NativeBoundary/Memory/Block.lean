import NativeBoundary.Data.Bytes

/-!
# Blocks of native memory

A block is what the native allocator hands out: a number of bytes that can be read, written
and wiped.  Only its leading bytes are kept; every byte behind them is zero.  That makes a
cleared region of any size as cheap as an empty one.

* `byteAt` — the view through which everything is stated.
* `byteAt_wipe`, `byteAt_write` — what wiping and writing do to each byte.
-/

namespace NativeBoundary

/-- A block: its size, and its leading bytes; what lies behind them is zero. -/
structure Block where
  size : Nat
  lead : Bytes
deriving DecidableEq, Repr

namespace Block

/-- A block that the allocator has cleared. -/
def cleared (size : Nat) : Block := ⟨size, []⟩

/-- A block as the allocator hands it out uncleared.  Its first bytes still hold the link of the
allocator's free list, a scrambled 48-bit address. -/
def uncleared (size : Nat) : Block := ⟨size, List.replicate (min size 6) 0xff⟩

/-- The byte at an offset. -/
def byteAt (b : Block) (i : Nat) : UInt8 := b.lead.getD i 0

/-- The `n` bytes from an offset on. -/
def read (b : Block) (offset n : Nat) : Bytes :=
  let part := (b.lead.drop offset).take n
  part ++ Bytes.zeros (n - part.length)

/-- The block with `data` from an offset on. -/
def write (b : Block) (offset : Nat) (data : Bytes) : Block :=
  if data = [] then b
  else
    let front := b.lead.take offset
    { b with
      lead := front ++ Bytes.zeros (offset - front.length) ++ data ++
        b.lead.drop (offset + data.length) }

/-- The block with zeros in the `n` bytes from an offset on. -/
def wipe (b : Block) (offset n : Nat) : Block :=
  if b.lead.length ≤ offset + n then { b with lead := b.lead.take offset }
  else { b with lead := b.lead.take offset ++ Bytes.zeros n ++ b.lead.drop (offset + n) }

/-- Number of bytes that are not zero. -/
def nonzero (b : Block) : Nat := Bytes.nonzero b.lead

@[simp] theorem size_write (b : Block) (offset : Nat) (data : Bytes) :
    (b.write offset data).size = b.size := by
  unfold write; split <;> rfl

@[simp] theorem size_wipe (b : Block) (offset n : Nat) : (b.wipe offset n).size = b.size := by
  unfold wipe; split <;> rfl

@[simp] theorem length_read (b : Block) (offset n : Nat) : (b.read offset n).length = n := by
  simp only [read, List.length_append, List.length_take, List.length_drop, Bytes.length_zeros]
  omega

/-- Wiping clears the bytes it names and leaves the others. -/
theorem byteAt_wipe (b : Block) (offset n i : Nat) :
    (b.wipe offset n).byteAt i = if offset ≤ i ∧ i < offset + n then 0 else b.byteAt i := by
  unfold wipe byteAt
  simp only [List.getD_eq_getElem?_getD]
  by_cases h : b.lead.length ≤ offset + n
  · rw [if_pos h]
    by_cases hi : i < offset
    · rw [if_neg (by omega)]
      simp [hi]
    · by_cases hn : i < offset + n
      · rw [if_pos (by omega), List.getElem?_eq_none (by rw [List.length_take]; omega)]
        rfl
      · rw [if_neg (by omega), List.getElem?_eq_none (by simp; omega),
          List.getElem?_eq_none (by omega)]
  · rw [if_neg h]
    have hl : offset + n < b.lead.length := by omega
    have ht : (b.lead.take offset).length = offset := by simp; omega
    by_cases hi : i < offset
    · rw [if_neg (by omega), List.append_assoc, List.getElem?_append_left (by omega)]
      simp [hi]
    · by_cases hn : i < offset + n
      · rw [if_pos (by omega), List.getElem?_append_left (by simp; omega),
          List.getElem?_append_right (by omega), ht]
        simp [Bytes.zeros, List.getElem?_replicate]
        split <;> rfl
      · rw [if_neg (by omega), List.getElem?_append_right (by simp; omega)]
        simp only [List.length_append, ht, Bytes.length_zeros, List.getElem?_drop]
        congr 2
        omega

/-- Writing changes the bytes it covers and leaves the others. -/
theorem byteAt_write (b : Block) (offset : Nat) (data : Bytes) (i : Nat) :
    (b.write offset data).byteAt i =
      if offset ≤ i ∧ i < offset + data.length then data.getD (i - offset) 0 else b.byteAt i := by
  unfold write byteAt
  simp only [List.getD_eq_getElem?_getD]
  by_cases hd : data = []
  · subst hd
    rw [if_pos rfl, if_neg (by simp)]
  · rw [if_neg hd]
    have ht : (b.lead.take offset ++ Bytes.zeros (offset - (b.lead.take offset).length)).length
        = offset := by
      simp only [List.length_append, List.length_take, Bytes.length_zeros]
      omega
    by_cases hi : i < offset
    · rw [if_neg (by omega), List.append_assoc, List.append_assoc,
        ← List.append_assoc, List.getElem?_append_left (by omega)]
      by_cases hb : i < b.lead.length
      · rw [List.getElem?_append_left (by simp; omega)]
        simp [hi]
      · rw [List.getElem?_append_right (by simp; omega), List.getElem?_eq_none (l := b.lead)
          (by omega)]
        simp only [Bytes.zeros, List.getElem?_replicate]
        split <;> rfl
    · by_cases hn : i < offset + data.length
      · rw [if_pos (by omega), List.getElem?_append_left (by
          rw [List.length_append, ht]; omega), List.getElem?_append_right (by omega), ht]
      · rw [if_neg (by omega), List.getElem?_append_right (by
          rw [List.length_append, ht]; omega)]
        simp only [List.length_append, List.getElem?_drop]
        rw [List.length_append] at ht
        rw [ht]
        congr 2
        omega

end Block

end NativeBoundary

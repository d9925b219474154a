import NativeBoundary.Proofs.Memory.Conservation

/-!
# How copies are made

Host bytes are copied into one new block, and a list of byte strings into two: its lengths first,
and its data then.  What has no bytes needs no block.  A copy is refused for its length, or when the
allocator refuses; a batch that gets a block for its lengths and none for its data gives the first
one back.

Each of `Copying` and `Refusal` lists these ways for one kind of copy, with everything that is asked
of the allocator and written; what a copy does to memory is shown for each of them.
-/

namespace NativeBoundary

namespace Heap

variable {h h' h'' : Heap} {content content' : Block} {id id' : BlockId}

/-- Of two blocks, the one that was requested later has the higher number. -/
theorem request_lt (hr : h.request content = (some id, h'))
    (hr' : h'.request content' = (some id', h'')) : id < id' := by
  obtain ⟨hid, hnext, -⟩ := request_granted hr
  obtain ⟨hid', -⟩ := request_granted hr'
  rw [hid', hnext, hid]
  exact Nat.lt_succ_self _

/-- A block that was requested is there. -/
theorem block?_granted (hr : h.request content = (some id, h')) :
    h'.block? id = some content := by
  rw [block?_request hr, if_pos rfl]

/-- It is still there when another one was requested. -/
theorem block?_granted_before (hr : h.request content = (some id, h'))
    (hr' : h'.request content' = (some id', h'')) : h''.block? id = some content := by
  rw [block?_request hr', if_neg (Nat.ne_of_lt (request_lt hr hr')), block?_granted hr]

end Heap

namespace OwnedBuffer

variable {bytes : Bytes} {secrecy : Secrecy} {h h' : Heap} {b : OwnedBuffer} {fault : Fault}

/-- The ways a copy is made. -/
inductive Copying (bytes : Bytes) (secrecy : Secrecy) (h : Heap) : OwnedBuffer → Heap → Prop
  | empty (hnone : bytes = []) : Copying bytes secrecy h (empty secrecy) h
  | block {id : BlockId} {made : Heap} (hsome : bytes ≠ [])
      (hfits : bytes.length ≤ nativeSizeLimit)
      (hblock : h.allocate bytes.length = (some id, made)) :
      Copying bytes secrecy h { block? := some id, length := bytes.length, secrecy }
        (made.write id 0 bytes)

/-- The ways a copy is refused. -/
inductive Refusal (bytes : Bytes) (h : Heap) : Fault → Heap → Prop
  | oversized (hlong : nativeSizeLimit < bytes.length) : Refusal bytes h (.oversized bytes.length) h
  | noMemory {refused : Heap} (hsome : bytes ≠ []) (hfits : bytes.length ≤ nativeSizeLimit)
      (hblock : h.allocate bytes.length = (none, refused)) :
      Refusal bytes h (.noMemory bytes.length) refused

theorem copying_of_copyFrom (hc : copyFrom bytes secrecy h = (.ok b, h')) :
    Copying bytes secrecy h b h' := by
  unfold copyFrom at hc
  split at hc
  · cases hc
  · rename_i hfits
    split at hc
    · rename_i hnone
      cases hc
      exact .empty hnone
    · rename_i hsome
      split at hc
      · cases hc
      · rename_i id made hblock
        cases hc
        exact .block hsome (Nat.le_of_not_lt hfits) hblock

theorem refusal_of_copyFrom (hc : copyFrom bytes secrecy h = (.error fault, h')) :
    Refusal bytes h fault h' := by
  unfold copyFrom at hc
  split at hc
  · rename_i hlong
    cases hc
    exact .oversized hlong
  · rename_i hfits
    split at hc
    · cases hc
    · rename_i hsome
      split at hc
      · rename_i refused hblock
        cases hc
        exact .noMemory hsome (Nat.le_of_not_lt hfits) hblock
      · cases hc

end OwnedBuffer

namespace OwnedBatch

variable {items : List Bytes} {secrecy : Secrecy} {h h' : Heap} {b : OwnedBatch} {fault : Fault}

/-- The ways a batch is made: without tables, with lengths only, or with both tables. -/
inductive Copying (items : List Bytes) (secrecy : Secrecy) (h : Heap) : OwnedBatch → Heap → Prop
  | empty (hnone : items = []) : Copying items secrecy h (empty secrecy) h
  | lengths {total : Nat} {sizes : BlockId} {made : Heap} (hsome : items ≠ []) (hzero : total = 0)
      (hmeasure : measure (items.map List.length) = .ok total)
      (hsizes : h.allocate (4 * items.length) = (some sizes, made)) :
      Copying items secrecy h
        { data? := none, sizes? := some sizes, count := items.length, total, secrecy }
        (made.write sizes 0 (sizeTable items))
  | full {total : Nat} {sizes data : BlockId} {middle made : Heap} (hsome : items ≠ [])
      (hpos : total ≠ 0) (hmeasure : measure (items.map List.length) = .ok total)
      (hsizes : h.allocate (4 * items.length) = (some sizes, middle))
      (hdata : middle.allocate total = (some data, made)) :
      Copying items secrecy h
        { data? := some data, sizes? := some sizes, count := items.length, total, secrecy }
        ((made.write sizes 0 (sizeTable items)).write data 0 items.flatten)

/-- The ways a batch is refused. -/
inductive Refusal (items : List Bytes) (h : Heap) : Fault → Heap → Prop
  | oversized {fault : Fault} (hmeasure : measure (items.map List.length) = .error fault) :
      Refusal items h fault h
  | noSizes {refused : Heap} (reason : String)
      (hsizes : h.allocate (4 * items.length) = (none, refused)) :
      Refusal items h (.badArgument reason) refused
  | noData {total : Nat} {sizes : BlockId} {middle refused : Heap} (reason : String)
      (hsizes : h.allocate (4 * items.length) = (some sizes, middle))
      (hdata : middle.allocate total = (none, refused)) :
      Refusal items h (.badArgument reason) (refused.free sizes .sizeTable)

theorem copying_of_copyFrom (hc : copyFrom items secrecy h = (.ok b, h')) :
    Copying items secrecy h b h' := by
  unfold copyFrom at hc
  split at hc
  · rename_i hnone
    cases hc
    exact .empty hnone
  · rename_i hsome
    simp only at hc
    split at hc
    · cases hc
    · rename_i total hmeasure
      split at hc
      · cases hc
      · rename_i sizes middle hsizes
        split at hc
        · rename_i hzero
          cases hc
          exact .lengths hsome hzero hmeasure hsizes
        · rename_i hpos
          split at hc
          · cases hc
          · rename_i data made hdata
            cases hc
            exact .full hsome hpos hmeasure hsizes hdata

theorem refusal_of_copyFrom (hc : copyFrom items secrecy h = (.error fault, h')) :
    Refusal items h fault h' := by
  unfold copyFrom at hc
  split at hc
  · cases hc
  · simp only at hc
    split at hc
    · rename_i hmeasure
      cases hc
      exact .oversized hmeasure
    · split at hc
      · rename_i refused hsizes
        cases hc
        exact .noSizes _ hsizes
      · rename_i sizes middle hsizes
        split at hc
        · cases hc
        · split at hc
          · rename_i refused hdata
            cases hc
            exact .noData _ hsizes hdata
          · cases hc

end OwnedBatch

end NativeBoundary

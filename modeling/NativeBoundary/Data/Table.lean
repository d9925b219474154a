/-!
# Tables

A table is a finite map: a list of key and value pairs in which no key occurs twice.
Handles name objects, identifiers name native blocks, slots name whatever a session
created; all of these are tables.  A new pair goes to the front, so the pairs stand
from the newest to the oldest.

* `get?_insert`, `get?_erase` — a change is seen under its own key and under no other.
-/

namespace NativeBoundary

/-- A finite map from `κ` to `υ`, newest pair first. -/
structure Table (κ : Type) (υ : Type) where
  entries : List (κ × υ)
  nodup : (entries.map Prod.fst).Nodup

namespace Table

variable {κ υ : Type}

/-- The table without entries. -/
def empty : Table κ υ := ⟨[], by simp⟩

instance : Inhabited (Table κ υ) := ⟨empty⟩

/-- Number of keys. -/
def size (t : Table κ υ) : Nat := t.entries.length

/-- The keys, newest first. -/
def keys (t : Table κ υ) : List κ := t.entries.map Prod.fst

/-- The values, newest first. -/
def values (t : Table κ υ) : List υ := t.entries.map Prod.snd

theorem length_keys (t : Table κ υ) : t.keys.length = t.size := List.length_map _

variable [DecidableEq κ]

/-- The value under `k`. -/
def get? (t : Table κ υ) (k : κ) : Option υ :=
  (t.entries.find? fun e => e.1 = k).map Prod.snd

/-- Whether there is a value under `k`. -/
def contains (t : Table κ υ) (k : κ) : Bool := (t.get? k).isSome

/-- The table without the key `k`. -/
def erase (t : Table κ υ) (k : κ) : Table κ υ where
  entries := t.entries.filter fun e => e.1 ≠ k
  nodup := t.nodup.sublist ((List.filter_sublist).map _)

/-- The table with `v` under `k`, whatever was there before. -/
def insert (t : Table κ υ) (k : κ) (v : υ) : Table κ υ where
  entries := (k, v) :: (t.erase k).entries
  nodup := by
    refine List.nodup_cons.2 ⟨?_, (t.erase k).nodup⟩
    simp [erase]

/-- The table with the value under `k` changed by `f`, if there is one. -/
def modify (t : Table κ υ) (k : κ) (f : υ → υ) : Table κ υ :=
  match t.get? k with
  | some v => t.insert k (f v)
  | none => t

/-- The keys are those that have a value. -/
theorem mem_keys_iff (t : Table κ υ) (k : κ) : k ∈ t.keys ↔ (t.get? k).isSome := by
  unfold keys get?
  rw [Option.isSome_map, List.find?_isSome, List.mem_map]
  constructor
  · rintro ⟨e, he, rfl⟩
    exact ⟨e, he, decide_eq_true rfl⟩
  · rintro ⟨e, he, hk⟩
    exact ⟨e, he, of_decide_eq_true hk⟩

@[simp] theorem get?_erase_self (t : Table κ υ) (k : κ) : (t.erase k).get? k = none := by
  simp [get?, erase, List.find?_filter]

theorem get?_erase_of_ne (t : Table κ υ) {k j : κ} (h : j ≠ k) :
    (t.erase k).get? j = t.get? j := by
  simp only [get?, erase, List.find?_filter]
  congr 2
  funext e
  by_cases hj : e.1 = j
  · simp [hj, h]
  · simp [hj]

/-- Erasing a key hides that key and no other. -/
theorem get?_erase (t : Table κ υ) (k j : κ) :
    (t.erase k).get? j = if j = k then none else t.get? j := by
  by_cases h : j = k
  · simp [h]
  · simp [h, get?_erase_of_ne t h]

@[simp] theorem get?_insert_self (t : Table κ υ) (k : κ) (v : υ) :
    (t.insert k v).get? k = some v := by
  simp [get?, insert]

theorem get?_insert_of_ne (t : Table κ υ) {k j : κ} (v : υ) (h : j ≠ k) :
    (t.insert k v).get? j = t.get? j := by
  have hk : ¬ k = j := fun e => h e.symm
  have : (t.insert k v).get? j = (t.erase k).get? j := by
    simp [get?, insert, hk]
  rw [this, get?_erase_of_ne t h]

/-- Inserting under a key changes the value of that key and of no other. -/
theorem get?_insert (t : Table κ υ) (k j : κ) (v : υ) :
    (t.insert k v).get? j = if j = k then some v else t.get? j := by
  by_cases h : j = k
  · simp [h]
  · simp [h, get?_insert_of_ne t v h]

/-- Changing the value under a key changes no other. -/
theorem get?_modify (t : Table κ υ) (k j : κ) (f : υ → υ) :
    (t.modify k f).get? j = if j = k then (t.get? j).map f else t.get? j := by
  unfold modify
  by_cases h : j = k
  · subst h
    cases hj : t.get? j with
    | none => simp [hj]
    | some v => simp
  · rw [if_neg h]
    cases t.get? k with
    | none => rfl
    | some v => exact get?_insert_of_ne t (f v) h

end Table

end NativeBoundary

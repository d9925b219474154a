import NativeBoundary.Proofs.Memory.BatchCodec
import NativeBoundary.Proofs.Process.Tending

/-!
# Loans

What a scope returns for an input is a loan: native code may read it until the scope ends.  Behind
a loan there is host memory that is lent, or a block of the pool of the scope, or a buffer on the
heap, or the two tables of a batch.  The raw buffer was taken before its owner went into the scope,
so nothing but the numbers in it ties the two together.

`Loan.Backed m loan made` is that tie: the copies `made` for a loan are where its pointers lead and
hold what was given.  It depends only on what the copies hold (`Memory.Respects`), which every
trade beside them leaves alone.

* `Loan.Intact` — a loan can be read, and what is read is what was given;
* `Memory.Backing.intact`, `Memory.Backing.apart` — the loans of a scope, all of them at once;
* `Memory.lends_input`, `Memory.lends_inputBatch` — one loan more.
-/

namespace NativeBoundary

/-- A stretch of bytes of a native block. -/
structure Region where
  block : BlockId
  start : Nat
  length : Nat
deriving DecidableEq, Repr

namespace Region

/-- Two regions without a byte in common. -/
def Apart (x y : Region) : Prop :=
  x.block ≠ y.block ∨ x.start + x.length ≤ y.start ∨ y.start + y.length ≤ x.start

/-- A region of a live block. -/
def Within (h : Heap) (r : Region) : Prop :=
  ∃ size, h.size? r.block = some size ∧ r.start + r.length ≤ size

end Region

/-- The region of so many bytes that a pointer leads to, if it leads into native memory. -/
def Pointer.regions (p : Pointer) (length : Nat) : List Region :=
  match p with
  | native id start => [⟨id, start, length⟩]
  | null | host _ => []

theorem Pointer.regions_ofBlock? (id? : Option BlockId) (n : Nat) :
    (ofBlock? id?).regions n = id?.toList.map (⟨·, 0, n⟩) := by
  cases id? <;> rfl

/-- An input as it was given, and what its scope returned for it. -/
inductive Loan
  /-- Bytes, and whether their scope was to wipe public copies at that time. -/
  | buffer (bytes : Bytes) (secrecy : Secrecy) (wipePublic : Bool) (raw : RawBuffer)
  | batch (items : List Bytes) (raw : RawBatch)
deriving DecidableEq, Repr

namespace Loan

/-- The regions of native memory that a loan shows to native code. -/
def regions : Loan → List Region
  | buffer bytes _ _ raw => raw.data.regions bytes.length
  | batch items raw =>
      raw.data.regions items.flatten.length ++ raw.sizes.regions (4 * items.length)

/-- Whether there is a copy behind a loan. -/
def isCopied : Loan → Bool
  | buffer bytes _ _ raw => raw.data.regions bytes.length ≠ []
  | batch _ _ => true

/-- What native code reads is what was given. -/
def Denotes (h : Heap) : Loan → Prop
  | buffer bytes _ _ raw => raw.bytes h = bytes
  | batch items raw => raw.Encodes h items

/-- A loan can be read, and what is read is what was given. -/
structure Intact (h : Heap) (l : Loan) : Prop where
  denotes : l.Denotes h
  within : ∀ r ∈ l.regions, r.Within h

/-- What stands behind a loan: nothing native, or one copy. -/
inductive Backed (m : Memory) : Loan → List ScopeCopy → Prop
  | lent {bytes : Bytes} {secrecy : Secrecy} {wipePublic : Bool} {raw : RawBuffer}
      (hregions : raw.data.regions bytes.length = []) (hbytes : ∀ h, raw.bytes h = bytes) :
      Backed m (.buffer bytes secrecy wipePublic raw) []
  | pooled {bytes : Bytes} {secrecy : Secrecy} {wipePublic : Bool} {b : PoolBlock}
      (hfull : bytes ≠ []) (hlength : b.length = bytes.length) (hbytes : m.blockBytes b = bytes) :
      Backed m (.buffer bytes secrecy wipePublic (m.blockRaw b)) [.pooled b]
  | heap {bytes : Bytes} {secrecy : Secrecy} {wipePublic : Bool} {id : BlockId}
      (hsize : m.heap.size? id = some bytes.length)
      (hread : m.heap.read id 0 bytes.length = bytes)
      (hbytes : RawBuffer.bytes ⟨.native id 0, Int32.ofNat bytes.length⟩ m.heap = bytes) :
      Backed m (.buffer bytes secrecy wipePublic ⟨.native id 0, Int32.ofNat bytes.length⟩)
        [.heap { block? := some id, length := bytes.length, secrecy, wipePublic }]
  | batch {items : List Bytes} {b : OwnedBatch} (hwritten : b.Written m.heap items)
      (htotal : b.total = items.flatten.length) (hsecret : b.secrecy = .secret)
      (hdata : ∀ id ∈ b.data?, m.heap.size? id = some items.flatten.length)
      (hsizes : ∀ id ∈ b.sizes?, m.heap.size? id = some (4 * items.length)) :
      Backed m (.batch items b.raw) [.batch b]

end Loan

namespace Memory

variable {m m' : Memory} {xs ys old new others : List Holder} {l : Loan} {loans : List Loan}
  {made copies : List ScopeCopy} {s s' : Scope}

/-- What stands behind some loans of a scope, one loan after the other. -/
inductive Backing (m : Memory) : List Loan → List ScopeCopy → Prop
  | nil : Backing m [] []
  | cons {l : Loan} {loans : List Loan} {made copies : List ScopeCopy} (hfirst : l.Backed m made)
      (hrest : Backing m loans copies) : Backing m (l :: loans) (made ++ copies)

theorem Backing.append {more : List Loan} (hb : m.Backing loans copies)
    (hmore : m.Backing more made) : m.Backing (loans ++ more) (copies ++ made) := by
  induction hb with
  | nil => exact hmore
  | cons hfirst _ ih =>
      rw [List.cons_append, List.append_assoc]
      exact .cons hfirst ih

/-- What some holders hold can be read as before. -/
structure Respects (m : Memory) (xs : List Holder) (m' : Memory) : Prop where
  blocks : ∀ id ∈ blocksOf xs, m'.heap.block? id = m.heap.block? id
  places : ∀ b ∈ poolBlocksOf xs, m'.blockRaw b = m.blockRaw b ∧ m'.blockBytes b = m.blockBytes b

theorem Respects.left (hr : m.Respects (xs ++ ys) m') : m.Respects xs m' where
  blocks := fun id hid => hr.blocks id (by simp [hid])
  places := fun b hb => hr.places b (by simp [hb])

theorem Respects.right (hr : m.Respects (xs ++ ys) m') : m.Respects ys m' where
  blocks := fun id hid => hr.blocks id (by simp [hid])
  places := fun b hb => hr.places b (by simp [hb])

/-- Whoever respects a scope respects its copies. -/
theorem Respects.scope (hr : m.Respects xs m') (hs : .scope s ∈ xs) :
    m.Respects (s.copies.map ScopeCopy.holder) m' where
  blocks := by
    intro id hid
    obtain ⟨x, hx, hid⟩ := List.mem_flatMap.mp hid
    obtain ⟨copy, hcopy, rfl⟩ := List.mem_map.mp hx
    refine hr.blocks id (List.mem_flatMap.mpr ⟨_, hs, List.mem_flatMap.mpr ⟨copy, hcopy, ?_⟩⟩)
    cases copy <;> exact hid
  places := by
    intro b hb
    rw [poolBlocksOf_copies] at hb
    exact hr.places b (List.mem_flatMap.mpr ⟨_, hs, hb⟩)

/-- A trade respects whoever it does not concern. -/
theorem Tended.respects (ht : m.Tended others m' (new ++ others)) (ha : m.Accounts (old ++ others))
    (hc : m.Clean (old ++ others)) : m.Respects others m' := by
  refine ⟨ht.spares.kept, fun b hb => ?_⟩
  have hplace := place_mem others hb
  have hmem : b ∈ poolBlocksOf (old ++ others) := by simp [hb]
  obtain ⟨p, hp, -⟩ := ha.index_lt hmem
  obtain ⟨p', hp'⟩ : ∃ p', m'.pool? b.pool = some p' :=
    ht.accounts.pool_live (by simp [pool_of_placesOf others hplace])
  obtain ⟨-, hsize⟩ := ht.spares.same_shape ha hp hp'
  have hfits := hc.fits b hmem hp
  unfold blockRaw blockBytes
  simp only [hp, hp', blockOffset_congr hsize, true_and]
  exact Heap.read_of_bytes fun k hk => ht.places _ hplace hp k (Nat.lt_of_lt_of_le hk hfits)

/-- A trade with the pool of a scope respects the copies of the scope, and whoever else there is. -/
theorem Tends.respects (ht : m.Tends s.poolHolder m' new) (ha : m.Accounts ([.scope s] ++ others))
    (hc : m.Clean ([.scope s] ++ others)) :
    m.Respects (s.copies.map ScopeCopy.holder ++ others) m' := by
  have hparts := (holdings_scope s).trans (.of_perm List.perm_append_comm)
  have hsplit := hparts.append_right others
  rw [List.append_assoc] at hsplit
  have ha' := ha.congr hsplit.stakes
  have hc' := hc.congr hsplit
  exact (ht _ ha' hc').respects ha' hc'

end Memory

open Memory (Respects Backing blockOffset)

namespace Loan

variable {m m' : Memory} {l : Loan} {made : List ScopeCopy}

/-- What stands behind a loan stands for as long as the copies are respected. -/
theorem Backed.congr (hb : l.Backed m made) (hr : m.Respects (made.map ScopeCopy.holder) m') :
    l.Backed m' made := by
  cases hb with
  | lent hregions hbytes => exact .lent hregions hbytes
  | pooled hfull hlength hbytes =>
      obtain ⟨hraw, hsame⟩ := hr.places _ (List.mem_singleton.mpr rfl)
      rw [← hraw]
      exact .pooled hfull hlength (hsame.trans hbytes)
  | @heap bytes _ _ id hsize hread hbytes =>
      have hblock : m'.heap.block? id = m.heap.block? id := hr.blocks _ (List.mem_singleton.mpr rfl)
      refine .heap ?_ ((Heap.read_congr hblock 0 _).trans hread) ?_
      · rw [Heap.size?, hblock]
        exact hsize
      · exact (Heap.read_congr hblock 0 _).trans hbytes
  | @batch items b hwritten htotal hsecret hdata hsizes =>
      have hblock : ∀ id ∈ b.blocks, m'.heap.block? id = m.heap.block? id := by
        intro id hid
        exact hr.blocks id (by simp [ScopeCopy.holder, Holder.blocks, hid])
      have hsize : ∀ id ∈ b.blocks, m'.heap.size? id = m.heap.size? id := by
        intro id hid
        rw [Heap.size?, hblock id hid, Heap.size?]
      refine .batch (hwritten.congr hblock) htotal hsecret (fun id hid => ?_) fun id hid => ?_
      · rw [hsize id (by simp [OwnedBatch.blocks, Option.mem_def.mp hid])]
        exact hdata id hid
      · rw [hsize id (by simp [OwnedBatch.blocks, Option.mem_def.mp hid])]
        exact hsizes id hid

/-- The region that a block of a pool shows. -/
theorem regions_pooled {b : PoolBlock} {p : Pool} (hp : m.pool? b.pool = some p)
    (hused : b.length ≠ 0) (n : Nat) :
    (m.blockRaw b).data.regions n = [⟨b.pool, blockOffset p b.index, n⟩] := by
  rw [Memory.blockRaw_eq hp hused]
  rfl

/-- The regions that the tables of a batch show. -/
theorem regions_batch (items : List Bytes) (b : OwnedBatch) :
    (Loan.batch items b.raw).regions = b.data?.toList.map (⟨·, 0, items.flatten.length⟩) ++
      b.sizes?.toList.map (⟨·, 0, 4 * items.length⟩) := by
  rw [regions, OwnedBatch.raw, Pointer.regions_ofBlock?, Pointer.regions_ofBlock?]

/-- A block that holds what was given shows it to native code. -/
theorem bytes_pooled {b : PoolBlock} {p : Pool} (hp : m.pool? b.pool = some p)
    (hused : b.length ≠ 0) (hlimit : b.length ≤ nativeSizeLimit) :
    (m.blockRaw b).bytes m.heap = m.blockBytes b := by
  rw [RawBuffer.bytes, Memory.length_blockRaw hp hused hlimit, Memory.blockRaw_eq hp hused,
    Memory.blockBytes, hp]
  rfl

section

variable {rest : List Holder} (ha : m.Accounts (made.map ScopeCopy.holder ++ rest))
  (hc : m.Clean (made.map ScopeCopy.holder ++ rest))

include ha hc in
/-- A block behind a loan has bytes in use, and they fit. -/
theorem block_of_pooled {b : PoolBlock} (hb : b ∈ poolBlocksOf (made.map ScopeCopy.holder)) :
    ∃ p, m.pool? b.pool = some p ∧ b.index < p.count ∧ b.length ≤ p.blockSize ∧
      p.blockSize ≤ nativeSizeLimit := by
  have hmem : b ∈ poolBlocksOf (made.map ScopeCopy.holder ++ rest) := by simp [hb]
  obtain ⟨p, hp, hindex⟩ := ha.index_lt hmem
  exact ⟨p, hp, hindex, hc.fits b hmem hp, hc.limit hp⟩

include ha hc in
/-- A loan with copies behind it is intact. -/
theorem Backed.intact (hb : l.Backed m made) : l.Intact m.heap := by
  cases hb with
  | lent hregions hbytes =>
      refine ⟨hbytes m.heap, fun r hr => ?_⟩
      rw [regions, hregions] at hr
      cases hr
  | @pooled bytes _ _ b hfull hlength hbytes =>
      obtain ⟨p, hp, hindex, hfits, hlimit⟩ :=
        block_of_pooled ha hc (b := b) (List.mem_singleton.mpr rfl)
      have hused : b.length ≠ 0 := hlength ▸ mt List.eq_nil_of_length_eq_zero hfull
      refine ⟨(bytes_pooled hp hused (Nat.le_trans hfits hlimit)).trans hbytes, fun r hr => ?_⟩
      rw [regions, regions_pooled hp hused] at hr
      rw [List.mem_singleton.mp hr]
      have hend := Memory.blockOffset_le p hindex
      exact ⟨_, ((ha.pools b.pool).pool hp).2, by simp only; omega⟩
  | @heap bytes _ _ id hsize hread hbytes =>
      refine ⟨hbytes, fun r hr => ?_⟩
      rw [List.mem_singleton.mp hr]
      exact ⟨_, hsize, Nat.le_of_eq (Nat.zero_add _)⟩
  | @batch items b hwritten htotal hsecret hdata hsizes =>
      refine ⟨hwritten.encodes, fun r hr => ?_⟩
      rw [regions_batch] at hr
      rcases List.mem_append.mp hr with hr | hr
      · obtain ⟨id, hid, rfl⟩ := List.mem_map.mp hr
        exact ⟨_, hdata id (by simpa using hid), Nat.le_of_eq (Nat.zero_add _)⟩
      · obtain ⟨id, hid, rfl⟩ := List.mem_map.mp hr
        exact ⟨_, hsizes id (by simpa using hid), Nat.le_of_eq (Nat.zero_add _)⟩

end

end Loan

/-- A region that some holders have to themselves: of a block of their own, or inside of a block of
a pool. -/
def Region.Taken (m : Memory) (holders : List Holder) (r : Region) : Prop :=
  r.block ∈ blocksOf holders ∨
    ∃ b ∈ poolBlocksOf holders, ∃ p, m.pool? b.pool = some p ∧ r.block = b.pool ∧
      r.start = blockOffset p b.index ∧ 0 < r.length ∧ r.length ≤ p.blockSize

namespace Region

variable {m : Memory} {xs ys : List Holder} {x y : Region}

theorem Taken.left (hx : x.Taken m xs) (ys : List Holder) : x.Taken m (xs ++ ys) := by
  refine hx.imp (fun hid => by simp [hid]) fun ⟨b, hb, hrest⟩ => ⟨b, by simp [hb], hrest⟩

theorem Taken.right (hy : y.Taken m ys) (xs : List Holder) : y.Taken m (xs ++ ys) := by
  refine hy.imp (fun hid => by simp [hid]) fun ⟨b, hb, hrest⟩ => ⟨b, by simp [hb], hrest⟩

/-- A block of a pool is none of the blocks that somebody holds. -/
theorem block_ne_pool {holders : List Holder} {id : BlockId} {b : PoolBlock} {p : Pool}
    (ha : m.Accounts holders) (hid : id ∈ blocksOf holders) (hp : m.pool? b.pool = some p) :
    id ≠ b.pool := by
  rintro rfl
  rw [ha.pool?_of_held hid] at hp
  cases hp

/-- What different holders have to themselves does not overlap. -/
theorem Taken.apart (hx : x.Taken m xs) (hy : y.Taken m ys) (ha : m.Accounts (xs ++ ys)) :
    x.Apart y := by
  rcases hx with hx | ⟨b, hb, p, hp, hblock, hstart, -, hlength⟩ <;>
    rcases hy with hy | ⟨c, hc, q, hq, hblock', hstart', -, hlength'⟩
  · exact .inl fun heq => ha.disjoint hx (heq ▸ hy)
  · refine .inl ?_
    rw [hblock']
    exact block_ne_pool ha (by simp [hx]) hq
  · refine .inl (Ne.symm ?_)
    rw [hblock]
    exact block_ne_pool ha (by simp [hy]) hp
  · by_cases hpool : b.pool = c.pool
    · rw [← hpool, hp] at hq
      cases hq
      have hindex : b.index ≠ c.index := by
        intro hindex
        refine ha.places_apart (place_mem xs hb) ?_
        rw [hpool, hindex]
        exact place_mem ys hc
      refine .inr ?_
      rw [hstart, hstart']
      exact (Memory.blockOffset_apart p hindex).imp (fun h => by omega) fun h => by omega
    · refine .inl ?_
      rw [hblock, hblock']
      exact hpool

end Region

namespace Loan

variable {m : Memory} {l : Loan} {made : List ScopeCopy} {rest : List Holder}

/-- The regions of a loan are those of what stands behind it. -/
theorem Backed.taken (hb : l.Backed m made) (ha : m.Accounts (made.map ScopeCopy.holder ++ rest))
    (hc : m.Clean (made.map ScopeCopy.holder ++ rest)) :
    ∀ r ∈ l.regions, r.Taken m (made.map ScopeCopy.holder) := by
  intro r hr
  cases hb with
  | lent hregions _ =>
      rw [regions, hregions] at hr
      cases hr
  | @pooled bytes _ _ b hfull hlength _ =>
      obtain ⟨p, hp, -, hfits, -⟩ := block_of_pooled ha hc (b := b) (List.mem_singleton.mpr rfl)
      have hused : b.length ≠ 0 := hlength ▸ mt List.eq_nil_of_length_eq_zero hfull
      rw [regions, regions_pooled hp hused] at hr
      rw [List.mem_singleton.mp hr]
      exact .inr ⟨b, List.mem_singleton.mpr rfl, p, hp, rfl, rfl, List.length_pos_iff.mpr hfull,
        hlength ▸ hfits⟩
  | heap _ _ _ =>
      rw [List.mem_singleton.mp hr]
      exact .inl (List.mem_singleton.mpr rfl)
  | @batch items b _ _ _ _ _ =>
      have hblock : r.block ∈ b.blocks := by
        rw [regions_batch] at hr
        rcases List.mem_append.mp hr with hr | hr <;>
          (obtain ⟨id, hid, rfl⟩ := List.mem_map.mp hr; simp [OwnedBatch.blocks, hid])
      exact .inl (by simpa [ScopeCopy.holder, Holder.blocks] using hblock)

/-- The regions of one loan do not overlap either. -/
theorem Backed.apart (hb : l.Backed m made) (ha : m.Accounts (made.map ScopeCopy.holder ++ rest)) :
    l.regions.Pairwise Region.Apart := by
  have hbuffer : ∀ (p : Pointer) n, (p.regions n).Pairwise Region.Apart := by
    intro p n
    cases p with
    | native id start => exact List.pairwise_singleton _ _
    | null | host _ => exact .nil
  cases hb with
  | lent _ _ | pooled _ _ _ => exact hbuffer _ _
  | heap _ _ _ => exact List.pairwise_singleton _ _
  | @batch items b _ _ _ _ _ =>
      refine List.pairwise_append.mpr ⟨hbuffer _ _, hbuffer _ _, fun x hx y hy => .inl ?_⟩
      rw [OwnedBatch.raw, Pointer.regions_ofBlock?] at hx hy
      obtain ⟨data, hdata, rfl⟩ := List.mem_map.mp hx
      obtain ⟨sizes, hsizes, rfl⟩ := List.mem_map.mp hy
      have hone := ha.count_le_one (x := .batch b) List.mem_cons_self data
      rintro rfl
      exact OwnedBatch.data_ne_sizes hone hdata hsizes

/-- A loan with a copy has one. -/
theorem Backed.length_eq (hb : l.Backed m made)
    (hpools : ∀ b ∈ poolBlocksOf (made.map ScopeCopy.holder), (m.pool? b.pool).isSome) :
    made.length = if l.isCopied then 1 else 0 := by
  cases hb with
  | lent hregions _ => simp [isCopied, hregions]
  | @pooled bytes _ _ b hfull hlength _ =>
      obtain ⟨p, hp⟩ := Option.isSome_iff_exists.mp (hpools b (List.mem_singleton.mpr rfl))
      have hused : b.length ≠ 0 := hlength ▸ mt List.eq_nil_of_length_eq_zero hfull
      simp [isCopied, regions_pooled hp hused]
  | heap _ _ _ => rfl
  | batch _ _ _ _ _ => rfl

end Loan

namespace Memory

variable {m m' : Memory} {l : Loan} {loans : List Loan} {made copies : List ScopeCopy}
  {rest others : List Holder} {s s' : Scope}

/-- What stands behind loans stands for as long as the copies are respected. -/
theorem Backing.congr (hb : m.Backing loans copies)
    (hr : m.Respects (copies.map ScopeCopy.holder) m') : m'.Backing loans copies := by
  induction hb with
  | nil => exact .nil
  | cons hfirst _ ih =>
      rw [List.map_append] at hr
      exact .cons (hfirst.congr hr.left) (ih hr.right)

/-- There are as many copies as loans with a copy. -/
theorem Backing.length_eq (hb : m.Backing loans copies)
    (hpools : ∀ b ∈ poolBlocksOf (copies.map ScopeCopy.holder), (m.pool? b.pool).isSome) :
    copies.length = loans.countP Loan.isCopied := by
  induction hb with
  | nil => rfl
  | cons hfirst _ ih =>
      rw [List.map_append, poolBlocksOf_append] at hpools
      have hone := hfirst.length_eq fun b hb => hpools b (List.mem_append_left _ hb)
      have hrest := ih fun b hb => hpools b (List.mem_append_right _ hb)
      rw [List.length_append, List.countP_cons, hone, hrest, Nat.add_comm]

/-- What stands behind one loan, beside the other copies. -/
theorem Backing.split (hb : m.Backing loans copies) (hl : l ∈ loans) (rest : List Holder) :
    ∃ made others, l.Backed m made ∧ SameHoldings (copies.map ScopeCopy.holder ++ rest)
      (made.map ScopeCopy.holder ++ (others ++ rest)) := by
  induction hb with
  | nil => cases hl
  | @cons k loans first copies hfirst _ ih =>
      rw [List.map_append]
      rcases List.mem_cons.mp hl with rfl | hl
      · exact ⟨first, copies.map ScopeCopy.holder, hfirst, by rw [List.append_assoc]; exact .refl _⟩
      · obtain ⟨made, others, hmade, hsame⟩ := ih hl
        refine ⟨made, first.map ScopeCopy.holder ++ others, hmade, ?_⟩
        rw [List.append_assoc, List.append_assoc]
        exact (hsame.append_left _).trans (.swap _ _ _)

/-- All of the loans are intact. -/
theorem Backing.intact (hb : m.Backing loans copies)
    (ha : m.Accounts (copies.map ScopeCopy.holder ++ rest))
    (hc : m.Clean (copies.map ScopeCopy.holder ++ rest)) : ∀ l ∈ loans, l.Intact m.heap := by
  intro l hl
  obtain ⟨made, others, hmade, hsame⟩ := hb.split hl rest
  exact hmade.intact (ha.congr hsame.stakes) (hc.congr hsame)

/-- Their regions are those of the copies, and they do not overlap. -/
theorem Backing.apart (hb : m.Backing loans copies)
    (ha : m.Accounts (copies.map ScopeCopy.holder ++ rest))
    (hc : m.Clean (copies.map ScopeCopy.holder ++ rest)) :
    (∀ r ∈ loans.flatMap Loan.regions, r.Taken m (copies.map ScopeCopy.holder)) ∧
      (loans.flatMap Loan.regions).Pairwise Region.Apart := by
  induction hb generalizing rest with
  | nil => exact ⟨fun _ hr => (nomatch hr), List.Pairwise.nil⟩
  | @cons l loans made copies hfirst _ ih =>
      rw [List.map_append, List.append_assoc] at ha hc
      have hswap := SameHoldings.swap (made.map ScopeCopy.holder) (copies.map ScopeCopy.holder) rest
      obtain ⟨htaken, hapart⟩ := ih (ha.congr hswap.stakes) (hc.congr hswap)
      have hown := hfirst.taken ha hc
      rw [List.flatMap_cons, List.map_append]
      refine ⟨fun r hr => ?_, List.pairwise_append.mpr ⟨hfirst.apart ha, hapart, ?_⟩⟩
      · rcases List.mem_append.mp hr with hr | hr
        · exact (hown r hr).left _
        · exact (htaken r hr).right _
      · intro x hx y hy
        exact (hown x hx).apart ((htaken y hy).left rest) ha

/-- The view of host bytes shows them wherever it is read, and leads to no native memory. -/
theorem view_ok {bytes : Bytes} {raw : RawBuffer} (hview : RawBuffer.view bytes = .ok raw) :
    raw.data.regions bytes.length = [] ∧ ∀ h, raw.bytes h = bytes := by
  unfold RawBuffer.view sizeField at hview
  split at hview
  · rename_i hlimit
    cases hview
    by_cases hnone : bytes = []
    · rw [if_pos hnone]
      exact ⟨rfl, fun h => hnone.symm⟩
    · rw [if_neg hnone]
      refine ⟨rfl, fun h => ?_⟩
      rw [RawBuffer.bytes, RawBuffer.length_of_size rfl hlimit]
      exact List.take_length
  · cases hview

/-- A copy with the rule of its scope for public copies. -/
theorem backed_copyBuffer {bytes : Bytes} {secrecy : Secrecy} {h' : Heap} {b : OwnedBuffer}
    (hc : OwnedBuffer.copyFrom bytes secrecy m.heap = (.ok b, h')) (hfull : bytes ≠ [])
    (wipePublic : Bool) :
    (Loan.buffer bytes secrecy wipePublic b.raw).Backed { m with heap := h' }
      [.heap { b with wipePublic }] := by
  have hbytes := (OwnedBuffer.delivers_copyFrom hc).1.bytes
  cases OwnedBuffer.copying_of_copyFrom hc with
  | empty hnone => exact absurd hnone hfull
  | @block id made hsome hfits hblock =>
      have hmade := Heap.block?_granted hblock
      refine .heap ?_ (Heap.read_write (Option.isSome_of_eq_some hmade) bytes)
        (List.head_eq_of_cons_eq hbytes)
      change (made.write id 0 bytes).size? id = _
      rw [Heap.size?_write, Heap.size?, hmade]
      rfl

/-- The two tables of a batch. -/
theorem backed_copyBatch {items : List Bytes} {h' : Heap} {b : OwnedBatch}
    (hc : OwnedBatch.copyFrom items .secret m.heap = (.ok b, h')) :
    (Loan.batch items b.raw).Backed { m with heap := h' } [.batch b] := by
  obtain ⟨hsecret, htotal, hdata, hsizes⟩ := OwnedBatch.sizes_copyFrom hc
  exact .batch (OwnedBatch.written_copyFrom hc) htotal hsecret hdata hsizes

/-- A block that is handed out for some bytes holds them. -/
theorem blockBytes_acquireWith {id : PoolId} {data : Bytes} {b : PoolBlock}
    {holders : List Holder} (ha : m.Accounts holders)
    (hc : m.acquireWith id data = (some b, m')) :
    b.length = data.length ∧ m'.blockBytes b = data := by
  obtain ⟨fresh, middle, hacquire, hwritten⟩ := acquireWith_some hc
  obtain ⟨p, free, hp, -, hfresh, rfl⟩ := acquire_some hacquire
  have hpool : fresh.pool = id := congrArg PoolBlock.pool hfresh
  obtain ⟨q, hq, -, rfl, -⟩ := writeBlock_eq hwritten
  refine ⟨rfl, read_writeBlock hq ?_ hwritten⟩
  rw [hpool]
  exact ha.region_live hp

/-- A block that the pool of a scope has for an input. -/
theorem backed_inputBlock {bytes : Bytes} {b : PoolBlock} {holders : List Holder}
    (ha : m.Accounts holders) (hc : m.inputBlock s bytes = (some b, m')) (hfull : bytes ≠ [])
    (secrecy : Secrecy) (wipePublic : Bool) :
    (Loan.buffer bytes secrecy wipePublic (m'.blockRaw b)).Backed m' [.pooled b] := by
  obtain ⟨id, -, hacquire⟩ := inputBlock_some hc
  obtain ⟨hlength, hbytes⟩ := blockBytes_acquireWith ha hacquire
  exact .pooled hfull hlength hbytes

/-- Some loans more of a scope.  The copies behind them stand in front of those that it had, and they
were made with the help of its pool alone. -/
structure Lends (m : Memory) (s : Scope) (more : List Loan) (m' : Memory) (s' : Scope)
    (made : List ScopeCopy) : Prop where
  scope : s' = { s with copies := made ++ s.copies }
  backing : m'.Backing more made
  tends : m.Tends s.poolHolder m' (made.map ScopeCopy.holder ++ s.poolHolder)

theorem Lends.tends_scope {more : List Loan} (hl : m.Lends s more m' s' made) :
    m.Tends [.scope s] m' [.scope s'] := by
  rw [hl.scope]
  exact tends_extends hl.tends

/-- The loans that were there before stand as well. -/
theorem Lends.backing_append {more : List Loan} (hl : m.Lends s more m' s' made)
    (hb : m.Backing loans s.copies) (ha : m.Accounts ([.scope s] ++ others))
    (hc : m.Clean ([.scope s] ++ others)) : m'.Backing (more ++ loans) s'.copies := by
  rw [hl.scope]
  exact hl.backing.append (hb.congr (hl.tends.respects ha hc).left)

/-- One loan with what stands behind it. -/
theorem Backing.one (hl : l.Backed m made) : m.Backing [l] made := by
  have hone := Backing.cons hl .nil
  rwa [List.append_nil] at hone

/-- An input that is answered with a raw buffer is one loan more. -/
theorem lends_input {holders : List Holder} {bytes : Bytes} {secrecy : Secrecy}
    {result : Except Fault RawBuffer} (ha : m.Accounts holders)
    (hc : m.input s bytes secrecy = (result, s', m')) :
    ∃ made, m.Lends s (result.toOption.toList.map (.buffer bytes secrecy s.wipePublic)) m' s'
      made := by
  rcases input_answer hc with ⟨rfl, rfl, hanswer⟩ | ⟨fault, h', -, hcopy, rfl, rfl, rfl⟩ |
    ⟨b, ⟨-, hfull⟩, hblock, rfl, rfl⟩ | ⟨b, h', ⟨-, hfull⟩, hcopy, rfl, rfl, rfl⟩
  · refine ⟨[], rfl, ?_, .refl _ _⟩
    cases result with
    | error fault => exact .nil
    | ok raw =>
        rcases hanswer with ⟨-, hview⟩ | ⟨-, rfl, hempty⟩
        · obtain ⟨hregions, hbytes⟩ := view_ok hview.symm
          exact .one (.lent hregions hbytes)
        · cases hempty
          exact .one (.lent rfl fun _ => rfl)
  · exact ⟨[], rfl, .nil, (tends_copyBuffer_error hcopy).frame _⟩
  · exact ⟨[.pooled b], rfl, .one (backed_inputBlock ha hblock hfull secrecy s.wipePublic),
      tends_inputBlock hblock⟩
  · exact ⟨[_], rfl, .one (backed_copyBuffer hcopy hfull s.wipePublic),
      (tends_copyForScope hcopy s.wipePublic).frame _⟩

/-- So is a batch. -/
theorem lends_inputBatch {items : List Bytes} {result : Except Fault RawBatch}
    (hc : m.inputBatch s items = (result, s', m')) :
    ∃ made, m.Lends s (result.toOption.toList.map (.batch items)) m' s' made := by
  rcases inputBatch_answer hc with ⟨fault, h', hcopy, rfl, rfl, rfl⟩ |
    ⟨b, h', hcopy, rfl, rfl, rfl⟩
  · exact ⟨[], rfl, .nil, (tends_copyBatch_error hcopy).frame _⟩
  · exact ⟨[.batch b], rfl, .one (backed_copyBatch hcopy), (tends_copyBatch hcopy).frame _⟩

end Memory

end NativeBoundary

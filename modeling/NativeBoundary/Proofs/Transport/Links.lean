import NativeBoundary.Transport.Mesh

/-!
# Links of a mesh

The channels of a mesh are laid out in rows, and the parties are given their ends by row and by
column.  This file shows that the two fit together: the sending end that `i` keeps for `j` and the
receiving end that `j` keeps for `i` belong to one channel, and that channel belongs to no other
pair (`link_inj`).  So a channel has lost its receiving end when its receiver left, and its sending
end when its sender left (`hasReceiver_iff`, `hasSender_iff`).

* `Mesh.send_eq`, `Mesh.receive_eq` — what a party of a mesh can do, in terms of who left and of
  what is under way on a link.
-/

namespace NativeBoundary

namespace Mesh

variable {count i j k l : Nat}

theorem getElem?_map_range {α : Type} (f : Nat → α) (n k : Nat) :
    ((List.range n).map f)[k]? = if k < n then some (f k) else none := by
  rw [List.getElem?_map]
  split
  · rename_i hk
    rw [List.getElem?_range hk]
    rfl
  · rename_i hk
    rw [List.getElem?_eq_none (by rw [List.length_range]; omega)]
    rfl

theorem link_links (hi : i < count) (hj : j < count) :
    link (links count) i j = count * i + j := by
  have hrow : (links count).getD i [] = (List.range count).map fun j => count * i + j := by
    rw [links, List.getD_eq_getElem?_getD, getElem?_map_range, if_pos hi]
    rfl
  rw [link, hrow, List.getD_eq_getElem?_getD, getElem?_map_range, if_pos hj]
  rfl

/-- Every pair of parties has a link of its own. -/
theorem link_inj (hi : i < count) (hj : j < count) (hk : k < count) (hl : l < count) :
    link (links count) i j = link (links count) k l ↔ i = k ∧ j = l := by
  rw [link_links hi hj, link_links hk hl]
  constructor
  · intro (heq : (count * i + j : Nat) = count * k + l)
    have hcolumn := congrArg (· % count) heq
    simp only [Nat.mul_add_mod, Nat.mod_eq_of_lt hj, Nat.mod_eq_of_lt hl] at hcolumn
    have hrow : count * i = count * k := by omega
    exact ⟨Nat.eq_of_mul_eq_mul_left (Nat.zero_lt_of_lt hi) hrow, hcolumn⟩
  · rintro ⟨rfl, rfl⟩
    rfl

/-- A party keeps the sending ends of the links that lead away from it. -/
theorem outbound_partyOf (count me j : Nat) :
    (partyOf (links count) count me).outbound[j]? =
      if j < count then some (link (links count) me j) else none :=
  getElem?_map_range _ count j

/-- It keeps the receiving ends of the links that lead to it. -/
theorem inbound_partyOf (count me i : Nat) :
    (partyOf (links count) count me).inbound[i]? =
      if i < count then some (link (links count) i me) else none :=
  getElem?_map_range _ count i

theorem mem_outbound_partyOf (hi : i < count) (hj : j < count) (hk : k < count) :
    link (links count) i j ∈ (partyOf (links count) count k).outbound ↔ i = k := by
  unfold partyOf
  rw [List.mem_map]
  constructor
  · rintro ⟨l, hl, heq⟩
    exact ((link_inj hk (List.mem_range.mp hl) hi hj).mp heq).1.symm
  · rintro rfl
    exact ⟨j, List.mem_range.mpr hj, rfl⟩

theorem mem_inbound_partyOf (hi : i < count) (hj : j < count) (hk : k < count) :
    link (links count) i j ∈ (partyOf (links count) count k).inbound ↔ j = k := by
  unfold partyOf
  rw [List.mem_map]
  constructor
  · rintro ⟨l, hl, heq⟩
    exact ((link_inj (List.mem_range.mp hl) hk hi hj).mp heq).2.symm
  · rintro rfl
    exact ⟨i, List.mem_range.mpr hi, rfl⟩

/-- The parties that left a mesh of `count` parties. -/
structure LeftBy (m : Mesh) (count : Nat) (left : List Nat) : Prop where
  gone : ∀ party, party ∈ m.gone ↔ ∃ k ∈ left, party = partyOf (links count) count k
  lt : ∀ k ∈ left, k < count

variable {m : Mesh} {left : List Nat}

theorem LeftBy.setQueue (hl : m.LeftBy count left) (channel : ChannelId) (messages : List Bytes) :
    (m.setQueue channel messages).LeftBy count left := ⟨hl.gone, hl.lt⟩

theorem LeftBy.leave (hl : m.LeftBy count left) (hi : i < count) :
    (m.leave (partyOf (links count) count i)).LeftBy count (left ++ [i]) where
  gone := by
    intro party
    change party ∈ _ :: m.gone ↔ _
    rw [List.mem_cons, hl.gone]
    constructor
    · rintro (rfl | ⟨k, hk, rfl⟩)
      · exact ⟨i, List.mem_append_right _ (List.mem_singleton.mpr rfl), rfl⟩
      · exact ⟨k, List.mem_append_left _ hk, rfl⟩
    · rintro ⟨k, hk, rfl⟩
      rcases List.mem_append.mp hk with hk | hk
      · exact .inr ⟨k, hk, rfl⟩
      · rw [List.mem_singleton.mp hk]
        exact .inl rfl
  lt := by
    intro k hk
    rcases List.mem_append.mp hk with hk | hk
    · exact hl.lt k hk
    · rwa [List.mem_singleton.mp hk]

/-- An end of a channel that only the party `i` keeps is there until `i` leaves. -/
theorem not_any_contains_iff (hl : m.LeftBy count left) (hi : i < count)
    {ends : Party → List ChannelId} {channel : ChannelId}
    (hends : ∀ k < count, channel ∈ ends (partyOf (links count) count k) ↔ i = k) :
    (!m.gone.any fun party => (ends party).contains channel) = true ↔ i ∉ left := by
  rw [Bool.not_eq_true', List.any_eq_false]
  constructor
  · intro hnone hleft
    apply hnone _ ((hl.gone _).mpr ⟨i, hleft, rfl⟩)
    rw [List.contains_iff_mem]
    exact (hends i hi).mpr rfl
  · intro hleft party hgone hcontains
    obtain ⟨k, hk, rfl⟩ := (hl.gone party).mp hgone
    rw [List.contains_iff_mem] at hcontains
    obtain rfl := (hends k (hl.lt k hk)).mp hcontains
    exact hleft hk

/-- The receiving end of a link is there until its receiver leaves. -/
theorem hasReceiver_iff (hl : m.LeftBy count left) (hi : i < count) (hj : j < count) :
    m.hasReceiver (link (links count) i j) = true ↔ j ∉ left :=
  not_any_contains_iff hl hj fun _ hk => mem_inbound_partyOf hi hj hk

/-- The sending end of a link is there until its sender leaves. -/
theorem hasSender_iff (hl : m.LeftBy count left) (hi : i < count) (hj : j < count) :
    m.hasSender (link (links count) i j) = true ↔ i ∉ left :=
  not_any_contains_iff hl hi fun _ hk => mem_outbound_partyOf hi hj hk

/-- A message is sent to a party of the mesh that did not leave. -/
theorem send_eq (hl : m.LeftBy count left) {me : Nat} (hme : me < count) (receiver : Nat)
    (message : Bytes) :
    m.send (partyOf (links count) count me) receiver message =
      if receiver < count then
        if receiver ∈ left then .error (.hungUp receiver)
        else .ok (m.setQueue (link (links count) me receiver)
          (m.queue (link (links count) me receiver) ++ [message]))
      else .error (.stranger receiver) := by
  unfold send
  rw [outbound_partyOf]
  by_cases hreceiver : receiver < count
  · rw [if_pos hreceiver, if_pos hreceiver]
    have hiff := hasReceiver_iff hl hme hreceiver
    by_cases hleft : receiver ∈ left
    · rw [if_pos hleft]
      exact if_neg fun htrue => hiff.mp htrue hleft
    · rw [if_neg hleft]
      exact if_pos (hiff.mpr hleft)
  · rw [if_neg hreceiver, if_neg hreceiver]

/-- A message is received from a party of the mesh when one is under way, whether the party left or
not. -/
theorem receive_eq (hl : m.LeftBy count left) {me : Nat} (hme : me < count) (sender : Nat) :
    m.receive (partyOf (links count) count me) sender =
      if sender < count then
        match m.queue (link (links count) sender me) with
        | message :: rest => .ok (message, m.setQueue (link (links count) sender me) rest)
        | [] => .error (if sender ∈ left then .hungUp sender else .timedOut sender)
      else .error (.stranger sender) := by
  unfold receive
  rw [inbound_partyOf]
  by_cases hsender : sender < count
  · rw [if_pos hsender, if_pos hsender]
    have hiff := hasSender_iff hl hsender hme
    cases hqueue : m.queue (link (links count) sender me) with
    | cons message rest => simp only [hqueue]
    | nil =>
        simp only [hqueue]
        by_cases hleft : sender ∈ left
        · rw [if_pos hleft, if_neg fun htrue => hiff.mp htrue hleft]
        · rw [if_neg hleft, if_pos (hiff.mpr hleft)]
  · rw [if_neg hsender, if_neg hsender]

end Mesh

end NativeBoundary

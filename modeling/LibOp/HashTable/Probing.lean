import LibOp.HashTable.Capacity

namespace LibOp.HashTable

open Foundation Multiset Function

variable {K V : Type}

def reach (mask i : Nat) (s : HtabSlot K V) : Nat := if s.hash = 0 then 0 else dib mask i s.hash + 1

def reachAt (mask : Nat) (slots : Nat → HtabSlot K V) (i : Nat) : Nat := reach mask i (slots i)

def cell (s : HtabSlot K V) : Multiset (HtabSlot K V) := if s.hash = 0 then 0 else {s}

def stored (mask : Nat) (slots : Nat → HtabSlot K V) : Multiset (HtabSlot K V) :=
  bag cell (Finset.range (mask + 1)) slots

variable {mask i : Nat} {slots : Nat → HtabSlot K V}

lemma reachAt_of_empty (empty : (slots i).hash = 0) : reachAt mask slots i = 0 := if_pos empty

lemma reachAt_of_live (live : (slots i).hash ≠ 0) : reachAt mask slots i = dib mask i (slots i).hash + 1 := if_neg live

lemma reachAt_update (mask : Nat) (slots : Nat → HtabSlot K V) (i : Nat) (s : HtabSlot K V) :
    reachAt mask (update slots i s) = update (reachAt mask slots) i (reach mask i s) := by
  funext k
  by_cases here : k = i
  · subst here
    rw [reachAt, update_self, update_self]
  · rw [reachAt, update_of_ne here, update_of_ne here, reachAt]

variable {s : HtabSlot K V}

lemma cell_of_empty (empty : s.hash = 0) : cell s = 0 := if_pos empty

lemma cell_of_live (live : s.hash ≠ 0) : cell s = {s} := if_neg live

lemma cell_eq_zero : cell s = 0 ↔ s.hash = 0 := by
  by_cases empty : s.hash = 0 <;> simp [cell, empty]

lemma mem_cell : s ∈ cell t ↔ s = t ∧ s.hash ≠ 0 := by
  by_cases empty : t.hash = 0
  · rw [cell_of_empty empty]
    simp only [notMem_zero, false_iff, not_and, not_not]
    rintro rfl
    exact empty
  · rw [cell_of_live empty, mem_singleton]
    constructor
    · rintro rfl
      exact ⟨rfl, empty⟩
    · exact And.left

variable {mask : Nat}

lemma mem_stored : s ∈ stored mask slots ↔ (∃ i < mask + 1, slots i = s) ∧ s.hash ≠ 0 := by
  simp only [stored, mem_bag, Finset.mem_range, mem_cell]
  constructor
  · rintro ⟨i, position, rfl, live⟩
    exact ⟨⟨i, position, rfl⟩, live⟩
  · rintro ⟨⟨i, position, rfl⟩, live⟩
    exact ⟨i, position, rfl, live⟩

lemma stored_update (slots : Nat → HtabSlot K V) (position : i < mask + 1) (s : HtabSlot K V) :
    stored mask (update slots i s) + cell (slots i) = stored mask slots + cell s :=
  bag_update cell slots (Finset.mem_range.mpr position) s

lemma exists_empty (room : (stored mask slots).card < mask + 1) : ∃ i < mask + 1, (slots i).hash = 0 := by
  have fewer : (bag cell (Finset.range (mask + 1)) slots).card < (Finset.range (mask + 1)).card := by
    rwa [Finset.card_range]
  obtain ⟨i, mem, empty⟩ := exists_vacant cell slots fewer
  exact ⟨i, Finset.mem_range.mp mem, cell_eq_zero.mp empty⟩

lemma dib_next (ok : MaskOk mask) (position : i < mask + 1) (room : dib mask i h + 1 < mask + 1) :
    dib mask ((i + 1) % (mask + 1)) h = dib mask i h + 1 := by
  rw [dib_eq ok] at room ⊢
  rw [dib_eq ok, displacement_next (ok.home_lt h) position, if_neg (by omega)]

lemma dib_previous (ok : MaskOk mask) (position : i < mask + 1)
    (away : dib mask ((i + 1) % (mask + 1)) h ≠ 0) : dib mask ((i + 1) % (mask + 1)) h = dib mask i h + 1 := by
  rw [dib_eq ok] at away ⊢
  rw [displacement_next (ok.home_lt h) position] at away ⊢
  split at away
  · exact absurd rfl away
  · rw [if_neg ‹_›, dib_eq ok]

section

variable {ht : Htab K V} (key : K) {hash : UInt64} (ok : MaskOk ht.mask)
include ok

lemma probe_found (ordered : Ordered (ht.mask + 1) (reachAt ht.mask ht.slots)) {place : Nat}
    (placeLt : place < ht.mask + 1) (live : hash ≠ 0) (sameHash : (ht.slots place).hash = hash)
    (sameKey : ht.eqFn (ht.slots place).key key = true)
    (unique : ∀ i < ht.mask + 1, (ht.slots i).hash = hash → ht.eqFn (ht.slots i).key key = true →
      i = place) (rounds steps : Nat) (before : steps ≤ displacement (ht.mask + 1) (hash.toNat &&& ht.mask) place)
    (enough : displacement (ht.mask + 1) (hash.toNat &&& ht.mask) place - steps < rounds) :
    probe ht key hash rounds (((hash.toNat &&& ht.mask) + steps) % (ht.mask + 1)) steps = some (some place) := by
  have home := ok.home_lt hash
  have storedReach : reachAt ht.mask ht.slots place =
      displacement (ht.mask + 1) (hash.toNat &&& ht.mask) place + 1 := by
    rw [reachAt_of_live (by rwa [sameHash]), dib_eq ok, sameHash]
  induction rounds generalizing steps with
  | zero => omega
  | succ rounds ih =>
    have far := ordered.path home placeLt storedReach before
    generalize spot : ((hash.toNat &&& ht.mask) + steps) % (ht.mask + 1) = i at far
    have position : i < ht.mask + 1 := by
      rw [← spot]
      exact Nat.mod_lt _ (Nat.succ_pos _)
    have liveHere : (ht.slots i).hash ≠ 0 := by
      intro empty
      rw [reachAt_of_empty empty] at far
      omega
    rw [reachAt_of_live liveHere] at far
    simp only [probe]
    rw [if_neg liveHere, if_neg (by omega)]
    by_cases found : (ht.slots i).hash = hash ∧ ht.eqFn (ht.slots i).key key = true
    · rw [if_pos found, unique i position found.1 found.2]
    · rw [if_neg found, ok.and_eq, ← spot, Nat.mod_add_mod, Nat.add_assoc]
      have notYet : steps ≠ displacement (ht.mask + 1) (hash.toNat &&& ht.mask) place := by
        intro reached
        rw [reached, add_displacement home placeLt] at spot
        exact found ⟨by rw [← spot, sameHash], by rw [← spot, sameKey]⟩
      exact ih (steps + 1) (by omega) (by omega)

lemma probe_missing (vacantLt : vacant < ht.mask + 1) (empty : (ht.slots vacant).hash = 0)
    (absent : ∀ i < ht.mask + 1, (ht.slots i).hash = hash → ht.eqFn (ht.slots i).key key = false)
    (rounds i dist : Nat) (position : i < ht.mask + 1) (enough : displacement (ht.mask + 1) i vacant < rounds) :
    probe ht key hash rounds i dist = some none := by
  induction rounds generalizing i dist with
  | zero => omega
  | succ rounds ih =>
    simp only [probe]
    by_cases emptyHere : (ht.slots i).hash = 0
    · rw [if_pos emptyHere]
    rw [if_neg emptyHere]
    split
    · rfl
    · have different : ¬ ((ht.slots i).hash = hash ∧ ht.eqFn (ht.slots i).key key = true) := by
        rintro ⟨sameHash, sameKey⟩
        rw [absent i position sameHash] at sameKey
        exact Bool.noConfusion sameKey
      rw [if_neg different, ok.and_eq]
      have closer := displacement_toward position vacantLt (fun same => emptyHere (same ▸ empty))
      exact ih _ _ (next_lt position) (by omega)

end

variable {mask vacant : Nat}

lemma insertLoop_spec (ok : MaskOk mask) (vacantLt : vacant < mask + 1)
    (rounds : Nat) (slots : Nat → HtabSlot K V) (carried : HtabSlot K V) (i : Nat)
    (position : i < mask + 1) (live : carried.hash ≠ 0)
    (ordered : Ordered (mask + 1) (reachAt mask slots)) (empty : (slots vacant).hash = 0)
    (before : ∀ p < mask + 1, (p + 1) % (mask + 1) = i → dib mask i carried.hash ≤ reachAt mask slots p)
    (enough : displacement (mask + 1) i vacant < rounds) :
    ∃ slots', insertLoop mask rounds slots carried i (dib mask i carried.hash) = some slots' ∧
      Ordered (mask + 1) (reachAt mask slots') ∧ stored mask slots' = carried ::ₘ stored mask slots := by
  have large : 1 < mask + 1 := by
    have := ok.large
    omega
  have carriedReach : reach mask i carried = dib mask i carried.hash + 1 := if_neg live
  induction rounds generalizing slots carried i with
  | zero => omega
  | succ rounds ih =>
    have neighbour := ordered i position
    simp only [insertLoop]
    by_cases emptyHere : (slots i).hash = 0
    · rw [if_pos emptyHere]
      refine ⟨_, rfl, ?_, ?_⟩
      · rw [reachAt_update, carriedReach]
        rw [reachAt_of_empty emptyHere] at neighbour
        exact ordered.update large (by omega) fun p inside next => by
          have := before p inside next
          omega
      · have moved := stored_update slots position carried
        rw [cell_of_empty emptyHere, cell_of_live live, add_zero] at moved
        rw [moved, add_comm, singleton_add]
    rw [if_neg emptyHere, ok.and_eq]
    have apart : i ≠ vacant := fun same => emptyHere (same ▸ empty)
    have closer := displacement_toward position vacantLt apart
    have limit := ordered.reach_lt vacantLt (reachAt_of_empty empty) position
    have predecessor : ∀ p < mask + 1, (p + 1) % (mask + 1) = (i + 1) % (mask + 1) → p = i := by
      intro p inside same
      rw [next_eq inside, next_eq position] at same
      split_ifs at same <;> omega
    rw [reachAt_of_live emptyHere] at limit neighbour
    by_cases richer : dib mask i (slots i).hash < dib mask i carried.hash
    · -- The carried entry takes the slot, and the entry that was there is carried on.
      rw [if_pos richer, ← dib_next ok position limit]
      have keptOrder : Ordered (mask + 1) (reachAt mask (update slots i carried)) := by
        rw [reachAt_update, carriedReach]
        exact ordered.update large (by omega) fun p inside next => by
          have := before p inside next
          omega
      obtain ⟨slots', result, order, content⟩ := ih (update slots i carried) (slots i)
        ((i + 1) % (mask + 1)) (next_lt position) emptyHere keptOrder
        (by rwa [update_of_ne (Ne.symm apart)])
        (fun p inside next => by
          rw [predecessor p inside next, reachAt_update, update_self, carriedReach, dib_next ok position limit]
          omega)
        (by omega) (if_neg emptyHere)
      refine ⟨slots', result, order, ?_⟩
      have moved := stored_update slots position carried
      rw [cell_of_live emptyHere, cell_of_live live] at moved
      rw [content, ← singleton_add, add_comm, moved, add_comm, singleton_add]
    · have limitHere : dib mask i carried.hash + 1 < mask + 1 := by omega
      rw [if_neg richer, ← dib_next ok position limitHere]
      exact ih slots carried ((i + 1) % (mask + 1)) (next_lt position) live ordered empty (fun p inside next => by
          rw [predecessor p inside next, reachAt_of_live emptyHere, dib_next ok position limitHere]
          omega)
        (by omega) (if_neg live)

lemma htabInsertSlot_spec (ok : MaskOk mask) (ordered : Ordered (mask + 1) (reachAt mask slots))
    (room : (stored mask slots).card < mask + 1) (key : K) (val : V) {hash : UInt64} (live : hash ≠ 0) :
    ∃ slots', htabInsertSlot slots mask key val hash = some slots' ∧ Ordered (mask + 1) (reachAt mask slots') ∧
      stored mask slots' = ⟨key, val, hash⟩ ::ₘ stored mask slots := by
  obtain ⟨vacant, vacantLt, empty⟩ := exists_empty room
  have home := ok.home_lt hash
  have start : dib mask (hash.toNat &&& mask) hash = 0 := by rw [dib_eq ok, displacement_self home]
  have spec := insertLoop_spec ok vacantLt (mask + 1) slots ⟨key, val, hash⟩ (hash.toNat &&& mask) home
    live ordered empty (fun p _ _ => by rw [start]; exact Nat.zero_le _) (displacement_lt vacantLt)
  rwa [start] at spec

variable [Inhabited K] [Inhabited V]

lemma stored_empty (mask : Nat) : stored mask (fun _ => emptySlot : Nat → HtabSlot K V) = 0 := by
  simp [stored, bag, cell, emptySlot]

lemma shiftLoop_spec (ok : MaskOk mask) (vacantLt : vacant < mask + 1)
    (rounds : Nat) (slots : Nat → HtabSlot K V) (i : Nat) (position : i < mask + 1)
    (live : (slots i).hash ≠ 0) (ordered : Ordered (mask + 1) (reachAt mask slots))
    (empty : (slots vacant).hash = 0) (enough : displacement (mask + 1) i vacant ≤ rounds) :
    ∃ slots', shiftLoop mask rounds slots i = some slots' ∧
      Ordered (mask + 1) (reachAt mask slots') ∧ slots i ::ₘ stored mask slots' = stored mask slots := by
  have large : 1 < mask + 1 := by
    have := ok.large
    omega
  induction rounds generalizing slots i with
  | zero =>
    have closer := displacement_toward position vacantLt (fun same => live (same ▸ empty))
    omega
  | succ rounds ih =>
    have apart : i ≠ vacant := fun same => live (same ▸ empty)
    have closer := displacement_toward position vacantLt apart
    have follow := ordered i position
    simp only [shiftLoop]
    rw [ok.and_eq]
    by_cases stop : (slots ((i + 1) % (mask + 1))).hash = 0 ∨
        dib mask ((i + 1) % (mask + 1)) (slots ((i + 1) % (mask + 1))).hash = 0
    · rw [if_pos stop]
      refine ⟨_, rfl, ?_, ?_⟩
      · rw [reachAt_update]
        refine ordered.update large ?_ fun p _ _ => Nat.zero_le _
        rcases stop with emptyNext | atHome
        · rw [reachAt_of_empty emptyNext]
          exact Nat.zero_le _
        · unfold reachAt reach
          split <;> omega
      · have moved := stored_update slots position emptySlot
        rw [cell_of_live live, cell_of_empty rfl, add_zero, add_comm, singleton_add] at moved
        exact moved
    · rw [if_neg stop]
      push Not at stop
      obtain ⟨liveNext, away⟩ := stop
      have shifted := dib_previous ok position away
      have nextNe : (i + 1) % (mask + 1) ≠ i := by
        rw [next_eq position]
        split <;> omega
      -- For one round the next entry stands in two slots, which keeps the order as well.
      have keptOrder : Ordered (mask + 1) (reachAt mask (update slots i (slots ((i + 1) % (mask + 1))))) := by
        rw [reachAt_update, reach, if_neg liveNext]
        rw [reachAt_of_live liveNext] at follow
        refine ordered.update large ?_ fun p inside next => ?_
        · rw [reachAt_of_live liveNext]
          omega
        · have previous := ordered p inside
          rw [next] at previous
          omega
      obtain ⟨slots', result, order, content⟩ := ih
        (update slots i (slots ((i + 1) % (mask + 1)))) ((i + 1) % (mask + 1))
        (next_lt position) (by rwa [update_of_ne nextNe]) keptOrder
        (by rwa [update_of_ne (Ne.symm apart)]) (by omega)
      refine ⟨slots', result, order, ?_⟩
      have moved := stored_update slots position (slots ((i + 1) % (mask + 1)))
      rw [cell_of_live live, cell_of_live liveNext, ← content, update_of_ne nextNe,
        ← singleton_add, add_assoc, add_comm _ {slots ((i + 1) % (mask + 1))}] at moved
      have cancelled := add_left_cancel moved
      rw [← cancelled, add_comm, singleton_add]

end LibOp.HashTable

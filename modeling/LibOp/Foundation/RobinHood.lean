import Mathlib

namespace LibOp.Foundation

open Finset Nat Function

/-- Steps from `home` forward to `i` on a ring of `cap` positions. -/
def displacement (cap home i : Nat) : Nat := (i + cap - home) % cap

lemma next_eq (position : i < cap) : (i + 1) % cap = if i + 1 = cap then 0 else i + 1 := by
  split
  next last => rw [last, mod_self]
  next inner => exact mod_eq_of_lt (by omega)

lemma next_lt (position : i < cap) : (i + 1) % cap < cap :=
  mod_lt _ (by omega)

variable {cap home i : Nat}

lemma displacement_eq (homeLt : home < cap) (position : i < cap) :
    displacement cap home i = if home ≤ i then i - home else i + cap - home := by
  unfold displacement
  split
  next after =>
    rw [show i + cap - home = i - home + cap by omega, add_mod_right]
    exact mod_eq_of_lt (by omega)
  next wrapped => exact mod_eq_of_lt (by omega)

lemma displacement_lt (position : i < cap) : displacement cap home i < cap :=
  mod_lt _ (by omega)

lemma displacement_self (homeLt : home < cap) : displacement cap home home = 0 := by
  rw [displacement_eq homeLt homeLt]
  simp

lemma displacement_next (homeLt : home < cap) (position : i < cap) : displacement cap home ((i + 1) % cap) =
      if displacement cap home i + 1 = cap then 0 else displacement cap home i + 1 := by
  rw [displacement_eq homeLt (next_lt position), displacement_eq homeLt position, next_eq position]
  split_ifs <;> omega

lemma add_displacement (homeLt : home < cap) (position : i < cap) : (home + displacement cap home i) % cap = i := by
  rw [displacement_eq homeLt position]
  split
  next after => rw [Nat.add_sub_cancel' after, Nat.mod_eq_of_lt position]
  next wrapped => rw [show home + (i + cap - home) = i + cap by omega, add_mod_right, mod_eq_of_lt position]

lemma displacement_toward (position : i < cap) (targetLt : target < cap) (apart : i ≠ target) :
    displacement cap i target = displacement cap ((i + 1) % cap) target + 1 := by
  rw [displacement_eq position targetLt, displacement_eq (next_lt position) targetLt, next_eq position]
  split_ifs <;> omega

/-- A vacant position has reach zero, an occupied one its displacement and one; the reach grows by at most one per
position. -/
def Ordered (cap : Nat) (reach : Nat → Nat) : Prop :=
  ∀ i < cap, reach ((i + 1) % cap) ≤ reach i + 1

variable {i : Nat}

section Ordered

variable {cap : Nat} {reach : Nat → Nat} (ordered : Ordered cap reach)
include ordered

lemma Ordered.along (position : i < cap) (steps : Nat) : reach ((i + steps) % cap) ≤ reach i + steps := by
  induction steps with
  | zero => simp [mod_eq_of_lt position]
  | succ steps ih =>
    have grow := ordered ((i + steps) % cap) (mod_lt _ (by omega))
    rw [mod_add_mod, add_assoc] at grow
    omega

lemma Ordered.reach_lt (vacantLt : vacant < cap) (empty : reach vacant = 0) (position : i < cap) : reach i < cap := by
  have grow := ordered.along vacantLt (displacement cap vacant i)
  rw [add_displacement vacantLt position, empty] at grow
  have bound : displacement cap vacant i < cap := displacement_lt position
  omega

lemma Ordered.path {home place : Nat} (homeLt : home < cap) (placeLt : place < cap)
    (stored : reach place = displacement cap home place + 1)
    (before : steps ≤ displacement cap home place) : steps < reach ((home + steps) % cap) := by
  have grow := ordered.along (Nat.mod_lt (home + steps) (by omega : 0 < cap)) (displacement cap home place - steps)
  rw [Nat.mod_add_mod, add_assoc, Nat.add_sub_cancel' before, add_displacement homeLt placeLt, stored] at grow
  omega

lemma Ordered.update (large : 1 < cap) {i value : Nat} (after : reach ((i + 1) % cap) ≤ value + 1)
    (before : ∀ p < cap, (p + 1) % cap = i → value ≤ reach p + 1) : Ordered cap (update reach i value) := by
  intro p position
  have moved : (p + 1) % cap ≠ p := by
    rw [next_eq position]
    split <;> omega
  by_cases here : p = i
  · subst here
    rw [update_of_ne moved, update_self]
    exact after
  · rw [update_of_ne here]
    by_cases next : (p + 1) % cap = i
    · rw [next, update_self]
      exact before p position next
    · rw [update_of_ne next]
      exact ordered p position

end Ordered

def bag {α β : Type*} (cell : α → Multiset β) (positions : Finset Nat) (slots : Nat → α) : Multiset β :=
  ∑ i ∈ positions, cell (slots i)

variable {α β : Type*} (cell : α → Multiset β) {positions : Finset Nat} (slots : Nat → α)

lemma mem_bag : x ∈ bag cell positions slots ↔ ∃ i ∈ positions, x ∈ cell (slots i) :=
  Multiset.mem_sum

lemma bag_congr (same : ∀ i ∈ positions, slots' i = slots i) : bag cell positions slots' = bag cell positions slots :=
  sum_congr rfl fun i mem => by rw [same i mem]

lemma bag_erase (mem : i ∈ positions) :
    bag cell positions slots = cell (slots i) + bag cell (positions.erase i) slots :=
  (add_sum_erase positions (fun k => cell (slots k)) mem).symm

lemma bag_update (mem : i ∈ positions) (x : α) :
    bag cell positions (update slots i x) + cell (slots i) = bag cell positions slots + cell x := by
  have others : bag cell (positions.erase i) (update slots i x) = bag cell (positions.erase i) slots :=
    bag_congr cell slots fun k other => update_of_ne (ne_of_mem_erase other) x slots
  rw [bag_erase cell _ mem, bag_erase cell slots mem, others, update_self]
  abel

lemma exists_vacant (fewer : (bag cell positions slots).card < positions.card) :
    ∃ i ∈ positions, cell (slots i) = 0 := by
  by_contra full
  push Not at full
  have each : ∀ i ∈ positions, 1 ≤ (cell (slots i)).card :=
    fun i mem => Multiset.card_pos.mpr (full i mem)
  have total := sum_le_sum each
  rw [← card_eq_sum_ones, ← Multiset.card_sum] at total
  exact absurd fewer (not_lt.mpr total)

end LibOp.Foundation

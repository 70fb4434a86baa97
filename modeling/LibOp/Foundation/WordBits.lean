import Mathlib

namespace LibOp.Foundation

lemma shift_or (k : Nat) (small : low < 2 ^ k) : high <<< k ||| low = high * 2 ^ k + low := by
  rw [← Nat.shiftLeft_add_eq_or_of_lt small, Nat.shiftLeft_eq]

lemma lowBits (mask k : Nat) (ones : mask = 2 ^ k - 1) (n : Nat) : n &&& mask = n % 2 ^ k := by
  rw [ones, Nat.and_two_pow_sub_one_eq_mod]

lemma mod_ne_of_near {i j cells : Nat} (order : i < j) (near : j < i + cells) : i % cells ≠ j % cells := by
  intro same
  have divides := Nat.dvd_of_mod_eq_zero (Nat.sub_mod_eq_zero_of_mod_eq same.symm)
  have atLeast := Nat.le_of_dvd (by omega) divides
  omega

lemma two_pow_dvd_word (atMost : k ≤ 64) : 2 ^ k ∣ 2 ^ 64 := Nat.pow_dvd_pow 2 atMost

lemma word_and_mask (atMost : k ≤ 64) (i : Nat) : i % 2 ^ 64 &&& (2 ^ k - 1) = i % 2 ^ k := by
  rw [Nat.and_two_pow_sub_one_eq_mod, Nat.mod_mod_of_dvd _ (two_pow_dvd_word atMost)]

lemma word_distance {head tail : Nat} (order : tail ≤ head) (near : head - tail < 2 ^ 64) :
    (head % 2 ^ 64 + 2 ^ 64 - tail % 2 ^ 64) % 2 ^ 64 = head - tail := by
  omega

def TopBits (width b m : Nat) : Prop :=
  ∀ i, (i ≤ b → b < i + width → m.testBit i = true) ∧ (b < i → m.testBit i = false)

lemma TopBits.smear {width b m : Nat} (top : TopBits width b m) : TopBits (2 * width) b (m ||| (m >>> width)) := by
  intro i
  rw [Nat.testBit_or, Nat.testBit_shiftRight, Bool.or_eq_true, Bool.or_eq_false_iff]
  refine ⟨fun low high => ?_, fun above => ⟨(top i).2 above, (top (width + i)).2 (by omega)⟩⟩
  by_cases near : b < i + width
  · exact .inl ((top i).1 low near)
  · exact .inr ((top (width + i)).1 (by omega) (by omega))

lemma TopBits.full {width b m : Nat} (top : TopBits width b m) (covers : b < width) : m + 1 = 2 ^ (b + 1) := by
  have ones : m = 2 ^ (b + 1) - 1 := by
    apply Nat.eq_of_testBit_eq
    intro i
    rw [Nat.testBit_two_pow_sub_one]
    by_cases low : i ≤ b
    · rw [(top i).1 low (by omega), decide_eq_true (by omega)]
    · rw [(top i).2 (by omega), decide_eq_false (by omega)]
  have pos := Nat.two_pow_pos (b + 1)
  omega

lemma topBits_log2 (pos : m ≠ 0) : TopBits 1 m.log2 m := by
  intro i
  refine ⟨fun low high => ?_, fun above => ?_⟩
  · rw [show i = m.log2 by omega]
    exact Nat.testBit_log2 pos
  · exact Nat.testBit_lt_two_pow ((Nat.log2_lt pos).mp above)

end LibOp.Foundation

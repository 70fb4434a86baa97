import Mathlib

namespace LibOp.Foundation

open Nat

/-- The capacity for `n` elements of a buffer that starts at `first` and doubles when full. -/
def doubledCapacity (first : Nat) : Nat → Nat
  | 0 => 0
  | n + 1 =>
    if n < doubledCapacity first n then doubledCapacity first n
    else if doubledCapacity first n = 0 then first else doubledCapacity first n * 2

variable {first : Nat}

lemma doubledCapacity_of_lt (room : n < doubledCapacity first n) :
    doubledCapacity first (n + 1) = doubledCapacity first n := by
  rw [doubledCapacity, if_pos room]

lemma doubledCapacity_of_full (some_ : n ≠ 0) (full : doubledCapacity first n = n) :
    doubledCapacity first (n + 1) = n * 2 := by
  rw [doubledCapacity, full, if_neg (lt_irrefl n), if_neg some_]

lemma le_doubledCapacity (pos : 0 < first) (n : Nat) : n ≤ doubledCapacity first n := by
  induction n with
  | zero => exact zero_le _
  | succ n ih =>
    rw [doubledCapacity]
    split_ifs with room empty
    · exact room
    · omega
    · omega

lemma doubledCapacity_pow (n : Nat) : doubledCapacity first n = 0 ∨ ∃ k, doubledCapacity first n = first * 2 ^ k := by
  induction n with
  | zero => exact .inl rfl
  | succ n ih =>
    rw [doubledCapacity]
    split_ifs with room empty
    · exact ih
    · exact .inr ⟨0, (mul_one first).symm⟩
    · obtain ⟨k, shape⟩ := ih.resolve_left empty
      exact .inr ⟨k + 1, by rw [shape, pow_succ, mul_assoc]⟩

lemma doubledCapacity_le (pos : 0 < first) (bound : n ≤ first * 2 ^ k) : doubledCapacity first n ≤ first * 2 ^ k := by
  induction n with
  | zero => exact zero_le _
  | succ n ih =>
    have before := ih (le_of_succ_le bound)
    have enough := le_doubledCapacity pos n
    rw [doubledCapacity]
    split_ifs with room empty
    · exact before
    · exact Nat.le_mul_of_pos_right first (Nat.two_pow_pos k)
    · obtain ⟨j, shape⟩ := (doubledCapacity_pow n).resolve_left empty
      have full : doubledCapacity first n < first * 2 ^ k := by omega
      rw [shape] at full ⊢
      have smaller : j < k := (Nat.pow_lt_pow_iff_right Nat.one_lt_two).mp (Nat.lt_of_mul_lt_mul_left full)
      rw [mul_assoc, ← pow_succ]
      exact Nat.mul_le_mul_left first (Nat.pow_le_pow_right Nat.two_pos smaller)

end LibOp.Foundation

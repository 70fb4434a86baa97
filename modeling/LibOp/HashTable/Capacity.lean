import LibOp.Foundation.WordBits
import LibOp.Foundation.RobinHood
import LibOp.HashTable.Table

namespace LibOp.HashTable

open Foundation Nat

def MaskOk (mask : Nat) : Prop := ∃ k, 4 ≤ k ∧ k ≤ 62 ∧ mask + 1 = 2 ^ k

variable {mask n : Nat}

section

variable (ok : MaskOk mask)

include ok

lemma MaskOk.and_eq (n : Nat) : n &&& mask = n % (mask + 1) := by
  obtain ⟨k, -, -, pow⟩ := ok
  rw [pow, show mask = 2 ^ k - 1 by omega, and_two_pow_sub_one_eq_mod]

lemma MaskOk.large : 16 ≤ mask + 1 := by
  obtain ⟨k, low, -, pow⟩ := ok
  rw [pow]
  exact Nat.pow_le_pow_right (by decide : 0 < 2) low

lemma MaskOk.bound : mask + 1 ≤ 2 ^ 62 := by
  obtain ⟨k, -, high, pow⟩ := ok
  rw [pow]
  exact Nat.pow_le_pow_right (by decide) high

lemma MaskOk.dvd : mask + 1 ∣ 2 ^ 64 := by
  obtain ⟨k, -, high, pow⟩ := ok
  rw [pow]
  exact pow_dvd_pow 2 (by omega)

lemma MaskOk.home_lt (h : UInt64) : h.toNat &&& mask < mask + 1 := by
  rw [ok.and_eq]
  exact mod_lt _ (succ_pos mask)

lemma dib_eq (h : UInt64) : dib mask i h = displacement (mask + 1) (h.toNat &&& mask) i := by
  have home := ok.home_lt h
  obtain ⟨q, split⟩ := ok.dvd
  have pos : 1 ≤ q := by
    rcases Nat.eq_zero_or_pos q with zero | pos
    · rw [zero, mul_zero] at split
      exact absurd split (by decide)
    · exact pos
  obtain ⟨r, rfl⟩ : ∃ r, q = r + 1 := ⟨q - 1, by omega⟩
  unfold dib displacement
  rw [ok.and_eq ((i + 2 ^ 64 - (h.toNat &&& mask)) % 2 ^ 64), mod_mod_of_dvd _ ok.dvd]
  rw [show i + 2 ^ 64 - (h.toNat &&& mask) =
    i + (mask + 1) - (h.toNat &&& mask) + (mask + 1) * r by rw [split, mul_add]; omega]
  exact add_mul_mod_self_left _ _ _

end

lemma nextPow2_eq (large : 16 ≤ n) (fits : n ≤ 2 ^ 64) : nextPow2 n = 2 ^ ((n - 1).log2 + 1) % 2 ^ 64 := by
  have pos : n - 1 ≠ 0 := by omega
  have below : (n - 1).log2 < 64 := (log2_lt pos).mpr (by omega)
  have smeared := (topBits_log2 pos).smear.smear.smear.smear.smear.smear.full (by omega)
  rw [← smeared]
  simp [nextPow2, not_lt.mpr large]

lemma nextPow2_spec (bound : n ≤ 2 ^ 62) : ∃ k, 4 ≤ k ∧ k ≤ 62 ∧ nextPow2 n = 2 ^ k ∧ n ≤ 2 ^ k := by
  by_cases small : n < 16
  · exact ⟨4, by decide, by decide, by simp [nextPow2, small], by omega⟩
  · have pos : n - 1 ≠ 0 := by omega
    have below : (n - 1).log2 < 62 := (log2_lt pos).mpr (by omega)
    have above : 3 ≤ (n - 1).log2 := (le_log2 pos).mpr (by omega)
    have size : n - 1 < 2 ^ ((n - 1).log2 + 1) := lt_log2_self
    have fits : 2 ^ ((n - 1).log2 + 1) < 2 ^ 64 := Nat.pow_lt_pow_right (by decide) (by omega)
    refine ⟨(n - 1).log2 + 1, by omega, by omega, ?_, by omega⟩
    rw [nextPow2_eq (by omega) (by omega), mod_eq_of_lt fits]

lemma nextPow2_half (above : 2 ^ 62 < n) (bound : n ≤ 2 ^ 63) : nextPow2 n = 2 ^ 63 := by
  have pos : n - 1 ≠ 0 := by omega
  have upper : (n - 1).log2 < 63 := (log2_lt pos).mpr (by omega)
  have lower : 62 ≤ (n - 1).log2 := (le_log2 pos).mpr (by omega)
  rw [nextPow2_eq (by omega) (by omega), show (n - 1).log2 = 62 by omega]
  exact mod_eq_of_lt (by decide)

lemma nextPow2_wraps (above : 2 ^ 63 < n) (bound : n ≤ 2 ^ 64) : nextPow2 n = 0 := by
  have pos : n - 1 ≠ 0 := by omega
  have upper : (n - 1).log2 < 64 := (log2_lt pos).mpr (by omega)
  have lower : 63 ≤ (n - 1).log2 := (le_log2 pos).mpr (by omega)
  rw [nextPow2_eq (by omega) (by omega), show (n - 1).log2 = 63 by omega]
  exact mod_self (2 ^ 64)

end LibOp.HashTable

import LibOp.HashTable.Filtering

namespace LibOp.HashTable

open Nat

variable {K V : Type}

def htabCap (ht : Htab K V) : Nat := ht.mask + 1

/-- The promised capacity: the least power of two from 16 on with a load of 50%. -/
def halfLoadCap (count : Nat) : Nat := max 16 (2 ^ clog 2 (2 * count))

lemma nextPow2_power (large : 3 ≤ k) (bound : k < 61) :
    nextPow2 (2 ^ k * 2 + 1) = 2 * (2 * 2 ^ k) ∧ halfLoadCap (2 ^ k) = 2 * 2 ^ k := by
  have low : 2 ^ 3 ≤ 2 ^ k := Nat.pow_le_pow_right (by decide) large
  have high : 2 ^ k < 2 ^ 61 := Nat.pow_lt_pow_right (by decide) bound
  have fits : 2 ^ (k + 2) < 2 ^ 64 := Nat.pow_lt_pow_right (by decide) (by omega)
  rw [halfLoadCap, ← Nat.pow_succ', Nat.clog_pow _ _ (by decide), ← Nat.pow_succ', nextPow2_eq (by omega) (by omega),
    Nat.add_sub_cancel, ← Nat.pow_succ, Nat.log2_two_pow, Nat.mod_eq_of_lt fits]
  exact ⟨rfl, by omega⟩

lemma nextPow2_halfLoad {count : Nat} (few : count < 2 ^ 61) (uneven : ∀ k ≥ 3, count ≠ 2 ^ k) :
    nextPow2 (count * 2 + 1) = halfLoadCap count := by
  unfold halfLoadCap
  by_cases small : count < 8
  · have least : clog 2 (2 * count) ≤ 4 := clog_le_of_le_pow (by omega)
    have power : 2 ^ Nat.clog 2 (2 * count) ≤ 2 ^ 4 := Nat.pow_le_pow_right (by decide) least
    rw [nextPow2, if_pos (by omega)]
    omega
  · have pos : count ≠ 0 := by omega
    have above : 3 ≤ count.log2 := (le_log2 pos).mpr (by omega)
    have below : count.log2 < 61 := (log2_lt pos).mpr few
    have least := lt_of_le_of_ne (log2_self_le pos) (uneven _ above).symm
    have most : count < 2 ^ (count.log2 + 1) := lt_log2_self
    have size : 2 ^ 5 ≤ 2 ^ (count.log2 + 2) := Nat.pow_le_pow_right (by decide) (by omega)
    have fits : 2 ^ (count.log2 + 2) < 2 ^ 64 := Nat.pow_lt_pow_right (by decide) (by omega)
    have level : clog 2 (2 * count) = count.log2 + 2 := by
      apply le_antisymm
      · apply clog_le_of_le_pow
        rw [pow_succ]
        omega
      · rw [← lt_iff_add_one_le, lt_clog_iff_pow_lt (by decide), pow_succ]
        omega
    rw [nextPow2_eq (by omega) (by omega), Nat.add_sub_cancel, Nat.mul_comm, Nat.log2_two_mul pos, level,
      mod_eq_of_lt fits]
    omega

variable [Inhabited K] [Inhabited V] {hashFn : K → UInt64} {eqFn : K → K → Bool}

theorem compact_minimal_iff (laws : KeyLaws hashFn eqFn) {ht : Htab K V} (reached : HtabReachable hashFn eqFn ht)
    (few : ht.count < 2 ^ 61) :
    ∃ after, htabCompact ht = some after ∧ htabEntries after = htabEntries ht ∧ htabSize after = htabSize ht ∧
      (htabCap after = min (htabCap ht) (halfLoadCap ht.count) ↔
        ¬ ((∃ k ≥ 3, ht.count = 2 ^ k) ∧ 2 * ht.count < htabCap ht)) := by
  obtain ⟨m, rep⟩ := reached.represents laws
  obtain ⟨after, result, rep', cap⟩ := rep.compact few
  have entries {table : Htab K V} (rep : Represents laws table m) : htabEntries table = m.entries.map Sigma.snd := by
    rw [rep.content, Multiset.map_map]
    rfl
  refine ⟨after, result, (entries rep').trans (entries rep).symm, rep'.card.symm.trans rep.card, ?_⟩
  unfold htabCap
  rw [cap]
  by_cases power : ∃ k ≥ 3, ht.count = 2 ^ k
  · obtain ⟨k, large, count⟩ := power
    have pos := Nat.two_pow_pos k
    have bound : k < 61 := (Nat.pow_lt_pow_iff_right (by decide)).mp (count ▸ few)
    obtain ⟨chosen, least⟩ := nextPow2_power large bound
    simp only [count, chosen, least, show (∃ j ≥ 3, 2 ^ k = 2 ^ j) from ⟨k, large, rfl⟩, true_and]
    omega
  · rw [nextPow2_halfLoad few (fun k large count => power ⟨k, large, count⟩)]
    simp [power]

theorem compact_minimal_three : ∃ ht replies after,
    htabRun (htabCreate lastDigitHash lastDigitEq 32) [.set 1 10, .set 3 30, .set 2 20] = some (ht, replies) ∧
      htabCompact ht = some after ∧ htabEntries after = htabEntries ht ∧ htabSize after = 3 ∧ htabCap after = 16 := by
  have reached : HtabReachable lastDigitHash lastDigitEq _ := .step (.set 2 20) _ (.step (.set 3 30) _
    (.step (.set 1 10) _ (.create 32 (by decide)) (by decide) rfl) (by decide) rfl) (by decide) rfl
  obtain ⟨after, result, entries, size, cap⟩ := compact_minimal_iff lastDigit_laws reached (by decide)
  refine ⟨_, _, after, rfl, result, entries, size, cap.mpr ?_⟩
  rintro ⟨⟨k, large, three⟩, -⟩
  change 3 = 2 ^ k at three
  have eight : 2 ^ 3 ≤ 2 ^ k := Nat.pow_le_pow_right (by decide) large
  omega

/-- Eight entries in 32 slots: 16 would keep the load at 50%. -/
theorem compact_power_of_two :
    (htabRun (htabCreate lastDigitHash lastDigitEq 32) ((List.range 8).map (fun key => .set key key) ++ [.compact])).map
      (fun run => (htabSize run.1, htabCap run.1)) = some (8, 32) ∧ halfLoadCap 8 = 16 := by
  decide +kernel

end LibOp.HashTable

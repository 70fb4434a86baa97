import LibOp.Merkle.Reconciliation

namespace LibOp.Merkle

open Foundation Nat UInt64

variable (depth : Nat) (tsMin tsMax : UInt64)

def merkleLeafRange (leaf : Nat) : Nat × Nat :=
  let range := (tsMax - tsMin).toNat
  ((tsMin.toNat + range * leaf % 2 ^ 64 / merkleLeaves depth) % 2 ^ 64,
    (tsMin.toNat + range * (leaf + 1) % 2 ^ 64 / merkleLeaves depth) % 2 ^ 64)

def RangeCovers (ts : UInt64) (leaf : Nat) : Prop :=
  merkleLeafIndex depth tsMin tsMax ts = leaf ↔
    (merkleLeafRange depth tsMin tsMax leaf).1 ≤ ts.toNat ∧ ts.toNat < (merkleLeafRange depth tsMin tsMax leaf).2

variable {depth tsMin tsMax}

lemma leafIndex_offset (narrow : (tsMax - tsMin).toNat < 2 ^ 53) (low : tsMin ≤ ts) (high : ts < tsMax) :
    merkleLeafIndex 10 tsMin tsMax ts = (ts.toNat - tsMin.toNat) * 1024 / (tsMax - tsMin).toNat := by
  unfold merkleLeafIndex
  split
  next start => rw [UInt64.le_antisymm start low, Nat.sub_self, Nat.zero_mul, Nat.zero_div]
  · simp only [if_neg (UInt64.not_le.mpr high), UInt64.toNat_sub_of_le _ _ low]
    rw [UInt64.toNat_sub_of_le _ _ (UInt64.le_of_lt (UInt64.lt_of_le_of_lt low high))] at *
    have most := lt_iff_toNat_lt.mp high
    have least := le_iff_toNat_le.mp low
    have bucket : (ts.toNat - tsMin.toNat) * 1024 / (tsMax.toNat - tsMin.toNat) < 1024 :=
      Nat.div_lt_of_lt_mul (by omega)
    rw [show merkleLeaves 10 = 1024 from rfl, mod_eq_of_lt (b := 2 ^ 64) (by omega), mod_eq_of_lt (by omega),
      if_neg (by omega)]

/-- Both formulas round down, so they agree at every edge only where the leaves divide the window. -/
theorem leaf_range_iff (tsMin tsMax : UInt64) (window : tsMin < tsMax) (narrow : (tsMax - tsMin).toNat < 2 ^ 53) :
    (∀ ts, tsMin ≤ ts → ts < tsMax → ∀ leaf < merkleLeaves 10, RangeCovers 10 tsMin tsMax ts leaf) ↔
      merkleLeaves 10 ∣ (tsMax - tsMin).toNat := by
  have total := UInt64.toNat_sub_of_le _ _ (UInt64.le_of_lt window)
  have bound := UInt64.lt_iff_toNat_lt.mp window
  have top := tsMax.toNat_lt
  have leaves : merkleLeaves 10 = 1024 := rfl
  constructor
  · intro agree
    by_contra uneven
    rw [leaves] at uneven
    have place : (tsMin + .ofNat ((tsMax - tsMin).toNat / 1024)).toNat =
        tsMin.toNat + (tsMax - tsMin).toNat / 1024 := by
      rw [UInt64.toNat_add, UInt64.toNat_ofNat']
      omega
    have low : tsMin ≤ tsMin + .ofNat ((tsMax - tsMin).toNat / 1024) := le_iff_toNat_le.mpr (by omega)
    have high : tsMin + .ofNat ((tsMax - tsMin).toNat / 1024) < tsMax := lt_iff_toNat_lt.mpr (by omega)
    have first := agree _ low high 0 (by decide)
    rw [RangeCovers, leafIndex_offset narrow low high, merkleLeafRange, place, leaves, Nat.add_sub_cancel_left,
      div_eq_of_lt (by omega)] at first
    omega
  · intro even ts low high leaf inside
    obtain ⟨width, split⟩ := even
    have least := le_iff_toNat_le.mp low
    have most := lt_iff_toNat_lt.mp high
    rw [leaves] at split inside
    have edge : width * leaf + width ≤ width * 1024 := mul_le_mul_left width inside
    have lower : (tsMax - tsMin).toNat * leaf = 1024 * (width * leaf) := by rw [split, mul_assoc]
    have fits : 1024 * (width * leaf) + 1024 * width < 2 ^ 64 := by omega
    rw [RangeCovers, leafIndex_offset narrow low high, merkleLeafRange, leaves, Nat.div_eq_iff (by omega),
      mul_comm leaf, Nat.mul_add_one _ leaf, lower, split, mod_eq_of_lt fits]
    omega

theorem leaf_range_even : (∀ ts, 0 ≤ ts → ts < 2048 → ∀ leaf < merkleLeaves 10, RangeCovers 10 0 2048 ts leaf) ↔
    merkleLeaves 10 ∣ ((2048 : UInt64) - 0).toNat :=
  leaf_range_iff 0 2048 (by decide) (by decide)

/-- Time 1 of 0 to 1025 falls into leaf 0, whose range ends before it. -/
theorem leaf_range_uneven : ¬ RangeCovers 10 0 1025 1 0 ∧ merkleLeafIndex 10 0 1025 1 = 0 ∧
    merkleLeafRange 10 0 1025 0 = (0, 1) := by
  unfold RangeCovers
  decide

lemma reached_leaf (mem : n ∈ reached marked depth 1) : merkleLeaves depth ≤ n ∧ n < 2 * merkleLeaves depth := by
  have pos := merkleLeaves_pos depth
  have range := (Nat.div_eq_iff pos).mp ((mem_reached marked depth 1 n).mp mem).1
  omega

lemma merkleBuild_count (tsMin tsMax : UInt64) (events : List MerkleEvent) :
    (merkleBuild depth tsMin tsMax events).count = events.length % 2 ^ 32 := by
  induction events using List.reverseRecOn with
  | nil => rfl
  | append_singleton events e ih =>
    rw [merkleBuild_concat, List.length_append, ← mod_add_mod, ← ih]
    rfl

theorem merkle_tree_sound (depth : Nat) (tsMin tsMax : UInt64) (events : List MerkleEvent) :
    Consistent merkleXor depth (merkleBuild depth tsMin tsMax events).nodes ∧
    (∀ leaf < merkleLeaves depth, merkleLeaf depth (merkleBuild depth tsMin tsMax events) leaf =
      summary merkleXor noFingerprint MerkleEvent.id
        (events.filter (fun e => decide (merkleLeafIndex depth tsMin tsMax e.ts = leaf)))) ∧
    (∀ others, others.Perm events →
      (merkleBuild depth tsMin tsMax others).count = (merkleBuild depth tsMin tsMax events).count ∧
      ∀ n, 1 ≤ n → n < 2 * merkleLeaves depth →
        (merkleBuild depth tsMin tsMax others).nodes n = (merkleBuild depth tsMin tsMax events).nodes n) ∧
    ∀ (a b : MerkleTree) (maxDiff : Nat), ∃ found, merkleDiff depth a b maxDiff = some found ∧ found.length ≤ maxDiff ∧
      found.Pairwise (· < ·) ∧ ∀ leaf ∈ found, leaf < merkleLeaves depth ∧
        merkleLeaf depth a leaf ≠ merkleLeaf depth b leaf := by
  obtain ⟨consistent, leaves⟩ := merkleBuild_nodes depth tsMin tsMax events
  refine ⟨consistent, ?_, ?_, ?_⟩
  · intro leaf inside
    rw [merkleLeaf, leaves _ (atHeight_leaf.mpr (by rw [pow_succ]; unfold merkleLeaves at *; omega))]
    simp [eventPlace]
  · intro others same
    constructor
    · rw [merkleBuild_count, merkleBuild_count, same.length_eq]
    · intro n low high
      obtain ⟨h, node⟩ := atHeight_of_lt low (pow_succ' ▸ high)
      rw [merkleBuild_summarises depth tsMin tsMax others h n node,
        merkleBuild_summarises depth tsMin tsMax events h n node]
      exact summary_perm merkleXor noFingerprint _ (same.filter _)
  · intro a b maxDiff
    refine ⟨_, merkleDiff_eq maxDiff, List.length_take_le _ _, ?_, ?_⟩
    · apply List.Pairwise.take
      rw [List.pairwise_map]
      apply List.Pairwise.imp_of_mem _ (reached_sorted _ depth 1)
      intro n o left right less
      have low := reached_leaf left
      omega
    · intro leaf found
      obtain ⟨n, mem, rfl⟩ := List.mem_map.mp (List.mem_of_mem_take found)
      have range := reached_leaf mem
      have marked := ((mem_reached _ depth 1 n).mp mem).2 0 (zero_le _)
      rw [Nat.pow_zero, Nat.div_one, differs_iff] at marked
      rw [merkleLeaf, merkleLeaf, Nat.add_sub_cancel' range.1]
      exact ⟨by omega, marked⟩

end LibOp.Merkle

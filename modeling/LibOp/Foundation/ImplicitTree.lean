import Mathlib

namespace LibOp.Foundation

open List Nat Function

/-- A node of the binary tree in an array: the root is 1, the children of `n` are `2 * n` and `2 * n + 1`, the leaves `2
^ d .. 2 ^ (d + 1) - 1` have height 0. -/
def AtHeight (d h n : Nat) : Prop := ∃ level, level + h = d ∧ 2 ^ level ≤ n ∧ n < 2 ^ (level + 1)

lemma atHeight_root (d : Nat) : AtHeight d d 1 := ⟨0, by omega, by simp, by simp⟩

lemma atHeight_leaf : AtHeight d 0 n ↔ 2 ^ d ≤ n ∧ n < 2 ^ (d + 1) := by
  constructor
  · intro leaf
    obtain ⟨level, rfl, range⟩ := leaf
    exact range
  · intro range
    exact ⟨d, rfl, range⟩

lemma atHeight_of_lt (low : 1 ≤ n) (high : n < 2 ^ (d + 1)) : ∃ h, AtHeight d h n := by
  have level := (log2_lt (by omega)).mpr high
  exact ⟨d - n.log2, n.log2, by omega, log2_self_le (by omega), lt_log2_self⟩

lemma AtHeight.child (inner : AtHeight d (h + 1) n) (side : c = 2 * n ∨ c = 2 * n + 1) : AtHeight d h c := by
  obtain ⟨level, total, low, high⟩ := inner
  refine ⟨level + 1, by omega, ?_, ?_⟩
  · omega
  · omega

lemma AtHeight.inner (inner : AtHeight d (h + 1) n) : 1 ≤ n ∧ n < 2 ^ d := by
  obtain ⟨level, rfl, low, high⟩ := inner
  have below : 2 ^ (level + 1) ≤ 2 ^ (level + (h + 1)) := Nat.pow_le_pow_right (by omega) (by omega)
  omega

section Summaries

variable {F α : Type*} (op : F → F → F) (unit : F)

def summary (value : α → F) (items : List α) : F := items.foldr (fun a rest => op (value a) rest) unit

variable (value : α → F)

lemma summary_perm [Std.Associative op] [Std.Commutative op] {items others : List α}
    (same : others.Perm items) : summary op unit value others = summary op unit value items := by
  apply same.foldr_eq'
  intro a _ b _ rest
  ac_rfl

lemma summary_filter_split [Std.Associative op] [Std.Commutative op] [Std.LawfulIdentity op unit]
    (items : List α) {left right both : α → Bool} (covers : ∀ a, both a = (left a || right a))
    (apart : ∀ a, left a = true → right a = false) :
    summary op unit value (items.filter both) =
      op (summary op unit value (items.filter left)) (summary op unit value (items.filter right)) := by
  have assoc : ∀ a b c, op (op a b) c = op a (op b c) := Std.Associative.assoc
  have comm : ∀ a b, op a b = op b a := Std.Commutative.comm
  have unitLeft : ∀ a, op unit a = a := Std.LawfulLeftIdentity.left_id
  induction items with
  | nil => exact (unitLeft unit).symm
  | cons a items ih =>
    cases onLeft : left a with
    | true =>
      have onBoth : both a = true := by rw [covers, onLeft, Bool.true_or]
      simp only [filter_cons, onLeft, onBoth, apart a onLeft, if_true, Bool.false_eq_true, if_false]
      exact (congrArg (op (value a)) ih).trans (assoc _ _ _).symm
    | false =>
      cases onRight : right a with
      | true =>
        have onBoth : both a = true := by rw [covers, onRight, Bool.or_true]
        simp only [filter_cons, onLeft, onBoth, onRight, if_true, Bool.false_eq_true, if_false]
        calc op (value a) (summary op unit value (items.filter both))
            = op (value a) (op (summary op unit value (items.filter left))
                (summary op unit value (items.filter right))) := by rw [ih]
          _ = op (op (value a) (summary op unit value (items.filter left)))
                (summary op unit value (items.filter right)) := (assoc _ _ _).symm
          _ = op (op (summary op unit value (items.filter left)) (value a))
                (summary op unit value (items.filter right)) := by rw [comm (value a)]
          _ = op (summary op unit value (items.filter left))
                (op (value a) (summary op unit value (items.filter right))) := assoc _ _ _
      | false =>
        have onBoth : both a = false := by rw [covers, onLeft, onRight, Bool.false_or]
        simp only [filter_cons, onLeft, onBoth, onRight, Bool.false_eq_true, if_false]
        exact ih

lemma summary_concat [Std.Associative op] [Std.LawfulIdentity op unit] (items : List α) (a : α) :
    summary op unit value (items ++ [a]) = op (summary op unit value items) (value a) := by
  have assoc : ∀ a b c, op (op a b) c = op a (op b c) := Std.Associative.assoc
  have unitLeft : ∀ a, op unit a = a := Std.LawfulLeftIdentity.left_id
  have unitRight : ∀ a, op a unit = a := Std.LawfulRightIdentity.right_id
  induction items with
  | nil => exact (unitRight (value a)).trans (unitLeft (value a)).symm
  | cons b items ih => exact (congrArg (op (value b)) ih).trans (assoc _ _ _).symm

def Consistent (d : Nat) (nodes : Nat → F) : Prop :=
  ∀ n, 1 ≤ n → n < 2 ^ d → nodes n = op (nodes (2 * n)) (nodes (2 * n + 1))

def Summarises (d : Nat) (place : α → Nat) (value : α → F) (nodes : Nat → F) (items : List α) : Prop :=
  ∀ h n, AtHeight d h n → nodes n = summary op unit value (items.filter (fun a => decide (place a / 2 ^ h = n)))

variable {nodes : Nat → F}

lemma summarises_of_consistent [Std.Associative op] [Std.Commutative op] [Std.LawfulIdentity op unit]
    {place : α → Nat} {value : α → F} (consistent : Consistent op d nodes)
    (leaves : ∀ n, AtHeight d 0 n → nodes n = summary op unit value (items.filter (fun a => decide (place a = n)))) :
    Summarises op unit d place value nodes items := by
  intro h
  induction h with
  | zero =>
    intro n leaf
    simpa using leaves n leaf
  | succ h ih =>
    intro n inner
    have range := inner.inner
    rw [consistent n range.1 range.2, ih _ (inner.child (.inl rfl)), ih _ (inner.child (.inr rfl))]
    symm
    apply summary_filter_split
    · intro a
      have halves : place a / 2 ^ (h + 1) = place a / 2 ^ h / 2 := by rw [Nat.div_div_eq_div_mul, Nat.pow_succ]
      rw [halves, ← Bool.decide_or]
      apply decide_eq_decide.mpr
      omega
    · intro a here
      simp only [decide_eq_true_eq, decide_eq_false_iff_not] at here ⊢
      omega

def refresh : Nat → (Nat → F) → Nat → Nat → F
  | 0, nodes, _ => nodes
  | rounds + 1, nodes, idx =>
    if idx ≥ 1 then refresh rounds (update nodes idx (op (nodes (idx * 2)) (nodes (idx * 2 + 1)))) (idx / 2)
    else nodes

lemma refresh_spec (rounds : Nat) (nodes : Nat → F) (idx : Nat) (enough : idx ≤ rounds) :
    (∀ k, (∀ j, idx / 2 ^ j ≠ k) → refresh op rounds nodes idx k = nodes k) ∧
      ∀ j, 1 ≤ idx / 2 ^ j → refresh op rounds nodes idx (idx / 2 ^ j) =
        op (refresh op rounds nodes idx (2 * (idx / 2 ^ j))) (refresh op rounds nodes idx (2 * (idx / 2 ^ j) + 1)) := by
  induction rounds generalizing nodes idx with
  | zero =>
    have zero : idx = 0 := by omega
    subst zero
    refine ⟨fun _ _ => rfl, ?_⟩
    intro j pos
    rw [Nat.zero_div] at pos
    omega
  | succ rounds ih =>
    by_cases pos : idx ≥ 1
    · have rest := ih (update nodes idx (op (nodes (idx * 2)) (nodes (idx * 2 + 1)))) (idx / 2) (by omega)
      have halved (j : Nat) : idx / 2 ^ (j + 1) = idx / 2 / 2 ^ j := by
        rw [Nat.pow_succ, Nat.mul_comm, Nat.div_div_eq_div_mul]
      have above (k : Nat) (large : idx ≤ k) (j : Nat) : idx / 2 / 2 ^ j ≠ k := by
        have bound := div_le_self (idx / 2) (2 ^ j)
        omega
      rw [refresh, if_pos pos]
      constructor
      · intro k outside
        have self : k ≠ idx := fun same => outside 0 (by simp [same])
        rw [rest.1 k (fun j => by rw [← halved]; exact outside (j + 1)), update_of_ne self]
      · intro j inside
        cases j with
        | zero =>
          rw [Nat.pow_zero, Nat.div_one] at inside ⊢
          rw [rest.1 idx (above idx (Nat.le_refl idx)), rest.1 (2 * idx) (above _ (by omega)),
            rest.1 (2 * idx + 1) (above _ (by omega)), update_self, update_of_ne (by omega),
            update_of_ne (by omega), mul_comm]
        | succ j =>
          rw [halved] at inside ⊢
          exact rest.2 j inside
    · have zero : idx = 0 := by omega
      subst zero
      refine ⟨fun _ _ => rfl, ?_⟩
      intro j inside
      rw [Nat.zero_div] at inside
      omega

lemma refresh_consistent (consistent : Consistent op d nodes) (leaf : AtHeight d 0 idx) (value : F) :
    Consistent op d (refresh op (idx / 2) (update nodes idx value) (idx / 2)) ∧ ∀ n, AtHeight d 0 n →
        refresh op (idx / 2) (update nodes idx value) (idx / 2) n = update nodes idx value n := by
  obtain ⟨low, high⟩ := atHeight_leaf.mp leaf
  obtain ⟨kept, computed⟩ := refresh_spec op (idx / 2) (update nodes idx value) (idx / 2) le_rfl
  constructor
  · intro n pos inner
    by_cases ancestor : ∃ j, idx / 2 / 2 ^ j = n
    · obtain ⟨j, rfl⟩ := ancestor
      exact computed j pos
    · have outside (j : Nat) : idx / 2 / 2 ^ j ≠ n := fun same => ancestor ⟨j, same⟩
      have children (c : Nat) (side : c / 2 = n) :
          refresh op (idx / 2) (update nodes idx value) (idx / 2) c = nodes c := by
        have apart : c ≠ idx := by
          intro same
          apply outside 0
          rw [Nat.pow_zero, Nat.div_one, ← same, side]
        rw [kept c, update_of_ne apart]
        intro j same
        apply outside (j + 1)
        rw [Nat.pow_succ, ← Nat.div_div_eq_div_mul, same, side]
      rw [kept n outside, update_of_ne (by omega), children (2 * n) (by omega), children (2 * n + 1) (by omega)]
      exact consistent n pos inner
  · intro n lowest
    apply kept
    intro j same
    have bound := div_le_self (idx / 2) (2 ^ j)
    have range := atHeight_leaf.mp lowest
    omega

end Summaries

def reached (marked : Nat → Bool) : Nat → Nat → List Nat
  | 0, n => if marked n then [n] else []
  | h + 1, n => if marked n then reached marked h (2 * n) ++ reached marked h (2 * n + 1) else []

variable (marked : Nat → Bool)

lemma mem_reached (h n leaf : Nat) :
    leaf ∈ reached marked h n ↔ leaf / 2 ^ h = n ∧ ∀ j ≤ h, marked (leaf / 2 ^ j) = true := by
  induction h generalizing n with
  | zero =>
    simp only [reached, Nat.pow_zero, Nat.div_one, Nat.le_zero_eq, forall_eq]
    split
    next entered =>
      rw [mem_singleton]
      constructor
      · intro same
        rw [same]
        exact ⟨rfl, entered⟩
      · exact And.left
    next skipped =>
      simp only [not_mem_nil, false_iff, not_and]
      intro same
      rw [same]
      exact skipped
  | succ h ih =>
    have halves : leaf / 2 ^ (h + 1) = leaf / 2 ^ h / 2 := by rw [Nat.div_div_eq_div_mul, Nat.pow_succ]
    have upTo : (∀ j ≤ h + 1, marked (leaf / 2 ^ j) = true) ↔
        (∀ j ≤ h, marked (leaf / 2 ^ j) = true) ∧ marked (leaf / 2 ^ (h + 1)) = true := by
      constructor
      · intro all
        exact ⟨fun j bound => all j (by omega), all (h + 1) le_rfl⟩
      · intro both j bound
        rcases Nat.lt_or_ge h j with last | earlier
        · have here : j = h + 1 := by omega
          rw [here]
          exact both.2
        · exact both.1 j earlier
    have side : (leaf / 2 ^ h = 2 * n ∨ leaf / 2 ^ h = 2 * n + 1) ↔ leaf / 2 ^ (h + 1) = n := by omega
    rw [reached, upTo]
    split
    next entered =>
      rw [mem_append, ih, ih, ← or_and_right, side]
      constructor
      · intro found
        exact ⟨found.1, found.2, by rw [found.1]; exact entered⟩
      · intro found
        exact ⟨found.1, found.2.1⟩
    next skipped =>
      simp only [not_mem_nil, false_iff, not_and]
      intro same _
      rw [same]
      exact skipped

lemma reached_sorted (h n : Nat) : (reached marked h n).Pairwise (· < ·) := by
  induction h generalizing n with
  | zero =>
    rw [reached]
    split <;> simp
  | succ h ih =>
    rw [reached]
    split
    · rw [List.pairwise_append]
      refine ⟨ih _, ih _, ?_⟩
      intro a left b right
      have low := ((mem_reached marked h _ a).mp left).1
      have high := ((mem_reached marked h _ b).mp right).1
      exact lt_of_div_lt_div (c := 2 ^ h) (by omega)
    · exact List.Pairwise.nil

lemma reached_unmarked {marked : Nat → Bool} {n : Nat} (skipped : marked n = false) (h : Nat) :
    reached marked h n = [] := by
  cases h <;> simp [reached, skipped]

def treeSize : Nat → Nat
  | 0 => 1
  | h + 1 => 2 * treeSize h + 1

lemma treeSize_lt (h : Nat) : treeSize h < 2 ^ (h + 1) := by
  induction h with
  | zero => decide
  | succ h ih =>
    rw [treeSize, pow_succ]
    omega

lemma length_reached (h n : Nat) : (reached marked h n).length ≤ 2 ^ h := by
  induction h generalizing n with
  | zero =>
    rw [reached]
    split <;> simp
  | succ h ih =>
    rw [reached, pow_succ]
    split
    · have left := ih (2 * n)
      have right := ih (2 * n + 1)
      rw [length_append]
      omega
    · exact zero_le _

end LibOp.Foundation

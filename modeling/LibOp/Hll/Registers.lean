import Mathlib

namespace LibOp.Hll

open Nat

/-- The zeros above the highest set bit among the lowest `bits` bits. -/
def leadingZeros : (bits : Nat) → Nat → Nat
  | 0, _ => 0
  | bits + 1, v => if v.testBit bits then 0 else leadingZeros bits v + 1

/-- `__builtin_clzll`, and 64 for 0. -/
def clz64 (v : Nat) : Nat := leadingZeros 64 v

@[ext] structure Sketch where
  b : Nat
  regs : Nat → Nat

def opHllCreate (b : Int) : Sketch :=
  let b := if b < 4 then 4 else b
  let b := if b > 16 then 16 else b
  { b := b.toNat, regs := fun _ => 0 }

def opHllAddHash (hll : Sketch) (h : UInt64) : Sketch :=
  let idx := h.toNat >>> (64 - hll.b)
  let rest := h.toNat <<< hll.b % 2 ^ 64
  let lz := clz64 rest
  let maxRho := 64 - hll.b + 1
  let rho := (if lz < maxRho then lz + 1 else maxRho) % 2 ^ 8
  if rho > hll.regs idx then { hll with regs := Function.update hll.regs idx rho } else hll

def opHllMerge (dst src : Sketch) : Sketch :=
  if dst.b ≠ src.b then dst
  else { dst with regs := fun i => if i < 2 ^ dst.b ∧ src.regs i > dst.regs i then src.regs i else dst.regs i }

def sketch (b : Int) (hashes : List UInt64) : Sketch := hashes.foldl opHllAddHash (opHllCreate b)

/-- 1 more than the leading zeros behind the index. -/
def rank (b : Nat) (h : UInt64) : Nat := leadingZeros (64 - b) h.toNat + 1

def largest (b : Nat) (hashes : List UInt64) (i : Nat) : Nat :=
  (hashes.toFinset.filter fun h => h.toNat >>> (64 - b) = i).sup (rank b)

variable {n b v w : Nat}

lemma leadingZeros_of_zeros (zeros : ∀ i < n, v.testBit i = false) : leadingZeros n v = n := by
  induction n with
  | zero => rfl
  | succ n ih =>
    rw [leadingZeros, zeros n (lt_succ_self n), ih fun i below => zeros i (lt_succ_of_lt below)]
    rfl

lemma leadingZeros_shifted (copied : ∀ i < n, v.testBit (i + b) = w.testBit i) (zeros : ∀ i < b, v.testBit i = false) :
    leadingZeros n w ≤ n ∧
      leadingZeros (n + b) v = if leadingZeros n w < n then leadingZeros n w else n + b := by
  induction n with
  | zero => exact ⟨le_refl 0, by rw [zero_add, leadingZeros_of_zeros zeros, if_neg (not_lt_zero _)]⟩
  | succ n ih =>
    obtain ⟨most, count⟩ := ih fun i below => copied i (lt_succ_of_lt below)
    rw [succ_add, leadingZeros, leadingZeros, copied n (lt_succ_self n), count]
    split_ifs <;> omega

lemma rho_eq (low : 4 ≤ b) (high : b ≤ 16) (h : UInt64) : let lz := clz64 (h.toNat <<< b % 2 ^ 64)
    (if lz < 64 - b + 1 then lz + 1 else 64 - b + 1) % 2 ^ 8 = rank b h := by
  have bits (i : Nat) (below : i < 64) :
      (h.toNat <<< b % 2 ^ 64).testBit i = (decide (b ≤ i) && h.toNat.testBit (i - b)) := by
    rw [testBit_mod_two_pow, decide_eq_true below, testBit_shiftLeft, Bool.true_and]
  obtain ⟨most, shifted⟩ := leadingZeros_shifted (n := 64 - b) (b := b) (w := h.toNat)
    (fun i below => by rw [bits _ (by omega), decide_eq_true (Nat.le_add_left _ _), Nat.add_sub_cancel, Bool.true_and])
    fun i below => by rw [bits i (by omega), decide_eq_false (by omega), Bool.false_and]
  rw [Nat.sub_add_cancel (by omega)] at shifted
  dsimp only
  rw [clz64, shifted, rank]
  split_ifs <;> omega

variable {hll : Sketch}

lemma opHllAddHash_regs (low : 4 ≤ hll.b) (high : hll.b ≤ 16) (h : UInt64) :
    (opHllAddHash hll h).b = hll.b ∧ ∀ i, (opHllAddHash hll h).regs i =
      max (hll.regs i) (if h.toNat >>> (64 - hll.b) = i then rank hll.b h else 0) := by
  have rho := rho_eq low high h
  unfold opHllAddHash
  dsimp only at rho ⊢
  rw [rho]
  split
  next larger => exact ⟨rfl, fun i => by grind [Function.update_apply]⟩
  next smaller => exact ⟨rfl, fun i => by grind⟩

lemma foldl_regs (low : 4 ≤ hll.b) (high : hll.b ≤ 16) (hashes : List UInt64) :
    (hashes.foldl opHllAddHash hll).b = hll.b ∧
      ∀ i, (hashes.foldl opHllAddHash hll).regs i = max (hll.regs i) (largest hll.b hashes i) := by
  induction hashes generalizing hll with
  | nil => exact ⟨rfl, fun i => (max_zero _).symm⟩
  | cons h rest ih =>
    obtain ⟨same, regs⟩ := opHllAddHash_regs low high h
    obtain ⟨sames, rests⟩ := ih (by rw [same]; exact low) (by rw [same]; exact high)
    apply And.intro (sames.trans same)
    intro i
    rw [List.foldl_cons, rests, regs, same, max_assoc, largest, largest, List.toFinset_cons, Finset.filter_insert]
    split
    · rw [Finset.sup_insert]
    · rw [zero_max]

lemma opHllCreate_b (b : Int) : 4 ≤ (opHllCreate b).b ∧ (opHllCreate b).b ≤ 16 := by
  unfold opHllCreate
  dsimp only
  split_ifs <;> omega

lemma sketch_eq (b : Int) (hashes : List UInt64) :
    sketch b hashes = ⟨(opHllCreate b).b, largest (opHllCreate b).b hashes⟩ := by
  obtain ⟨low, high⟩ := opHllCreate_b b
  obtain ⟨same, regs⟩ := foldl_regs low high hashes
  exact Sketch.ext same (funext fun i => (regs i).trans (zero_max _))

lemma largest_outside (high : b ≤ 16) (hashes : List UInt64) (outside : 2 ^ b ≤ i) : largest b hashes i = 0 := by
  rw [largest, Finset.filter_false_of_mem, Finset.sup_empty]
  · rfl
  intro h _ index
  rw [shiftRight_eq_div_pow] at index
  have below : h.toNat / 2 ^ (64 - b) < 2 ^ b := by
    apply Nat.div_lt_of_lt_mul
    rw [← Nat.pow_add, Nat.sub_add_cancel (by omega)]
    exact h.toNat_lt
  omega

/-- A sketch depends on the set of its hashes, and a merge is the sketch of both. -/
theorem hll_sketch_of_set (b : Int) (first second : List UInt64) :
    sketch b first = ⟨(opHllCreate b).b, largest (opHllCreate b).b first⟩ ∧
      ((∀ h, h ∈ first ↔ h ∈ second) → sketch b first = sketch b second) ∧
      opHllMerge (sketch b first) (sketch b second) = sketch b (first ++ second) := by
  rw [sketch_eq, sketch_eq, sketch_eq]
  apply And.intro rfl
  apply And.intro
  · intro same
    unfold largest
    rw [show first.toFinset = second.toFinset by ext h; simp [same]]
  · rw [opHllMerge, if_neg (fun differs => differs rfl)]
    congr 1
    funext i
    have outside := largest_outside (opHllCreate_b b).2 second (i := i)
    have both : largest (opHllCreate b).b (first ++ second) i =
        max (largest (opHllCreate b).b first i) (largest (opHllCreate b).b second i) := by
      rw [largest, List.toFinset_append, Finset.filter_union, Finset.sup_union]
      rfl
    rw [both]
    dsimp only
    split_ifs <;> omega

end LibOp.Hll

import LibOp.Merkle.Tree

namespace LibOp.Merkle

open Foundation List

variable (depth : Nat) (a b : MerkleTree)

def differs (n : Nat) : Bool := !merkleNodeEqual a b n

/-- The stack with heights: all nodes differ, and each leaves room for the two children of each level below. -/
def Pending : List (Nat × Nat) → Prop
  | [] => True
  | (n, h) :: rest =>
    AtHeight depth h n ∧ differs a b n = true ∧ rest.length + h ≤ depth ∧ Pending rest

def work : List (Nat × Nat) → Nat
  | [] => 0
  | (_, h) :: rest => treeSize h + work rest

def enter (h n : Nat) (pending : List (Nat × Nat)) : List (Nat × Nat) :=
  if differs a b n then (n, h) :: pending else pending

def below (pending : List (Nat × Nat)) : List Nat := pending.flatMap (fun p => reached (differs a b) p.2 p.1)

variable {depth a b}

lemma length_enter_le (h n : Nat) (pending : List (Nat × Nat)) :
    (enter a b h n pending).length ≤ pending.length + 1 := by
  unfold enter
  split
  · exact le_rfl
  · exact Nat.le_succ _

variable {n : Nat} {pending : List (Nat × Nat)}

lemma enter_pending (node : AtHeight depth h n) (room : pending.length + h ≤ depth)
    (rest : Pending depth a b pending) : Pending depth a b (enter a b h n pending) := by
  unfold enter
  split
  next marked => exact ⟨node, marked, room, rest⟩
  · exact rest

lemma work_enter_le (h n : Nat) (pending : List (Nat × Nat)) :
    work (enter a b h n pending) ≤ treeSize h + work pending := by
  unfold enter
  split
  · exact le_rfl
  · exact Nat.le_add_left _ _

lemma below_enter (h n : Nat) (pending : List (Nat × Nat)) :
    below a b (enter a b h n pending) = reached (differs a b) h n ++ below a b pending := by
  unfold enter
  split
  · rfl
  next same => rw [reached_unmarked (Bool.eq_false_iff.mpr same), nil_append]

lemma merklePush_eq (h n : Nat) (room : pending.length < merkleLeaves depth) :
    merklePush depth a b (pending.map Prod.fst) n = some ((enter a b h n pending).map Prod.fst) := by
  unfold merklePush enter differs
  cases merkleNodeEqual a b n <;> simp [room]

lemma diffLoop_leaf (rounds : Nat) (stack : List Nat) {found : List Nat}
    (space : found.length < maxDiff) (leaf : merkleLeaves depth ≤ n) (marked : differs a b n = true) :
    merkleDiffLoop depth a b maxDiff (rounds + 1) (n :: stack) found =
      merkleDiffLoop depth a b maxDiff rounds stack (found ++ [n - merkleLeaves depth]) := by
  have unequal : merkleNodeEqual a b n = false := by simpa [differs] using marked
  simp only [merkleDiffLoop, if_pos space, if_pos leaf, unequal, Bool.false_eq_true, if_false]

lemma diffLoop_inner (rounds h : Nat) {found : List Nat} (space : found.length < maxDiff)
    (inner : n < merkleLeaves depth) (room : pending.length + 1 < merkleLeaves depth) :
    merkleDiffLoop depth a b maxDiff (rounds + 1) (n :: pending.map Prod.fst) found =
      merkleDiffLoop depth a b maxDiff rounds
        ((enter a b h (2 * n) (enter a b h (2 * n + 1) pending)).map Prod.fst) found := by
  have grown := length_enter_le (a := a) (b := b) h (2 * n + 1) pending
  rw [merkleDiffLoop, if_pos space, if_neg (Nat.not_le_of_lt inner), Nat.mul_comm n 2, merklePush_eq h _ (by omega),
    Option.bind_eq_bind, Option.bind_some, merklePush_eq h _ (by omega), Option.bind_some]

lemma below_leaf (rest : List (Nat × Nat)) (marked : differs a b n = true) :
    below a b ((n, 0) :: rest) = n :: below a b rest := by
  simp [below, reached, marked]

lemma below_inner (h : Nat) (rest : List (Nat × Nat)) (marked : differs a b n = true) :
    below a b ((n, h + 1) :: rest) = below a b (enter a b h (2 * n) (enter a b h (2 * n + 1) rest)) := by
  rw [below_enter, below_enter, ← append_assoc]
  simp [below, reached, marked]

lemma merkleDiffLoop_eq (maxDiff rounds : Nat) (pending : List (Nat × Nat)) (found : List Nat)
    (stacked : Pending depth a b pending) (enough : work pending < rounds) (few : found.length ≤ maxDiff) :
    merkleDiffLoop depth a b maxDiff rounds (pending.map Prod.fst) found =
      some ((found ++ (below a b pending).map (· - merkleLeaves depth)).take maxDiff) := by
  induction rounds generalizing pending found with
  | zero => omega
  | succ rounds ih =>
    cases pending with
    | nil => simp [merkleDiffLoop, below, take_of_length_le few]
    | cons top rest =>
      obtain ⟨n, h⟩ := top
      obtain ⟨node, marked, room, others⟩ := stacked
      have size : work ((n, h) :: rest) = treeSize h + work rest := rfl
      by_cases space : found.length < maxDiff
      · cases h with
        | zero =>
          have pos : treeSize 0 = 1 := rfl
          rw [map_cons, diffLoop_leaf rounds _ space (atHeight_leaf.mp node).1 marked,
            ih rest _ others (by omega) (by rw [length_append]; exact space), below_leaf rest marked]
          simp
        | succ h =>
          have shallow : depth < merkleLeaves depth := Nat.lt_two_pow_self
          have cost : treeSize (h + 1) = 2 * treeSize h + 1 := rfl
          have grown := length_enter_le (a := a) (b := b) h (2 * n + 1) rest
          have costRight := work_enter_le (a := a) (b := b) h (2 * n + 1) rest
          have costLeft := work_enter_le (a := a) (b := b) h (2 * n) (enter a b h (2 * n + 1) rest)
          have right := enter_pending (node.child (.inr rfl)) (by omega) others
          have both := enter_pending (node.child (.inl rfl)) (by omega) right
          rw [map_cons, diffLoop_inner rounds h space node.inner.2 (by omega), ih _ found both (by omega) few,
            below_inner h rest marked]
      · have full : found.length = maxDiff := by omega
        rw [map_cons, merkleDiffLoop, if_neg space, ← full, take_left]

lemma merkleDiff_eq (maxDiff : Nat) : merkleDiff depth a b maxDiff =
      some (((reached (differs a b) depth 1).map (· - merkleLeaves depth)).take maxDiff) := by
  unfold merkleDiff
  split
  next equal =>
    rw [reached_unmarked (by simp [differs, equal])]
    simp
  next unequal =>
    have marked : differs a b 1 = true := by simpa [differs] using unequal
    have size : treeSize depth < 2 * merkleLeaves depth := by
      have bound := treeSize_lt depth
      unfold merkleLeaves
      omega
    have start : Pending depth a b [(1, depth)] := ⟨atHeight_root depth, marked, by simp, trivial⟩
    have loop := merkleDiffLoop_eq maxDiff (2 * merkleLeaves depth) [(1, depth)] [] start size (Nat.zero_le _)
    simpa [below] using loop

end LibOp.Merkle

import LibOp.Merkle.Descent

namespace LibOp.Merkle

open Foundation Nat List

section Fingerprints

variable (depth : Nat) (tsMin tsMax : UInt64)

def eventPlace (e : MerkleEvent) : Nat := merkleLeaves depth + merkleLeafIndex depth tsMin tsMax e.ts

lemma eventPlace_leaf (e : MerkleEvent) : AtHeight depth 0 (eventPlace depth tsMin tsMax e) := by
  have bound := merkleLeafIndex_lt depth tsMin tsMax e.ts
  rw [atHeight_leaf, pow_succ]
  unfold eventPlace merkleLeaves at *
  omega

/-- The fingerprint of the events in the block of `2 ^ height` leaves of `leaf`. -/
def blockXor (events : List MerkleEvent) (height leaf : Nat) : Fingerprint :=
  summary merkleXor noFingerprint MerkleEvent.id
    (events.filter (fun e => decide (merkleLeafIndex depth tsMin tsMax e.ts / 2 ^ height = leaf / 2 ^ height)))

lemma merkleInsert_nodes (m : MerkleTree) (e : MerkleEvent) : (merkleInsert depth m e.ts e.id).nodes =
      refresh merkleXor (eventPlace depth m.tsMin m.tsMax e / 2)
        (Function.update m.nodes (eventPlace depth m.tsMin m.tsMax e)
          (merkleXor (m.nodes (eventPlace depth m.tsMin m.tsMax e)) e.id))
        (eventPlace depth m.tsMin m.tsMax e / 2) := rfl

variable (events : List MerkleEvent)

lemma merkleBuild_window :
    (merkleBuild depth tsMin tsMax events).tsMin = tsMin ∧ (merkleBuild depth tsMin tsMax events).tsMax = tsMax := by
  apply foldlRecOn (motive := fun m : MerkleTree => m.tsMin = tsMin ∧ m.tsMax = tsMax)
  · exact ⟨rfl, rfl⟩
  · intro m window e _
    exact window

lemma merkleBuild_concat (e : MerkleEvent) : merkleBuild depth tsMin tsMax (events ++ [e]) =
      merkleInsert depth (merkleBuild depth tsMin tsMax events) e.ts e.id := by
  unfold merkleBuild
  rw [foldl_append]
  rfl

lemma merkleBuild_nodes : Consistent merkleXor depth (merkleBuild depth tsMin tsMax events).nodes ∧
      ∀ n, AtHeight depth 0 n → (merkleBuild depth tsMin tsMax events).nodes n =
        summary merkleXor noFingerprint MerkleEvent.id
          (events.filter (fun e => decide (eventPlace depth tsMin tsMax e = n))) := by
  induction events using reverseRecOn with
  | nil =>
    constructor
    · intro n _ _
      exact (noFingerprint_xor noFingerprint).symm
    · intro n _
      rfl
  | append_singleton events e ih =>
    obtain ⟨consistent, leaves⟩ := ih
    obtain ⟨low, high⟩ := merkleBuild_window depth tsMin tsMax events
    have place := eventPlace_leaf depth tsMin tsMax e
    have refreshed := refresh_consistent merkleXor consistent place
      (merkleXor ((merkleBuild depth tsMin tsMax events).nodes (eventPlace depth tsMin tsMax e)) e.id)
    rw [merkleBuild_concat, merkleInsert_nodes, low, high]
    refine ⟨refreshed.1, ?_⟩
    intro n leaf
    rw [refreshed.2 n leaf, filter_append]
    by_cases here : eventPlace depth tsMin tsMax e = n
    · subst here
      simp only [Function.update_self, filter_cons, decide_true, if_true, filter_nil]
      rw [summary_concat, leaves _ place]
    · rw [Function.update_of_ne (fun same => here same.symm), leaves n leaf]
      simp [here]

lemma merkleBuild_summarises : Summarises merkleXor noFingerprint depth (eventPlace depth tsMin tsMax) MerkleEvent.id
      (merkleBuild depth tsMin tsMax events).nodes events := by
  obtain ⟨consistent, leaves⟩ := merkleBuild_nodes depth tsMin tsMax events
  exact summarises_of_consistent merkleXor noFingerprint consistent leaves

lemma place_div {height : Nat} (bound : height ≤ depth) (leaf : Nat) :
    (merkleLeaves depth + leaf) / 2 ^ height = 2 ^ (depth - height) + leaf / 2 ^ height := by
  have split : merkleLeaves depth = 2 ^ height * 2 ^ (depth - height) := by
    rw [← Nat.pow_add, Nat.add_sub_cancel' bound]
    rfl
  rw [split, Nat.mul_add_div (Nat.two_pow_pos height)]

lemma node_eq_blockXor {height leaf : Nat} (bound : height ≤ depth) (inside : leaf < merkleLeaves depth) :
    (merkleBuild depth tsMin tsMax events).nodes ((merkleLeaves depth + leaf) / 2 ^ height) =
      blockXor depth tsMin tsMax events height leaf := by
  have node : AtHeight depth height ((merkleLeaves depth + leaf) / 2 ^ height) := by
    refine ⟨depth - height, by omega, ?_, ?_⟩
    · rw [place_div depth bound]
      exact le_add_right _ _
    · rw [Nat.div_lt_iff_lt_mul (Nat.two_pow_pos height), ← Nat.pow_add,
        show depth - height + 1 + height = depth + 1 by omega, pow_succ]
      unfold merkleLeaves at *
      omega
  rw [merkleBuild_summarises depth tsMin tsMax events height _ node, blockXor]
  congr 2
  funext e
  apply decide_eq_decide.mpr
  rw [eventPlace, place_div depth bound, place_div depth bound]
  exact add_left_cancel_iff

end Fingerprints

variable {depth : Nat} {leaf : Nat}

lemma path_root (inside : leaf < merkleLeaves depth) : (merkleLeaves depth + leaf) / 2 ^ depth = 1 := by
  have top : leaf / 2 ^ depth = 0 := Nat.div_eq_of_lt inside
  rw [place_div depth (Nat.le_refl depth), Nat.sub_self, top, Nat.pow_zero]

lemma leaf_reached_iff (marked : Nat → Bool) (inside : leaf < merkleLeaves depth) :
    leaf ∈ (reached marked depth 1).map (· - merkleLeaves depth) ↔
      ∀ height ≤ depth, marked ((merkleLeaves depth + leaf) / 2 ^ height) = true := by
  rw [mem_map]
  constructor
  · intro found
    obtain ⟨node, mem, rfl⟩ := found
    obtain ⟨top, all⟩ := (mem_reached marked depth 1 node).mp mem
    have low : merkleLeaves depth ≤ node := by
      have product := div_mul_le_self node (2 ^ depth)
      rw [top, one_mul] at product
      exact product
    rw [Nat.add_sub_cancel' low]
    exact all
  · intro all
    have mem := (mem_reached marked depth 1 _).mpr ⟨path_root inside, all⟩
    exact ⟨merkleLeaves depth + leaf, mem, Nat.add_sub_cancel_left _ _⟩

variable (depth) in
def merkleLeaf (m : MerkleTree) (leaf : Nat) : Fingerprint := m.nodes (merkleLeaves depth + leaf)

variable (depth) in
def ShowsDifferences (a b : MerkleTree) (maxDiff : Nat) : Prop :=
  (∃ found, merkleDiff depth a b maxDiff = some found ∧
      ∀ leaf < merkleLeaves depth, merkleLeaf depth a leaf ≠ merkleLeaf depth b leaf → leaf ∈ found) ∧
    (merkleRootEqual a b = true → ∀ leaf < merkleLeaves depth, merkleLeaf depth a leaf = merkleLeaf depth b leaf)

lemma merkleDiff_found (large : merkleLeaves depth ≤ maxDiff) :
    merkleDiff depth a b maxDiff = some ((reached (differs a b) depth 1).map (· - merkleLeaves depth)) := by
  have few := length_reached (differs a b) depth 1
  rw [merkleDiff_eq, take_of_length_le]
  rw [length_map]
  exact Nat.le_trans few large

lemma differs_iff (a b : MerkleTree) (n : Nat) : differs a b n = true ↔ a.nodes n ≠ b.nodes n := by
  simp [differs, merkleNodeEqual]

lemma showsDifferences_iff (large : merkleLeaves depth ≤ maxDiff) : ShowsDifferences depth a b maxDiff ↔
      ∀ leaf < merkleLeaves depth, merkleLeaf depth a leaf ≠ merkleLeaf depth b leaf →
        ∀ height ≤ depth, a.nodes ((merkleLeaves depth + leaf) / 2 ^ height) ≠
          b.nodes ((merkleLeaves depth + leaf) / 2 ^ height) := by
  unfold ShowsDifferences
  rw [merkleDiff_found large]
  constructor
  · intro shown leaf inside unequal
    obtain ⟨⟨found, same, complete⟩, _⟩ := shown
    cases same
    have mem := (leaf_reached_iff _ inside).mp (complete leaf inside unequal)
    intro height bound
    exact (differs_iff a b _).mp (mem height bound)
  · intro visible
    constructor
    · refine ⟨_, rfl, ?_⟩
      intro leaf inside unequal
      rw [leaf_reached_iff _ inside]
      intro height bound
      exact (differs_iff a b _).mpr (visible leaf inside unequal height bound)
    · intro rootsEqual leaf inside
      by_contra unequal
      have top := visible leaf inside unequal depth (Nat.le_refl depth)
      rw [path_root inside] at top
      exact top (of_decide_eq_true rootsEqual)

theorem merkle_diff_complete_iff (depth : Nat) (tsMin tsMax : UInt64) (localEvents remoteEvents : List MerkleEvent)
    (maxDiff : Nat) (large : merkleLeaves depth ≤ maxDiff) :
    ShowsDifferences depth (merkleBuild depth tsMin tsMax localEvents) (merkleBuild depth tsMin tsMax remoteEvents)
        maxDiff ↔
      ∀ leaf < merkleLeaves depth,
        blockXor depth tsMin tsMax localEvents 0 leaf ≠ blockXor depth tsMin tsMax remoteEvents 0 leaf →
        ∀ height ≤ depth,
          blockXor depth tsMin tsMax localEvents height leaf ≠ blockXor depth tsMin tsMax remoteEvents height leaf := by
  rw [showsDifferences_iff large]
  apply forall₂_congr
  intro leaf inside
  have lowest (events : List MerkleEvent) : merkleLeaf depth (merkleBuild depth tsMin tsMax events) leaf =
      blockXor depth tsMin tsMax events 0 leaf := by
    rw [← node_eq_blockXor depth tsMin tsMax events (Nat.zero_le depth) inside, Nat.pow_zero, Nat.div_one]
    rfl
  rw [lowest, lowest]
  apply imp_congr_right
  intro _
  apply forall₂_congr
  intro height bound
  rw [node_eq_blockXor depth tsMin tsMax _ bound inside, node_eq_blockXor depth tsMin tsMax _ bound inside]

def eventAt (ts : UInt64) (byte : UInt8) : MerkleEvent := ⟨ts, Vector.replicate 16 byte⟩

theorem merkle_diff_complete_shared :
    ShowsDifferences 10 (merkleBuild 10 0 1024 [eventAt 7 1, eventAt 9 2]) (merkleBuild 10 0 1024 [eventAt 7 1]) 1024 ↔
      ∀ leaf < merkleLeaves 10,
        blockXor 10 0 1024 [eventAt 7 1, eventAt 9 2] 0 leaf ≠ blockXor 10 0 1024 [eventAt 7 1] 0 leaf → ∀ height ≤ 10,
          blockXor 10 0 1024 [eventAt 7 1, eventAt 9 2] height leaf ≠ blockXor 10 0 1024 [eventAt 7 1] height leaf :=
  merkle_diff_complete_iff 10 0 1024 [eventAt 7 1, eventAt 9 2] [eventAt 7 1] 1024 (Nat.le_refl 1024)

/-- Three ids whose XOR is zero, two of them in the first leaf and one in the second. -/
theorem sibling_leaves_cancel :
    merkleRootEqual (merkleBuild 10 0 1024 [eventAt 0 1, eventAt 0 2, eventAt 1 3]) (merkleBuild 10 0 1024 []) = true ∧
      merkleDiff 10 (merkleBuild 10 0 1024 [eventAt 0 1, eventAt 0 2, eventAt 1 3]) (merkleBuild 10 0 1024 []) 1024 =
        some [] ∧
      merkleLeaf 10 (merkleBuild 10 0 1024 [eventAt 0 1, eventAt 0 2, eventAt 1 3]) 0 ≠
        merkleLeaf 10 (merkleBuild 10 0 1024 []) 0 := by
  decide +kernel

end LibOp.Merkle

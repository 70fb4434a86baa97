import LibOp.Rbt.Refinement

namespace LibOp.Rbt

open Foundation

variable {P : Type} {cmp : P → P → Int}

def StrictSearchTree (cmp : P → P → Int) : RbtNode P → Prop
  | .nil => True
  | .node _ l e _ r =>
    (∀ u ∈ l.toList, cmp u.key e.key < 0) ∧ (∀ w ∈ r.toList, cmp e.key w.key < 0) ∧
      StrictSearchTree cmp l ∧ StrictSearchTree cmp r

structure LlrbInvariants (cmp : P → P → Int) (t : OpRbt P) : Prop where
  searchTree : StrictSearchTree cmp t.root
  rootBlack : t.root.isRed = false
  noRedPair : t.root.Everywhere fun h => h.isRed = true → h.left.isRed = false ∧ h.right.isRed = false
  rightBlack : t.root.Everywhere fun h => h.right.isRed = false
  blackBalance : ∃ n, ∀ k ∈ t.root.blackCounts, k = n
  size : opRbtSize t = t.root.size

lemma strictSearchTree_of_ascending (h : RbtNode P) (asc : Ascending cmp h.toList) : StrictSearchTree cmp h := by
  induction h with
  | nil => exact trivial
  | node c l e m r left right =>
    obtain ⟨below, rest, across⟩ := List.pairwise_append.mp asc
    obtain ⟨above, after⟩ := List.pairwise_cons.mp rest
    exact ⟨fun u mem => across u mem e List.mem_cons_self, above, left below, right after⟩

lemma Represents.invariants (rep : Represents cmp t l) : LlrbInvariants cmp t := by
  obtain ⟨-, rfl, asc, ⟨n, balanced⟩, size⟩ := rep
  apply LlrbInvariants.mk
  · exact strictSearchTree_of_ascending t.root asc
  · exact balanced.not_red
  · exact balanced.no_red_pair
  · exact balanced.right_black
  · exact ⟨n, balanced.blackCounts_eq⟩
  · rw [opRbtSize, size, LlrbTree.size_eq_length]

variable [Inhabited P]

/-- No step fails, so no rotation or colour flip follows a null child. -/
theorem llrb_invariants_hold (laws : TotalPreorder cmp) (ops : List (RbtOp P)) :
    ∃ t replies, runReplies rbtStep (opRbtCreate cmp) ops = some (t, replies) ∧ LlrbInvariants cmp t := by
  obtain ⟨t, ran, rep⟩ := run_represents laws ops
  exact ⟨t, _, ran, rep.invariants⟩

theorem llrb_invariants_hold_addresses : ∃ t replies, runReplies rbtStep (opRbtCreate opRbtCmpPtr)
        [.set 4 40, .set 2 20, .set 6 60, .set 1 10, .del 4, .del 9, .set 2 21] = some (t, replies) ∧
      LlrbInvariants opRbtCmpPtr t :=
  llrb_invariants_hold opRbtCmpPtr_totalPreorder _

end LibOp.Rbt

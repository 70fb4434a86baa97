import LibOp.Rbt.Refinement

namespace LibOp.Rbt

open Foundation List LlrbTree

variable {P σ : Type} {cmp : P → P → Int}

section

variable (h : RbtNode P)

lemma lookup_eq_assocFind (sorted : SortedFor (fun e => cmp key e.key) h.toList) :
    lookup cmp key h = assocFind cmp key h.toList := by
  induction h with
  | nil => rfl
  | node c l e m r left right =>
    obtain ⟨sortedLeft, sortedRight, below, above⟩ := SortedFor.parts sorted
    simp only [assocFind] at left right ⊢
    rw [lookup, toList_node, find?_append]
    split
    next less =>
      have absent : (e :: r.toList).find? (fun u => cmp key u.key = 0) = none := by
        apply find_eq_none_of_ne
        exact List.forall_mem_cons.mpr
          ⟨Int.ne_of_lt less, fun u later => Int.ne_of_lt (above (Int.le_of_lt less) u later)⟩
      rw [absent, Option.or_none, left sortedLeft]
    next notLess =>
      have absent : l.toList.find? (fun u => cmp key u.key = 0) = none :=
        find_eq_none_of_ne fun u mem => Int.ne_of_gt (below (Int.not_lt.mp notLess) u mem)
      rw [absent, Option.none_or]
      split
      next greater => rw [find?_cons_of_neg (by simpa using Int.ne_of_gt greater), right sortedRight]
      next notGreater => rw [find?_cons_of_pos (by simpa using (by omega : cmp key e.key = 0))]

lemma treeMax_eq_getLast : treeMax h = h.toList.getLast? := by
  induction h with
  | nil => rfl
  | node c l e m r _ right =>
    rw [treeMax, toList_node, getLast?_append, getLast?_cons]
    split
    next empty => simp [(isNil_iff_toList r).mp empty]
    next ne =>
      rw [right]
      cases last : r.toList.getLast? with
      | none => exact absurd ((isNil_iff_toList r).mpr (List.getLast?_eq_none_iff.mp last)) ne
      | some e' => rfl

lemma bestKey_eq_find (best : P) (upward : h.toList.Pairwise fun a b => accept a.key = true → accept b.key = true) :
    bestKey accept best h = ((h.toList.find? fun e => accept e.key).map RbtEntry.key).getD best := by
  induction h generalizing best with
  | nil => rfl
  | node c l e m r left right =>
    obtain ⟨below, rest, across⟩ := List.pairwise_append.mp upward
    rw [bestKey, toList_node, find?_append]
    split
    next accepted =>
      rw [left e.key below, find?_cons_of_pos (p := fun e : RbtEntry P => accept e.key) accepted]
      cases l.toList.find? fun e => accept e.key <;> rfl
    next refused =>
      have absent : l.toList.find? (fun e => accept e.key) = none := by
        rw [find?_eq_none]
        intro u mem accepted
        exact refused (across u mem e mem_cons_self accepted)
      rw [right best (List.pairwise_cons.mp rest).2,
        find?_cons_of_neg (p := fun e : RbtEntry P => accept e.key) refused, absent, Option.none_or]

variable (fn : σ → P → P → σ × Bool)

lemma foreachR_eq_visitUntil (h : RbtNode P) (s : σ) :
    foreachR fn h s = visitUntil (fun s e => fn s e.key e.val) h.toList s := by
  induction h generalizing s with
  | nil => rfl
  | node c l e m r left right =>
    rw [foreachR, toList_node, visitUntil_append, left]
    cases visitUntil (fun s e => fn s e.key e.val) l.toList s with
    | mk s more =>
      cases more with
      | false => rfl
      | true =>
        simp only [visitUntil, right]
        cases fn s e.key e.val with
        | mk s more => cases more <;> rfl

lemma foreachRevR_eq_visitUntil (h : RbtNode P) (s : σ) :
    foreachRevR fn h s = visitUntil (fun s e => fn s e.key e.val) h.toList.reverse s := by
  induction h generalizing s with
  | nil => rfl
  | node c l e m r left right =>
    rw [foreachRevR, toList_node, reverse_append, reverse_cons, append_assoc, visitUntil_append, right]
    cases visitUntil (fun s e => fn s e.key e.val) r.toList.reverse s with
    | mk s more =>
      cases more with
      | false => rfl
      | true =>
        simp only [singleton_append, visitUntil, left]
        cases fn s e.key e.val with
        | mk s more => cases more <;> rfl

end

variable [Inhabited P]

structure AnswersAs (cmp : P → P → Int) (t : OpRbt P) (l : List (RbtEntry P)) : Prop where
  ascending : Ascending cmp l
  size : opRbtSize t = l.length
  get : ∀ key, opRbtGet t key = foundVal (assocFind cmp key l)
  has : ∀ key, opRbtHas t key = l.any fun e => cmp key e.key = 0
  minKey : opRbtMinKey t = foundKey l.head?
  maxKey : opRbtMaxKey t = foundKey l.getLast?
  lowerBound : ∀ key, opRbtLowerBound t key = foundKey (l.find? fun e => cmp key e.key ≤ 0)
  upperBound : ∀ key, opRbtUpperBound t key = foundKey (l.find? fun e => cmp key e.key < 0)
  foreach : ∀ {σ : Type} (fn : σ → P → P → σ × Bool) (s : σ),
    opRbtForeach t fn s = (visitUntil (fun s e => fn s e.key e.val) l s).1
  foreachRev : ∀ {σ : Type} (fn : σ → P → P → σ × Bool) (s : σ),
    opRbtForeachRev t fn s = (visitUntil (fun s e => fn s e.key e.val) l.reverse s).1

lemma Represents.answers (laws : TotalPreorder cmp) (rep : Represents cmp t l) : AnswersAs cmp t l := by
  obtain ⟨rfl, rfl, ascending, -, size⟩ := rep
  have found (key : P) : lookup t.cmp key t.root = assocFind t.cmp key t.root.toList :=
    lookup_eq_assocFind t.root (Ascending.sortedFor laws ascending key)
  apply AnswersAs.mk
  · exact ascending
  · exact size
  · intro key
    rw [opRbtGet, found]
  · intro key
    rw [opRbtHas, found, Bool.eq_iff_iff, assocFind, find?_isSome, any_eq_true]
  · rw [opRbtMinKey, treeMin_eq_head]
  · rw [opRbtMaxKey, treeMax_eq_getLast]
  · intro key
    apply bestKey_eq_find
    apply List.Pairwise.imp _ ascending
    intro a b less accepted
    rw [decide_eq_true_eq] at accepted ⊢
    exact laws.trans key a.key b.key accepted (Int.le_of_lt less)
  · intro key
    apply bestKey_eq_find
    apply List.Pairwise.imp _ ascending
    intro a b less accepted
    rw [decide_eq_true_eq] at accepted ⊢
    exact laws.lt_of_lt_of_le accepted (Int.le_of_lt less)
  · intro σ fn s
    rw [opRbtForeach, foreachR_eq_visitUntil]
  · intro σ fn s
    rw [opRbtForeachRev, foreachRevR_eq_visitUntil]

theorem rbt_is_ordered_map (laws : TotalPreorder cmp) (ops : List (RbtOp P)) :
    ∃ t, runReplies rbtStep (opRbtCreate cmp) ops = some (t, (specReplies (assocStep cmp) [] ops).2) ∧
      AnswersAs cmp t (specReplies (assocStep cmp) [] ops).1 := by
  obtain ⟨t, ran, rep⟩ := run_represents laws ops
  exact ⟨t, ran, rep.answers laws⟩

theorem rbt_is_ordered_map_addresses :
    ∃ t, runReplies rbtStep (opRbtCreate opRbtCmpPtr) [.set 4 40, .set 2 20, .set 4 41, .del 2, .del 9] =
        some (t, [.set 1 0, .set 1 0, .set 0 40, .del 20, .del 0]) ∧ AnswersAs opRbtCmpPtr t [⟨4, 41⟩] :=
  rbt_is_ordered_map opRbtCmpPtr_totalPreorder _

end LibOp.Rbt

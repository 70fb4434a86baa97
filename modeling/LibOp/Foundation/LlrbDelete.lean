import LibOp.Foundation.LlrbBalance

namespace LibOp.Foundation.LlrbTree

open List Option Colour Function

universe u

variable {α δ : Type u} {measure : Option δ → α → Option δ → δ} {n : Nat} {c : Colour} {l r t : LlrbTree α δ}
  {v : α} {m : δ}

inductive Ready : Colour → Nat → LlrbTree α δ → Prop
  | red {n : Nat} {t : LlrbTree α δ} : Balanced .red n t → Ready .red n t
  | black {n : Nat} {l r : LlrbTree α δ} {v : α} {m : δ} :
    Balanced .red n l → Balanced .black n r → Ready .black (n + 1) (node .black l v m r)

def Shrunk (c : Colour) (n : Nat) (t : LlrbTree α δ) : Prop :=
  ∃ c', Balanced c' n t ∧ (c = .black → c' = .black)

lemma Ready.shrunk (ready : Ready c n t) : Shrunk c n t := by
  cases ready with
  | red balanced => exact ⟨.red, balanced, noConfusion⟩
  | black left right => exact ⟨.black, .black left right, fun _ => rfl⟩

lemma Ready.of_red_left (balanced : Balanced .black (n + 1) t) (red : t.left.isRed = true) :
    Ready .black (n + 1) t := by
  obtain ⟨cl, l, v, m, r, rfl, left, right⟩ := balanced.eq_black
  cases cl with
  | red => exact .black left right
  | black => rw [left_node, left.not_red] at red; cases red

lemma Balanced.black_left (balanced : Balanced .black (n + 1) t) (low : t.left.isRed = false) :
    ∃ l v m r, t = node .black l v m r ∧ Balanced .black n l ∧ Balanced .black n r := by
  obtain ⟨cl, l, v, m, r, rfl, left, right⟩ := balanced.eq_black
  cases cl with
  | black => exact ⟨l, v, m, r, rfl, left, right⟩
  | red => rw [left_node, left.isRed_eq] at low; cases low

section Moves

variable (measure) (c) (v) (m)

lemma moveRedLeft_spec (left : Balanced .black (n + 1) l) (right : Balanced .black (n + 1) r)
    (low : l.left.isRed = false) :
    ∃ c' l' v' m' r', moveRedLeft measure (node c l v m r) = some (node c' l' v' m' r') ∧ v' ∈ v :: r.toList ∧
      ((c' = c.flip ∧ Balanced .red n l' ∧ Balanced .red n r') ∨
        (c' = c ∧ Ready .black (n + 1) l' ∧ Balanced .black (n + 1) r')) := by
  obtain ⟨ll, lv, lm, lr, rfl, leftLeft, leftRight⟩ := left.black_left low
  obtain ⟨cr, rl, rv, rm, rr, rfl, rightLeft, rightRight⟩ := right.eq_black
  cases cr with
  | black =>
    have calm := rightLeft.not_red
    refine ⟨c.flip, node .red ll lv lm lr, v, m, node .red rl rv rm rr, ?_, mem_cons_self, .inl ⟨rfl, ?_, ?_⟩⟩
    · simp [moveRedLeft, flipColours_node, calm]
    · exact .red leftLeft leftRight
    · exact .red rightLeft rightRight
  | red =>
    obtain ⟨a, b, d, e, rfl, first, second⟩ := rightLeft.eq_red
    have moved : ∃ m₁ m₂ m₃, moveRedLeft measure
        (node c (node .black ll lv lm lr) v m (node .black (node .red a b d e) rv rm rr)) =
          some (node c (node .black (node .red ll lv lm lr) v m₁ a) b m₂ (node .black e rv m₃ rr)) := by
      cases c <;> exact ⟨_, _, _, rfl⟩
    obtain ⟨m₁, m₂, m₃, moved⟩ := moved
    refine ⟨_, _, _, _, _, moved, ?_, .inr ⟨rfl, .black (.red leftLeft leftRight) first, .black second rightRight⟩⟩
    simp

lemma moveRedRight_spec (left : Balanced .black (n + 1) l) (right : Balanced .black (n + 1) r)
    (low : r.left.isRed = false) :
    (∃ l' r', moveRedRight measure (node c l v m r) = some (node c.flip l' v m r') ∧
        Balanced .red n l' ∧ Balanced .red n r') ∨
      ∃ l' v' m' rl m'' rr, moveRedRight measure (node c l v m r) = some (node c l' v' m' (node .black rl v m'' rr)) ∧
        Balanced .black (n + 1) l' ∧ Balanced .black n rl ∧ Balanced .red n rr ∧ v' ∈ l.toList := by
  obtain ⟨rl, rv, rm, rr, rfl, rightLeft, rightRight⟩ := right.black_left low
  obtain ⟨cl, ll, lv, lm, lr, rfl, leftLeft, leftRight⟩ := left.eq_black
  cases cl with
  | black =>
    have calm := leftLeft.not_red
    refine .inl ⟨node .red ll lv lm lr, node .red rl rv rm rr, ?_, .red leftLeft leftRight, .red rightLeft rightRight⟩
    simp [moveRedRight, flipColours_node, calm]
  | red =>
    obtain ⟨a, b, d, e, rfl, first, second⟩ := leftLeft.eq_red
    have moved : ∃ m₁ m₂, moveRedRight measure
        (node c (node .black (node .red a b d e) lv lm lr) v m (node .black rl rv rm rr)) =
          some (node c (node .black a b d e) lv m₁ (node .black lr v m₂ (node .red rl rv rm rr))) := by
      cases c <;> exact ⟨_, _, rfl⟩
    obtain ⟨m₁, m₂, moved⟩ := moved
    refine .inr ⟨_, _, _, _, _, _, moved, .black first second, leftRight, .red rightLeft rightRight, ?_⟩
    simp

lemma fixup_both_black (left : Balanced .black n l) (right : Balanced .black n r) :
    ∃ t, fixup measure (node .red l v m r) = some t ∧ Shrunk .red n t := by
  obtain ⟨c, _, _, _, _, fixed, low, high, black⟩ := fixup_red measure v m left right (.inl rfl)
  rw [black rfl rfl] at low
  exact ⟨_, fixed, .red, .red low high, noConfusion⟩

lemma fixup_flipped {cl cr : Colour} (left : Balanced cl n l) (right : Balanced cr n r) :
    ∃ t, fixup measure (node .black l v m r) = some t ∧ Shrunk .red (n + 1) t := by
  obtain ⟨t, c, fixed, balanced, -⟩ := fixup_black measure v m left right
  exact ⟨t, fixed, c, balanced, noConfusion⟩

lemma prepareLeft_spec (ready : Ready c k (node c l v m r)) (inside : l.isNil = false) :
    ∃ c' l' v' m' r' cl kl, prepareLeft measure (node c l v m r) = some (node c' l' v' m' r') ∧ v' ∈ v :: r.toList ∧
      Ready cl kl l' ∧ ∀ l'', Shrunk cl kl l'' → ∃ t, fixup measure (node c' l'' v' m' r') = some t ∧ Shrunk c k t := by
  cases ready with
  | black left right =>
    have stays : prepareLeft measure (node .black l v m r) = some (node .black l v m r) := by
      simp [prepareLeft, left.isRed_eq]
    refine ⟨_, _, _, _, _, _, _, stays, mem_cons_self, .red left, ?_⟩
    rintro l'' ⟨cl, shrunk, -⟩
    obtain ⟨t, c', fixed, balanced, black⟩ := fixup_black measure v m shrunk right
    exact ⟨t, fixed, c', balanced, fun _ => black (.inr rfl)⟩
  | red balanced =>
    obtain ⟨_, _, _, _, same, left, right⟩ := balanced.eq_red
    cases same
    cases k with
    | zero =>
      rw [left.eq_nil] at inside
      cases inside
    | succ n =>
      have keepsRed {r' : LlrbTree α δ} {v' : α} {m' : δ} (right : Balanced .black (n + 1) r') :
          ∀ l'', Shrunk .black (n + 1) l'' →
            ∃ t, fixup measure (node .red l'' v' m' r') = some t ∧ Shrunk .red (n + 1) t := by
        rintro l'' ⟨cl, shrunk, black⟩
        rw [black rfl] at shrunk
        exact fixup_both_black measure v' m' shrunk right
      by_cases low : l.left.isRed = true
      · have stays : prepareLeft measure (node .red l v m r) = some (node .red l v m r) := by
          simp [prepareLeft, low]
        exact ⟨_, _, _, _, _, _, _, stays, mem_cons_self, .of_red_left left low, keepsRed right⟩
      · rw [Bool.not_eq_true] at low
        have moves : prepareLeft measure (node .red l v m r) = moveRedLeft measure (node .red l v m r) := by
          simp [prepareLeft, low, left.not_red]
        rw [moves]
        obtain ⟨c', l', v', m', r', moved, root, shape⟩ := moveRedLeft_spec measure .red v m left right low
        rcases shape with ⟨rfl, left', right'⟩ | ⟨rfl, ready, right'⟩
        · refine ⟨_, _, _, _, _, _, _, moved, root, .red left', ?_⟩
          rintro l'' ⟨cl, shrunk, -⟩
          exact fixup_flipped measure v' m' shrunk right'
        · exact ⟨_, _, _, _, _, _, _, moved, root, ready, keepsRed right'⟩

end Moves

lemma treeMin_eq_head (t : LlrbTree α δ) : t.treeMin = t.toList.head? := by
  induction t with
  | nil => rfl
  | node c l v m r left right =>
    rw [treeMin, toList_node]
    cases l with
    | nil => rfl
    | node lc ll lv lm lr =>
      rw [isNil_node, if_neg Bool.false_ne_true, left, head?_append]
      simp

lemma Ready.eq_node (ready : Ready c k t) :
    ∃ l v m r, t = node c l v m r ∧ (l = .nil → c = .red ∧ k = 0 ∧ r = .nil) := by
  cases ready with
  | red balanced =>
    obtain ⟨l, v, m, r, rfl, left, right⟩ := balanced.eq_red
    refine ⟨l, v, m, r, rfl, ?_⟩
    rintro rfl
    cases left
    exact ⟨rfl, rfl, right.eq_nil⟩
  | black left right =>
    refine ⟨_, _, _, _, rfl, ?_⟩
    rintro rfl
    cases left

lemma delMin_spec (measure : Option δ → α → Option δ → δ) (ready : Ready c k t) (enough : t.toList.length ≤ fuel) :
    ∃ t' s, delMin measure fuel t = some t' ∧ Shrunk c k t' ∧ t.toList = s :: t'.toList := by
  induction fuel generalizing c k t with
  | zero =>
    obtain ⟨l, v, m, r, rfl, -⟩ := ready.eq_node
    simp at enough
  | succ fuel ih =>
    obtain ⟨l, v, m, r, rfl, lone⟩ := ready.eq_node
    rw [delMin]
    cases empty : l.isNil with
    | true =>
      cases l with
      | node => cases empty
      | nil =>
        obtain ⟨rfl, rfl, rfl⟩ := lone rfl
        exact ⟨.nil, v, rfl, ⟨.black, .nil, noConfusion⟩, rfl⟩
    | false =>
      obtain ⟨c', l', v', m', r', cl, kl, prepared, -, inside, finish⟩ := prepareLeft_spec measure c v m ready empty
      have contents := prepareLeft_toList prepared
      have shorter : l'.toList.length ≤ fuel := by
        have lengths := congrArg List.length contents
        simp only [toList_node, length_append, length_cons] at lengths enough
        omega
      obtain ⟨l'', s, deleted, shrunk, first⟩ := ih inside shorter
      obtain ⟨t, fixed, result⟩ := finish l'' shrunk
      refine ⟨t, s, ?_, result, ?_⟩
      · simp [prepared, deleted, fixed]
      · rw [← contents, toList_node, first, fixup_toList fixed, toList_node, cons_append]

variable {ord : α → Int}

inductive Leaned : Colour → Nat → LlrbTree α δ → Prop
  | red {n : Nat} {t : LlrbTree α δ} : Balanced .red n t → Leaned .red n t
  | black {n : Nat} {l r : LlrbTree α δ} {v : α} {m : δ} :
    Balanced .black n l → Balanced .red n r → Leaned .black (n + 1) (node .black l v m r)

/-- Ready, or already turned to the right with the key not on the left. -/
inductive Entry (ord : α → Int) : Colour → Nat → LlrbTree α δ → Prop
  | ready {c : Colour} {k : Nat} {t : LlrbTree α δ} : Ready c k t → Entry ord c k t
  | turned {n : Nat} {l r : LlrbTree α δ} {v : α} {m : δ} :
    Balanced .black n l → Balanced .red n r → 0 ≤ ord v → Entry ord .black (n + 1) (node .black l v m r)

variable {k fuel : Nat}

lemma leanRight_spec (measure : Option δ → α → Option δ → δ) (entry : Entry ord c k (node c l v m r))
    (below : ∀ u ∈ l.toList, 0 < ord u) (reached : 0 ≤ ord v) :
    ∃ l' v' m' r', leanRight measure (node c l v m r) = some (node c l' v' m' r') ∧ 0 ≤ ord v' ∧
      Leaned c k (node c l' v' m' r') := by
  cases entry with
  | turned left right _ =>
    have stays : leanRight measure (node .black l v m r) = some (node .black l v m r) := by
      simp [leanRight, left.not_red]
    exact ⟨l, v, m, r, stays, reached, .black left right⟩
  | ready ready =>
    cases ready with
    | red balanced =>
      obtain ⟨_, _, _, _, same, left, right⟩ := balanced.eq_red
      cases same
      have stays : leanRight measure (node .red l v m r) = some (node .red l v m r) := by simp [leanRight, left.not_red]
      exact ⟨l, v, m, r, stays, reached, .red balanced⟩
    | black left right =>
      obtain ⟨ll, lv, lm, lr, rfl, leftLeft, leftRight⟩ := left.eq_red
      have turned : ∃ m₁ m₂, leanRight measure (node .black (node .red ll lv lm lr) v m r) =
          some (node .black ll lv m₁ (node .red lr v m₂ r)) := by
        exact ⟨_, _, rfl⟩
      obtain ⟨m₁, m₂, turned⟩ := turned
      have passed := below lv (by simp)
      exact ⟨_, _, _, _, turned, Int.le_of_lt passed, .black leftLeft (.red leftRight right)⟩

lemma prepareRight_spec (measure : Option δ → α → Option δ → δ) (leaned : Leaned c k (node c l v m r))
    (inside : r.isNil = false) (below : ∀ u ∈ l.toList, 0 < ord u) (reached : 0 ≤ ord v) :
    ∃ c' l' v' m' r' cr kr, prepareRight measure (node c l v m r) = some (node c' l' v' m' r') ∧ 0 ≤ ord v' ∧
      Entry ord cr kr r' ∧ (ord v' = 0 → Ready cr kr r') ∧
      ∀ u r'', Shrunk cr kr r'' → ∃ t, fixup measure (node c' l' u m' r'') = some t ∧ Shrunk c k t := by
  cases leaned with
  | black left right =>
    have stays : prepareRight measure (node .black l v m r) = some (node .black l v m r) := by
      simp [prepareRight, right.isRed_eq]
    refine ⟨_, _, _, _, _, _, _, stays, reached, .ready (.red right), fun _ => .red right, ?_⟩
    rintro u r'' ⟨cr, shrunk, -⟩
    obtain ⟨t, c', fixed, balanced, black⟩ := fixup_black measure u m left shrunk
    exact ⟨t, fixed, c', balanced, fun _ => black (.inl rfl)⟩
  | red balanced =>
    obtain ⟨_, _, _, _, same, left, right⟩ := balanced.eq_red
    cases same
    cases k with
    | zero =>
      rw [right.eq_nil] at inside
      cases inside
    | succ n =>
      have keepsRed {l' : LlrbTree α δ} {m' : δ} (left : Balanced .black (n + 1) l') :
          ∀ u r'', Shrunk .black (n + 1) r'' →
            ∃ t, fixup measure (node .red l' u m' r'') = some t ∧ Shrunk .red (n + 1) t := by
        rintro u r'' ⟨cr, shrunk, black⟩
        rw [black rfl] at shrunk
        exact fixup_both_black measure u m' left shrunk
      by_cases low : r.left.isRed = true
      · have stays : prepareRight measure (node .red l v m r) = some (node .red l v m r) := by
          simp [prepareRight, low]
        have ready := Ready.of_red_left right low
        exact ⟨_, _, _, _, _, _, _, stays, reached, .ready ready, fun _ => ready, keepsRed left⟩
      · rw [Bool.not_eq_true] at low
        have moves : prepareRight measure (node .red l v m r) = moveRedRight measure (node .red l v m r) := by
          simp [prepareRight, low, right.not_red]
        rw [moves]
        rcases moveRedRight_spec measure .red v m left right low with
          ⟨l', r', moved, left', right'⟩ | ⟨l', v', m', rl, m'', rr, moved, left', turned, high, root⟩
        · refine ⟨_, _, _, _, _, _, _, moved, reached, .ready (.red right'), fun _ => .red right', ?_⟩
          rintro u r'' ⟨cr, shrunk, -⟩
          exact fixup_flipped measure u m left' shrunk
        · have passed := below v' root
          exact ⟨_, _, _, _, _, _, _, moved, Int.le_of_lt passed, .turned turned high reached,
            fun equal => absurd equal (Int.ne_of_gt passed), keepsRed left'⟩

variable {drop : α → Option α} {steal : α → α} {γ : Type*} {proj : α → γ}

/-- The balance of a shrunk subtree, the contents without the dropped value up to `proj`, and the value that compared
equal. -/
structure Deleted (ord : α → Int) (drop : α → Option α) (proj : α → γ) (c : Colour) (k : Nat)
    (before : List α) (t : LlrbTree α δ) (found : Option α) : Prop where
  shrunk : Shrunk c k t
  contents : t.toList.map proj = (eraseSorted ord drop before).map proj
  search : found = before.find? (fun v => ord v = 0)

lemma del_red_leaf (notLess : ¬ord v < 0)
    (turned : leanRight measure (node c l v m r) = some (node .red .nil v' m' .nil)) :
    ∃ t' found, del measure ord drop steal (fuel + 1) (node c l v m r) = some (t', found) ∧
      Deleted ord drop proj .red 0 [v'] t' found := by
  by_cases equal : ord v' = 0
  · cases kept : drop v' with
    | none =>
      refine ⟨.nil, some v', by simp [del, notLess, turned, equal, kept], ?_, ?_, ?_⟩
      · exact ⟨.black, .nil, noConfusion⟩
      · simp [eraseSorted, equal, kept]
      · simp [equal]
    | some rest =>
      refine ⟨aug measure (node .red .nil rest m' .nil), some v',
        by simp [del, notLess, turned, equal, kept], ?_, ?_, ?_⟩
      · exact ⟨.red, .red .nil .nil, noConfusion⟩
      · simp [eraseSorted, equal, kept]
      · simp [equal]
  · obtain ⟨t, fixed, shrunk⟩ := fixup_both_black measure v' m' .nil .nil
    refine ⟨t, none, by simp [del, notLess, turned, equal, fixed], shrunk, ?_, ?_⟩
    · rw [fixup_toList fixed]
      simp [eraseSorted, equal]
    · simp [equal]

section

variable (sorted : SortedFor ord (node c l v m r).toList) (enough : (node c l v m r).toList.length ≤ fuel + 1)
  (recurse : ∀ {c k} {t : LlrbTree α δ}, SortedFor ord t.toList → Entry ord c k t → t.toList.length ≤ fuel →
    ∃ t' found, del measure ord drop steal fuel t = some (t', found) ∧ Deleted ord drop proj c k t.toList t' found)

include sorted enough recurse

lemma del_left (less : ord v < 0) (ready : Ready c k (node c l v m r)) :
    ∃ t' found, del measure ord drop steal (fuel + 1) (node c l v m r) = some (t', found) ∧
      Deleted ord drop proj c k (node c l v m r).toList t' found := by
  have parts := SortedFor.parts sorted
  have above : ∀ u ∈ v :: r.toList, ord u < 0 := List.forall_mem_cons.mpr ⟨less, parts.above (by omega)⟩
  cases empty : l.isNil with
  | true =>
    cases l with
    | node => cases empty
    | nil =>
      have absent : ∀ u ∈ v :: r.toList, ord u ≠ 0 := fun u mem => Int.ne_of_lt (above u mem)
      refine ⟨node c .nil v m r, none, by simp [del, less], ready.shrunk, ?_, ?_⟩
      · rw [toList_node, toList_nil, nil_append, eraseSorted_of_ne absent]
      · rw [toList_node, toList_nil, nil_append, find_eq_none_of_ne absent]
  | false =>
    obtain ⟨c', l', v', m', r', cl, kl, prepared, root, inside, finish⟩ := prepareLeft_spec measure c v m ready empty
    have contents := prepareLeft_toList prepared
    rw [← contents] at sorted enough ⊢
    have parts' := SortedFor.parts sorted
    have less' := above v' root
    have absent : ∀ u ∈ v' :: r'.toList, ord u ≠ 0 := List.forall_mem_cons.mpr
      ⟨Int.ne_of_lt less', fun u mem => Int.ne_of_lt (parts'.above (Int.le_of_lt less') u mem)⟩
    have shorter : l'.toList.length ≤ fuel := by
      simp only [toList_node, length_append, length_cons] at enough
      omega
    obtain ⟨l'', found, deleted, result⟩ := recurse parts'.left (.ready inside) shorter
    obtain ⟨t, fixed, shrunk⟩ := finish l'' result.shrunk
    refine ⟨t, found, by simp [del, less, empty, prepared, deleted, fixed], shrunk, ?_, ?_⟩
    · rw [fixup_toList fixed, toList_node, toList_node, eraseSorted_left _ absent, map_append, map_append,
        result.contents]
    · rw [toList_node, find?_append, find_eq_none_of_ne absent, or_none]
      exact result.search

lemma del_right (stolen : ∀ s, proj (steal s) = proj s) (reached : 0 ≤ ord v) (entry : Entry ord c k (node c l v m r)) :
    ∃ t' found, del measure ord drop steal (fuel + 1) (node c l v m r) = some (t', found) ∧
      Deleted ord drop proj c k (node c l v m r).toList t' found := by
  have notLess : ¬ ord v < 0 := by omega
  obtain ⟨l₁, v₁, m₁, r₁, turned, reached₁, leaned⟩ :=
    leanRight_spec measure entry ((SortedFor.parts sorted).below reached) reached
  rw [← leanRight_toList turned] at sorted enough ⊢
  have below := (SortedFor.parts sorted).below reached₁
  cases empty : r₁.isNil with
  | true =>
    cases r₁ with
    | node => cases empty
    | nil =>
      -- A turned tree has a red right child, so this is a red leaf.
      cases leaned with
      | black _ right => cases right
      | red balanced =>
        obtain ⟨_, _, _, _, same, left, right⟩ := balanced.eq_red
        cases same
        cases right
        rw [left.eq_nil] at turned ⊢
        rw [toList_node, toList_nil, nil_append]
        exact del_red_leaf notLess turned
  | false =>
    obtain ⟨c', l', v', m', r', cr, kr, prepared, reached', inside, onHit, finish⟩ :=
      prepareRight_spec measure leaned empty below reached₁
    rw [← prepareRight_toList prepared] at sorted enough ⊢
    have parts := SortedFor.parts sorted
    have absent : ∀ u ∈ l'.toList, ord u ≠ 0 := fun u mem => Int.ne_of_gt (parts.below reached' u mem)
    have shorter : r'.toList.length ≤ fuel := by
      simp only [toList_node, length_append, length_cons] at enough
      omega
    rw [toList_node]
    by_cases equal : ord v' = 0
    · have ready := onHit equal
      have search : some v' = (l'.toList ++ v' :: r'.toList).find? (fun v => ord v = 0) := by
        rw [find?_append, find_eq_none_of_ne absent, none_or, find?_cons_of_pos (by simpa using equal)]
      cases kept : drop v' with
      | none =>
        obtain ⟨r'', s, deleted, shrunk, first⟩ := delMin_spec measure ready shorter
        have least : r'.treeMin = some s := by rw [treeMin_eq_head, first, head?_cons]
        obtain ⟨t, fixed, result⟩ := finish (steal s) r'' shrunk
        refine ⟨t, some v', ?_, result, ?_, search⟩
        · simp [del, notLess, turned, empty, prepared, equal, kept, least, deleted, fixed]
        · rw [fixup_toList fixed, toList_node, eraseSorted_right _ absent, eraseSorted, if_pos equal, kept, first]
          simp [stolen]
      | some rest =>
        obtain ⟨t, fixed, result⟩ := finish rest r' ready.shrunk
        refine ⟨t, some v', ?_, result, ?_, search⟩
        · simp [del, notLess, turned, empty, prepared, equal, kept, fixed]
        · rw [fixup_toList fixed, toList_node, eraseSorted_right _ absent, eraseSorted, if_pos equal, kept]
          simp
    · obtain ⟨r'', found, deleted, result⟩ := recurse parts.right inside shorter
      obtain ⟨t, fixed, shrunk⟩ := finish v' r'' result.shrunk
      refine ⟨t, found, ?_, shrunk, ?_, ?_⟩
      · simp [del, notLess, turned, empty, prepared, equal, deleted, fixed]
      · rw [fixup_toList fixed, toList_node, eraseSorted_right _ absent, eraseSorted, if_neg equal, map_append,
          map_append, map_cons, map_cons, result.contents]
      · rw [find?_append, find_eq_none_of_ne absent, none_or, find?_cons_of_neg (by simpa using equal)]
        exact result.search

end

lemma Entry.eq_node (entry : Entry ord c k t) : ∃ l v m r, t = node c l v m r := by
  cases entry with
  | ready ready =>
    obtain ⟨l, v, m, r, same, -⟩ := ready.eq_node
    exact ⟨l, v, m, r, same⟩
  | turned => exact ⟨_, _, _, _, rfl⟩

lemma del_spec (measure : Option δ → α → Option δ → δ) (drop : α → Option α) (stolen : ∀ s, proj (steal s) = proj s)
    (sorted : SortedFor ord t.toList) (entry : Entry ord c k t) (enough : t.toList.length ≤ fuel) :
    ∃ t' found, del measure ord drop steal fuel t = some (t', found) ∧
      Deleted ord drop proj c k t.toList t' found := by
  induction fuel generalizing c k t with
  | zero =>
    obtain ⟨l, v, m, r, rfl⟩ := entry.eq_node
    simp at enough
  | succ fuel ih =>
    obtain ⟨l, v, m, r, rfl⟩ := entry.eq_node
    by_cases less : ord v < 0
    · cases entry with
      | ready ready => exact del_left sorted enough ih less ready
      | turned _ _ reached => omega
    · exact del_right sorted enough ih stolen (by omega) entry

section

variable (t : LlrbTree α δ)

lemma rotateLeft_toggle : rotateLeft measure t.toggle = (rotateLeft measure t).map toggle := by
  cases t with
  | nil => rfl
  | node c l v m r => cases r <;> rfl

lemma rotateRight_toggle : rotateRight measure t.toggle = (rotateRight measure t).map toggle := by
  cases t with
  | nil => rfl
  | node c l v m r => cases l <;> rfl

lemma flipColours_toggle : flipColours t.toggle = (flipColours t).map toggle := by
  cases t with
  | nil => rfl
  | node c l v m r => cases l <;> cases r <;> rfl

@[simp] lemma toggle_node (c : Colour) (l : LlrbTree α δ) (v : α) (m : δ) (r : LlrbTree α δ) :
    (node c l v m r).toggle = node c.flip l v m r := rfl

@[simp] lemma left_toggle : t.toggle.left = t.left := by
  cases t <;> rfl

@[simp] lemma right_toggle : t.toggle.right = t.right := by
  cases t <;> rfl

@[simp] lemma isNil_toggle : t.toggle.isNil = t.isNil := by
  cases t <;> rfl

@[simp] lemma toList_toggle : t.toggle.toList = t.toList := by
  cases t <;> rfl

@[simp] lemma blacken_toggle : t.toggle.blacken = t.blacken := by
  cases t <;> rfl

lemma aug_toggle : t.toggle.aug measure = (t.aug measure).toggle := by
  cases t <;> rfl

lemma ite_toggle {b : Bool} {f : LlrbTree α δ → Option (LlrbTree α δ)} {t : LlrbTree α δ}
    (commutes : f t.toggle = (f t).map toggle) :
    (if b then f t.toggle else some t.toggle) = (if b then f t else some t).map toggle := by
  cases b
  · rfl
  · exact commutes

lemma fixup_toggle : fixup measure t.toggle = (fixup measure t).map toggle := by
  have lean : leanLeft measure t.toggle = (leanLeft measure t).map toggle := by
    simp only [leanLeft, left_toggle, right_toggle]
    exact ite_toggle (rotateLeft_toggle t)
  have split (t : LlrbTree α δ) : splitLeft measure t.toggle = (splitLeft measure t).map toggle := by
    simp only [splitLeft, left_toggle]
    exact ite_toggle (rotateRight_toggle t)
  have both (t : LlrbTree α δ) : splitBoth t.toggle = (splitBoth t).map toggle := by
    simp only [splitBoth, left_toggle, right_toggle]
    exact ite_toggle (flipColours_toggle t)
  simp only [fixup, isNil_toggle, lean]
  split
  · rfl
  · cases leanLeft measure t with
    | none => rfl
    | some first =>
      simp only [map_some, bind_eq_bind, bind_some, split]
      cases splitLeft measure first with
      | none => rfl
      | some second =>
        simp only [map_some, bind_some, both]
        cases splitBoth second with
        | none => rfl
        | some third => simp only [map_some, bind_some, aug_toggle]

lemma moveRedLeft_toggle : moveRedLeft measure t.toggle = (moveRedLeft measure t).map toggle := by
  simp only [moveRedLeft, flipColours_toggle]
  cases flipColours t with
  | none => rfl
  | some first =>
    simp only [map_some, bind_eq_bind, bind_some, right_toggle]
    split
    · cases first with
      | nil => rfl
      | node c l v m r =>
        simp only [toggle]
        cases rotateRight measure r with
        | none => rfl
        | some turned =>
          have rotated : rotateLeft measure (node c.flip l v m turned) =
              (rotateLeft measure (node c l v m turned)).map toggle := rotateLeft_toggle (node c l v m turned)
          simp only [bind_some, rotated]
          cases rotateLeft measure (node c l v m turned) with
          | none => rfl
          | some second => simp only [map_some, bind_some, flipColours_toggle]
    · rfl

lemma moveRedRight_toggle : moveRedRight measure t.toggle = (moveRedRight measure t).map toggle := by
  simp only [moveRedRight, flipColours_toggle]
  cases flipColours t with
  | none => rfl
  | some first =>
    simp only [map_some, bind_eq_bind, bind_some, left_toggle]
    split
    · rw [rotateRight_toggle]
      cases rotateRight measure first with
      | none => rfl
      | some second => simp only [map_some, bind_some, flipColours_toggle]
    · rfl

end

lemma del_toggle (fuel : Nat) (t : LlrbTree α δ) : del measure ord drop steal fuel t.toggle =
      (del measure ord drop steal fuel t).map fun result => (result.1.toggle, result.2) := by
  have fixed (c : Colour) (l : LlrbTree α δ) (v : α) (m : δ) (r : LlrbTree α δ) :
      fixup measure (node c.flip l v m r) = (fixup measure (node c l v m r)).map toggle :=
    fixup_toggle (node c l v m r)
  have left (t : LlrbTree α δ) : prepareLeft measure t.toggle = (prepareLeft measure t).map toggle := by
    simp only [prepareLeft, left_toggle]
    exact ite_toggle (moveRedLeft_toggle t)
  have right (t : LlrbTree α δ) : prepareRight measure t.toggle = (prepareRight measure t).map toggle := by
    simp only [prepareRight, right_toggle]
    exact ite_toggle (moveRedRight_toggle t)
  have lean (t : LlrbTree α δ) : leanRight measure t.toggle = (leanRight measure t).map toggle := by
    simp only [leanRight, left_toggle]
    exact ite_toggle (rotateRight_toggle t)
  cases fuel with
  | zero => rfl
  | succ fuel =>
    cases t with
    | nil => rfl
    | node c l v m r =>
      have prepared := left (node c l v m r)
      have leaned := lean (node c l v m r)
      rw [toggle_node] at prepared leaned ⊢
      simp only [del, prepared, leaned]
      split
      · split
        · rfl
        · cases prepareLeft measure (node c l v m r) with
          | none => rfl
          | some h =>
            cases h with
            | nil => rfl
            | node c' l' v' m' r' =>
              simp only [map_some, bind_eq_bind, bind_some, toggle_node, fixed, bind_map, Option.map_bind, comp_def]
      · cases leanRight measure (node c l v m r) with
        | none => rfl
        | some h =>
          cases h with
          | nil => rfl
          | node c' l' v' m' r' =>
            have again := right (node c' l' v' m' r')
            rw [toggle_node] at again
            simp only [map_some, bind_eq_bind, bind_some, toggle_node, fixed, again]
            split
            · cases drop v' <;> rfl
            · split
              · simp [bind_map, Option.map_bind, map_some]
              · cases prepareRight measure (node c' l' v' m' r') with
                | none => rfl
                | some h =>
                  cases h with
                  | nil => rfl
                  | node c₂ l₂ v₂ m₂ r₂ =>
                    simp only [map_some, bind_some, toggle_node, fixed]
                    split
                    · cases drop v₂ <;>
                        simp [bind_map, Option.map_bind, map_some]
                    · simp [bind_map, Option.map_bind, map_some]

variable (measure) (drop) (steal) (proj) in
lemma del_root (stolen : ∀ s, proj (steal s) = proj s) (sorted : SortedFor ord t.toList)
    (balanced : Balanced .black n t) (enough : t.toList.length < fuel) :
    ∃ t' found, del measure ord drop steal fuel t = some (t', found) ∧ (∃ k, Balanced .black k t'.blacken) ∧
      t'.toList.map proj = (eraseSorted ord drop t.toList).map proj ∧
      found = t.toList.find? (fun v => ord v = 0) := by
  have final {c : Colour} {k : Nat} {t : LlrbTree α δ} (shrunk : Shrunk c k t) : ∃ k, Balanced .black k t.blacken := by
    obtain ⟨c', result, -⟩ := shrunk
    exact result.blacken
  cases n with
  | zero =>
    rw [balanced.eq_nil] at enough ⊢
    cases fuel with
    | zero => cases enough
    | succ fuel => exact ⟨.nil, none, rfl, ⟨0, .nil⟩, rfl, rfl⟩
  | succ n =>
    by_cases red : t.left.isRed = true
    · obtain ⟨t', found, deleted, result⟩ := del_spec measure drop stolen sorted (.ready (.of_red_left balanced red))
        (Nat.le_of_lt enough)
      exact ⟨t', found, deleted, final result.shrunk, result.contents, result.search⟩
    · rw [Bool.not_eq_true] at red
      obtain ⟨l, v, m, r, rfl, left, right⟩ := balanced.black_left red
      have entry : Entry ord .red n (node .red l v m r) := .ready (.red (.red left right))
      obtain ⟨t', found, deleted, result⟩ := del_spec measure drop stolen (t := node .red l v m r) sorted entry
        (Nat.le_of_lt enough)
      have toggled : del measure ord drop steal fuel (node .black l v m r) =
          (del measure ord drop steal fuel (node .red l v m r)).map fun result => (result.1.toggle, result.2) :=
        del_toggle fuel (node .red l v m r)
      rw [deleted] at toggled
      refine ⟨t'.toggle, found, toggled, ?_, ?_, result.search⟩
      · rw [blacken_toggle]
        exact final result.shrunk
      · rw [toList_toggle]
        exact result.contents

end LibOp.Foundation.LlrbTree

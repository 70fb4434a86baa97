import LibOp.Foundation.LeftLeaning

namespace LibOp.Foundation.LlrbTree

open Option

universe u

variable {α δ : Type u} {measure : Option δ → α → Option δ → δ}

/-- The colour of the root and the black nodes on every path: red nodes lean left and have black children. -/
inductive Balanced : Colour → Nat → LlrbTree α δ → Prop
  | nil : Balanced .black 0 nil
  | red {n : Nat} {l r : LlrbTree α δ} {v : α} {m : δ} :
    Balanced .black n l → Balanced .black n r → Balanced .red n (node .red l v m r)
  | black {n : Nat} {cl : Colour} {l r : LlrbTree α δ} {v : α} {m : δ} :
    Balanced cl n l → Balanced .black n r → Balanced .black (n + 1) (node .black l v m r)

variable {n : Nat} {c cl cr : Colour} {l r t : LlrbTree α δ} {v : α} {m : δ}

lemma Balanced.isRed_eq (balanced : Balanced c n t) : t.isRed = decide (c = .red) := by
  cases balanced <;> rfl

lemma Balanced.not_red (balanced : Balanced .black n t) : t.isRed = false := balanced.isRed_eq

lemma Balanced.eq_red (balanced : Balanced .red n t) :
    ∃ l v m r, t = node .red l v m r ∧ Balanced .black n l ∧ Balanced .black n r := by
  cases balanced with
  | red left right => exact ⟨_, _, _, _, rfl, left, right⟩

lemma Balanced.eq_black (balanced : Balanced .black (n + 1) t) :
    ∃ cl l v m r, t = node .black l v m r ∧ Balanced cl n l ∧ Balanced .black n r := by
  cases balanced with
  | black left right => exact ⟨_, _, _, _, _, rfl, left, right⟩

lemma Balanced.eq_nil (balanced : Balanced .black 0 t) : t = .nil := by
  cases balanced
  rfl

section Fixup

variable (measure) (c) (v) (m)

lemma fixup_calm (left : l.isRed = true → l.left.isRed = false) (right : r.isRed = false) :
    ∃ m', fixup measure (node c l v m r) = some (node c l v m' r) := by
  have stays : ¬ (l.isRed = true ∧ l.left.isRed = true) := by
    rintro ⟨red, low⟩
    rw [left red] at low
    cases low
  simp [fixup, leanLeft, splitLeft, splitBoth, right, stays, aug]

lemma fixup_lean (rl : LlrbTree α δ) (rv : α) (rm : δ) (left : l.isRed = false) (right : rr.isRed = false) :
    ∃ m' m'', fixup measure (node c l v m (node .red rl rv rm rr)) = some (node c (node .red l v m' rl) rv m'' rr) := by
  simp only [fixup, isNil_node, Bool.false_eq_true, if_false, leanLeft, right_node, isRed_node, decide_true, left_node,
    left, Bool.not_false, Bool.and_self, if_true, rotateLeft, aug, splitLeft, Bool.and_eq_true, splitBoth,
    bind_eq_bind, bind_some, and_false, right]
  exact ⟨_, _, rfl⟩

lemma fixup_split (lv : α) (lm : δ) (rv : α) (rm : δ) (low : ll.isRed = false) :
    ∃ m', fixup measure (node c (node .red ll lv lm lr) v m (node .red rl rv rm rr)) =
      some (node c.flip (node .black ll lv lm lr) v m' (node .black rl rv rm rr)) := by
  simp [fixup, leanLeft, splitLeft, splitBoth, flipColours_node, aug, low]

lemma fixup_tall (lr : LlrbTree α δ) (lv : α) (lm : δ) (low : ll.isRed = true) (right : r.isRed = false) :
    ∃ m' m'', fixup measure (node c (node .red ll lv lm lr) v m r) =
      some (node c.flip ll.blacken lv m' (node .black lr v m'' r)) := by
  cases ll with
  | nil => cases low
  | node lc a b d e =>
    cases lc with
    | black => cases low
    | red =>
      have stays : leanLeft measure (node c (node .red (node .red a b d e) lv lm lr) v m r) =
          some (node c (node .red (node .red a b d e) lv lm lr) v m r) := by
        rw [leanLeft, right_node, right, Bool.false_and, if_neg Bool.false_ne_true]
      rw [fixup, isNil_node, if_neg Bool.false_ne_true, stays]
      exact ⟨_, _, rfl⟩

end Fixup

lemma Balanced.left_calm (balanced : Balanced c n t) : t.isRed = true → t.left.isRed = false := by
  intro red
  cases balanced with
  | nil | black => cases red
  | red low _ => exact low.not_red

lemma Balanced.blacken (balanced : Balanced c n t) : ∃ k, Balanced .black k t.blacken := by
  cases balanced with
  | nil => exact ⟨0, .nil⟩
  | red left right => exact ⟨n + 1, .black left right⟩
  | black left right => exact ⟨_, .black left right⟩

lemma Balanced.aug (balanced : Balanced c n t) : Balanced c n (t.aug measure) := by
  cases balanced with
  | nil => exact .nil
  | red left right => exact .red left right
  | black left right => exact .black left right

section Repair

variable (measure)

lemma fixup_black (v : α) (m : δ) (left : Balanced cl n l) (right : Balanced cr n r) :
    ∃ t c, fixup measure (node .black l v m r) = some t ∧ Balanced c (n + 1) t ∧
      (cl = .black ∨ cr = .black → c = .black) := by
  cases cr with
  | black =>
    obtain ⟨m', fixed⟩ := fixup_calm measure .black v m left.left_calm right.not_red
    exact ⟨_, .black, fixed, .black left right, fun _ => rfl⟩
  | red =>
    obtain ⟨rl, rv, rm, rr, rfl, rightLeft, rightRight⟩ := right.eq_red
    cases cl with
    | black =>
      obtain ⟨m', m'', fixed⟩ := fixup_lean measure .black v m rl rv rm left.not_red rightRight.not_red
      exact ⟨_, .black, fixed, .black (.red left rightLeft) rightRight, fun _ => rfl⟩
    | red =>
      obtain ⟨ll, lv, lm, lr, rfl, leftLeft, leftRight⟩ := left.eq_red
      obtain ⟨m', fixed⟩ := fixup_split measure .black v m lv lm rv rm leftLeft.not_red
      exact ⟨_, .red, fixed, .red (.black leftLeft leftRight) (.black rightLeft rightRight), by simp⟩

lemma fixup_red (v : α) (m : δ) (left : Balanced cl n l) (right : Balanced cr n r) (one : cl = .black ∨ cr = .black) :
    ∃ c l' v' m' r', fixup measure (node .red l v m r) = some (node .red l' v' m' r') ∧
      Balanced c n l' ∧ Balanced .black n r' ∧ (cl = .black → cr = .black → c = .black) := by
  cases cr with
  | black =>
    obtain ⟨m', fixed⟩ := fixup_calm measure .red v m left.left_calm right.not_red
    exact ⟨_, _, _, _, _, fixed, left, right, fun black _ => black⟩
  | red =>
    obtain ⟨rl, rv, rm, rr, rfl, rightLeft, rightRight⟩ := right.eq_red
    have black : cl = .black := by simpa using one
    subst black
    obtain ⟨m', m'', fixed⟩ := fixup_lean measure .red v m rl rv rm left.not_red rightRight.not_red
    exact ⟨_, _, _, _, _, fixed, .red left rightLeft, rightRight, by simp⟩

lemma insert_balanced (ord : α → Int) (fresh : α) (note : δ) (update : α → α) (balanced : Balanced c n t) :
    ∃ t' found, insert measure ord fresh note update t = some (t', found) ∧ (c = .black → ∃ c', Balanced c' n t') ∧
      (c = .red → ∃ c' l v m r, t' = node .red l v m r ∧ Balanced c' n l ∧ Balanced .black n r) := by
  induction balanced with
  | nil => exact ⟨_, _, rfl, fun _ => ⟨.red, .red .nil .nil⟩, by simp⟩
  | @red n l r v m left right ihLeft ihRight =>
    simp only [insert]
    split
    · obtain ⟨l', found, inserted, black, -⟩ := ihLeft
      obtain ⟨c', left'⟩ := black rfl
      obtain ⟨_, _, _, _, _, fixed, low, high, -⟩ := fixup_red measure v m left' right (.inr rfl)
      simp only [inserted, fixed, bind_eq_bind, bind_some]
      exact ⟨_, _, rfl, by simp, fun _ => ⟨_, _, _, _, _, rfl, low, high⟩⟩
    · split
      · obtain ⟨r', found, inserted, black, -⟩ := ihRight
        obtain ⟨c', right'⟩ := black rfl
        obtain ⟨_, _, _, _, _, fixed, low, high, -⟩ := fixup_red measure v m left right' (.inl rfl)
        simp only [inserted, fixed, bind_eq_bind, bind_some]
        exact ⟨_, _, rfl, by simp, fun _ => ⟨_, _, _, _, _, rfl, low, high⟩⟩
      · obtain ⟨_, _, _, _, _, fixed, low, high, -⟩ := fixup_red measure (update v) m left right (.inl rfl)
        simp only [fixed, bind_eq_bind, bind_some]
        exact ⟨_, _, rfl, by simp, fun _ => ⟨_, _, _, _, _, rfl, low, high⟩⟩
  | @black n cl l r v m left right ihLeft ihRight =>
    simp only [insert]
    split
    · obtain ⟨l', found, inserted, black, red⟩ := ihLeft
      cases cl with
      | black =>
        obtain ⟨c', left'⟩ := black rfl
        obtain ⟨_, _, fixed, whole, -⟩ := fixup_black measure v m left' right
        simp only [inserted, fixed, bind_eq_bind, bind_some]
        exact ⟨_, _, rfl, fun _ => ⟨_, whole⟩, by simp⟩
      | red =>
        obtain ⟨c', ll, lv, lm, lr, rfl, low, high⟩ := red rfl
        cases c' with
        | black =>
          obtain ⟨_, _, fixed, whole, -⟩ := fixup_black measure v m (Balanced.red (v := lv) (m := lm) low high) right
          simp only [inserted, fixed, bind_eq_bind, bind_some]
          exact ⟨_, _, rfl, fun _ => ⟨_, whole⟩, by simp⟩
        | red =>
          obtain ⟨a, b, d, e, rfl, first, second⟩ := low.eq_red
          obtain ⟨m', m'', fixed⟩ := fixup_tall measure .black v m lr lv lm (isRed_node .red a b d e) right.not_red
          simp only [inserted, fixed, bind_eq_bind, bind_some]
          exact ⟨_, _, rfl, fun _ => ⟨_, .red (.black first second) (.black high right)⟩, by simp⟩
    · split
      · obtain ⟨r', found, inserted, black, -⟩ := ihRight
        obtain ⟨c', right'⟩ := black rfl
        obtain ⟨_, _, fixed, whole, -⟩ := fixup_black measure v m left right'
        simp only [inserted, fixed, bind_eq_bind, bind_some]
        exact ⟨_, _, rfl, fun _ => ⟨_, whole⟩, by simp⟩
      · obtain ⟨_, _, fixed, whole, -⟩ := fixup_black measure (update v) m left right
        simp only [fixed, bind_eq_bind, bind_some]
        exact ⟨_, _, rfl, fun _ => ⟨_, whole⟩, by simp⟩

lemma insert_root (ord : α → Int) (fresh : α) (note : δ) (update : α → α) (sorted : SortedFor ord t.toList)
    (balanced : Balanced .black n t) :
    ∃ t' found, insert measure ord fresh note update t = some (t', found) ∧ (∃ k, Balanced .black k t'.blacken) ∧
      t'.toList = insertSorted ord fresh update t.toList ∧ found = t.toList.find? (fun v => ord v = 0) := by
  obtain ⟨t', found, inserted, black, -⟩ := insert_balanced measure ord fresh note update balanced
  obtain ⟨c', result⟩ := black rfl
  obtain ⟨contents, search⟩ := insert_toList sorted inserted
  exact ⟨t', found, inserted, result.blacken, contents, search⟩

end Repair

def Everywhere (p : LlrbTree α δ → Prop) : LlrbTree α δ → Prop
  | nil => True
  | node c l v m r => p (node c l v m r) ∧ l.Everywhere p ∧ r.Everywhere p

def blackCounts : LlrbTree α δ → List Nat
  | nil => [0]
  | node c l _ _ r => (l.blackCounts ++ r.blackCounts).map (· + if c = .black then 1 else 0)

lemma Balanced.no_red_pair (balanced : Balanced c n t) :
    t.Everywhere fun h => h.isRed = true → h.left.isRed = false ∧ h.right.isRed = false := by
  induction balanced with
  | nil => exact trivial
  | red left right low high => exact ⟨fun _ => ⟨left.not_red, right.not_red⟩, low, high⟩
  | black left right low high => exact ⟨fun red => Bool.noConfusion red, low, high⟩

lemma Balanced.right_black (balanced : Balanced c n t) : t.Everywhere fun h => h.right.isRed = false := by
  induction balanced with
  | nil => exact trivial
  | red left right low high | black left right low high => exact ⟨right.not_red, low, high⟩

lemma Balanced.blackCounts_eq (balanced : Balanced c n t) : ∀ k ∈ t.blackCounts, k = n := by
  induction balanced with
  | nil => simp [blackCounts]
  | red left right low high =>
    intro k mem
    simp only [blackCounts, List.mem_map, List.mem_append] at mem
    obtain ⟨k', path, rfl⟩ := mem
    rcases path with path | path
    · exact low k' path
    · exact high k' path
  | black left right low high =>
    intro k mem
    simp only [blackCounts, List.mem_map, List.mem_append] at mem
    obtain ⟨k', path, rfl⟩ := mem
    rcases path with path | path
    · simp [low k' path]
    · simp [high k' path]

end LibOp.Foundation.LlrbTree

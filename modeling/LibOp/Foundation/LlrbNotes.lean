import LibOp.Foundation.LeftLeaning

namespace LibOp.Foundation.LlrbTree

open Option

universe u

variable {α δ : Type u} {measure : Option δ → α → Option δ → δ} {h t : LlrbTree α δ}

def Annotated (measure : Option δ → α → Option δ → δ) : LlrbTree α δ → Prop
  | nil => True
  | node _ l v m r => m = measure l.note? v r.note? ∧ l.Annotated measure ∧ r.Annotated measure

def AnnotatedBelow (measure : Option δ → α → Option δ → δ) (t : LlrbTree α δ) : Prop :=
  t.left.Annotated measure ∧ t.right.Annotated measure

lemma Annotated.below (annotated : Annotated measure t) : AnnotatedBelow measure t := by
  cases t with
  | nil => exact ⟨trivial, trivial⟩
  | node c l v m r => exact annotated.2

lemma AnnotatedBelow.aug (below : AnnotatedBelow measure t) : Annotated measure (t.aug measure) := by
  cases t with
  | nil => exact trivial
  | node c l v m r => exact ⟨rfl, below.1, below.2⟩

lemma Annotated.blacken (annotated : Annotated measure t) : Annotated measure t.blacken := by
  cases t with
  | nil => exact trivial
  | node c l v m r => exact annotated

section

variable (below : AnnotatedBelow measure h)

include below

lemma rotateLeft_annotated (done : rotateLeft measure h = some t) : Annotated measure t := by
  cases h with
  | nil => cases done
  | node c l v m r =>
    cases r with
    | nil => cases done
    | node cr rl rv rm rr =>
      cases done
      obtain ⟨left, -, rightLeft, rightRight⟩ := below
      exact ⟨rfl, ⟨rfl, left, rightLeft⟩, rightRight⟩

lemma rotateRight_annotated (done : rotateRight measure h = some t) : Annotated measure t := by
  cases h with
  | nil => cases done
  | node c l v m r =>
    cases l with
    | nil => cases done
    | node cl ll lv lm lr =>
      cases done
      obtain ⟨⟨-, leftLeft, leftRight⟩, right⟩ := below
      exact ⟨rfl, leftLeft, rfl, leftRight, right⟩

lemma flipColours_below (done : flipColours h = some t) : AnnotatedBelow measure t := by
  cases h with
  | nil => cases done
  | node c l v m r =>
    cases l with
    | nil => cases done
    | node cl ll lv lm lr =>
      cases r with
      | nil => cases done
      | node cr rl rv rm rr =>
        cases done
        exact below

lemma below_of_ite {b : Bool} {f : LlrbTree α δ → Option (LlrbTree α δ)}
    (keeps : f h = some t → AnnotatedBelow measure t) (done : (if b then f h else some h) = some t) :
    AnnotatedBelow measure t := by
  split at done
  · exact keeps done
  · cases done
    exact below

lemma fixup_annotated (done : fixup measure h = some t) : Annotated measure t := by
  rw [fixup] at done
  split at done
  · cases done
  · simp only [bind_eq_bind, bind_eq_some_iff] at done
    obtain ⟨first, leaned, second, balanced, third, flipped, same⟩ := done
    cases same
    have belowFirst := below_of_ite below (fun done => (rotateLeft_annotated below done).below) leaned
    have belowSecond := below_of_ite belowFirst (fun done => (rotateRight_annotated belowFirst done).below) balanced
    exact (below_of_ite belowSecond (flipColours_below belowSecond) flipped).aug

end

lemma fixup_node_annotated (left : Annotated measure l)
    (right : Annotated measure r) (done : fixup measure (node c l v m r) = some t) : Annotated measure t :=
  fixup_annotated (h := node c l v m r) ⟨left, right⟩ done

lemma moveRedLeft_below (below : AnnotatedBelow measure h) (done : moveRedLeft measure h = some t) :
    AnnotatedBelow measure t := by
  simp only [moveRedLeft, bind_eq_bind, bind_eq_some_iff] at done
  obtain ⟨first, flipped, done⟩ := done
  have belowFirst := flipColours_below below flipped
  split at done
  · cases first with
    | nil => cases done
    | node c l v m r =>
      simp only [bind_eq_some_iff] at done
      obtain ⟨turned, right, rotated, left, flippedBack⟩ := done
      have belowTurned : AnnotatedBelow measure (node c l v m turned) :=
        ⟨belowFirst.1, rotateRight_annotated belowFirst.2.below right⟩
      exact flipColours_below (rotateLeft_annotated belowTurned left).below flippedBack
  · cases done
    exact belowFirst

lemma moveRedRight_below (below : AnnotatedBelow measure h) (done : moveRedRight measure h = some t) :
    AnnotatedBelow measure t := by
  simp only [moveRedRight, bind_eq_bind, bind_eq_some_iff] at done
  obtain ⟨first, flipped, done⟩ := done
  have belowFirst := flipColours_below below flipped
  split at done
  · simp only [bind_eq_some_iff] at done
    obtain ⟨rotated, right, flippedBack⟩ := done
    exact flipColours_below (rotateRight_annotated belowFirst right).below flippedBack
  · cases done
    exact belowFirst

variable {found : Option α} {ord : α → Int}

lemma insert_annotated {fresh : α} {note : δ} {update : α → α}
    (leaf : note = measure none fresh none) (annotated : Annotated measure h)
    (done : insert measure ord fresh note update h = some (t, found)) : Annotated measure t := by
  induction h generalizing t found with
  | nil =>
    cases done
    exact ⟨leaf, trivial, trivial⟩
  | node c l v m r left right =>
    obtain ⟨-, annotatedLeft, annotatedRight⟩ := annotated
    rw [insert] at done
    split at done
    · simp only [bind_eq_bind, bind_eq_some_iff] at done
      obtain ⟨⟨l', found'⟩, inserted, h, fixed, same⟩ := done
      cases same
      exact fixup_node_annotated (left annotatedLeft inserted) annotatedRight fixed
    · split at done
      · simp only [bind_eq_bind, bind_eq_some_iff] at done
        obtain ⟨⟨r', found'⟩, inserted, h, fixed, same⟩ := done
        cases same
        exact fixup_node_annotated annotatedLeft (right annotatedRight inserted) fixed
      · simp only [bind_eq_bind, bind_eq_some_iff] at done
        obtain ⟨h, fixed, same⟩ := done
        cases same
        exact fixup_node_annotated annotatedLeft annotatedRight fixed

lemma delMin_annotated {fuel : Nat} (annotated : Annotated measure h) (done : delMin measure fuel h = some t) :
    Annotated measure t := by
  induction fuel generalizing h t with
  | zero => cases done
  | succ fuel ih =>
    cases h with
    | nil => cases done
    | node c l v m r =>
      rw [delMin] at done
      split at done
      · cases done
        exact trivial
      · simp only [bind_eq_bind, bind_eq_some_iff] at done
        obtain ⟨h, prepared, done⟩ := done
        have below := below_of_ite annotated.below (moveRedLeft_below annotated.below) prepared
        cases h with
        | nil => cases done
        | node c l v m r =>
          obtain ⟨l', deleted, fixed⟩ := Option.bind_eq_some_iff.mp done
          exact fixup_node_annotated (ih below.1 deleted) below.2 fixed

lemma del_annotated {drop : α → Option α} {steal : α → α} {fuel : Nat}
    (annotated : Annotated measure h) (done : del measure ord drop steal fuel h = some (t, found)) :
    Annotated measure t := by
  induction fuel generalizing h t found with
  | zero => cases done
  | succ fuel ih =>
    cases h with
    | nil =>
      cases done
      exact trivial
    | node c l v m r =>
      rw [del] at done
      split at done
      · split at done
        · cases done
          exact annotated
        · simp only [bind_eq_bind, bind_eq_some_iff] at done
          obtain ⟨h, prepared, done⟩ := done
          have below := below_of_ite annotated.below (moveRedLeft_below annotated.below) prepared
          cases h with
          | nil => cases done
          | node c l v m r =>
            simp only [bind_eq_some_iff] at done
            obtain ⟨⟨l', found'⟩, deleted, h, fixed, same⟩ := done
            cases same
            exact fixup_node_annotated (ih below.1 deleted) below.2 fixed
      · simp only [bind_eq_bind, bind_eq_some_iff] at done
        obtain ⟨h, leaned, done⟩ := done
        have below := below_of_ite annotated.below
          (fun done => (rotateRight_annotated annotated.below done).below) leaned
        cases h with
        | nil => cases done
        | node c l v m r =>
          dsimp only at done
          split at done
          · split at done
            · cases done
              exact trivial
            · cases done
              exact ⟨rfl, below⟩
          · split at done
            · simp only [bind_eq_some_iff] at done
              obtain ⟨h, fixed, same⟩ := done
              cases same
              exact fixup_node_annotated below.1 below.2 fixed
            · simp only [bind_eq_some_iff] at done
              obtain ⟨h, prepared, done⟩ := done
              have below := below_of_ite below (moveRedRight_below below) prepared
              cases h with
              | nil => cases done
              | node c l v m r =>
                dsimp only at done
                split at done
                · split at done
                  · simp only [bind_eq_some_iff] at done
                    obtain ⟨s, least, r', deleted, h, fixed, same⟩ := done
                    cases same
                    exact fixup_node_annotated below.1 (delMin_annotated below.2 deleted) fixed
                  · simp only [bind_eq_some_iff] at done
                    obtain ⟨h, fixed, same⟩ := done
                    cases same
                    exact fixup_node_annotated below.1 below.2 fixed
                · simp only [bind_eq_some_iff] at done
                  obtain ⟨⟨r', found'⟩, deleted, h, fixed, same⟩ := done
                  cases same
                  exact fixup_node_annotated below.1 (ih below.2 deleted) fixed

end LibOp.Foundation.LlrbTree

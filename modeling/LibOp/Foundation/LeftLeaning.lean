import Mathlib

namespace LibOp.Foundation

open List Option

universe u

inductive Colour where
  | red
  | black
deriving DecidableEq

def Colour.flip : Colour → Colour
  | .red => .black
  | .black => .red

@[simp] lemma Colour.flip_red : Colour.red.flip = .black := rfl

@[simp] lemma Colour.flip_black : Colour.black.flip = .red := rfl

/-- A search tree with coloured nodes. `note` is computed from the value of the node and the notes of its children. -/
inductive LlrbTree (α δ : Type u) where
  | nil
  | node (colour : Colour) (left : LlrbTree α δ) (value : α) (note : δ) (right : LlrbTree α δ)
deriving DecidableEq

namespace LlrbTree

variable {α δ : Type u}

def isNil : LlrbTree α δ → Bool
  | nil => true
  | node _ _ _ _ _ => false

def isRed : LlrbTree α δ → Bool
  | node .red _ _ _ _ => true
  | _ => false

def left : LlrbTree α δ → LlrbTree α δ
  | nil => nil
  | node _ l _ _ _ => l

def right : LlrbTree α δ → LlrbTree α δ
  | nil => nil
  | node _ _ _ _ r => r

def note? : LlrbTree α δ → Option δ
  | nil => none
  | node _ _ _ m _ => some m

def toList : LlrbTree α δ → List α
  | nil => []
  | node _ l v _ r => l.toList ++ v :: r.toList

def size : LlrbTree α δ → Nat
  | nil => 0
  | node _ l _ _ r => l.size + 1 + r.size

def blacken : LlrbTree α δ → LlrbTree α δ
  | nil => nil
  | node _ l v m r => node .black l v m r

def toggle : LlrbTree α δ → LlrbTree α δ
  | nil => nil
  | node c l v m r => node c.flip l v m r

@[simp] lemma isRed_node (c : Colour) (l : LlrbTree α δ) (v : α) (m : δ) (r : LlrbTree α δ) :
    (node c l v m r).isRed = decide (c = .red) := by
  cases c <;> rfl

@[simp] lemma isRed_nil : (nil : LlrbTree α δ).isRed = false := rfl

@[simp] lemma isNil_nil : (nil : LlrbTree α δ).isNil = true := rfl

section

variable (c : Colour) (l : LlrbTree α δ) (v : α) (m : δ) (r : LlrbTree α δ)

include c l v m r

@[simp] lemma isNil_node : (node c l v m r).isNil = false := rfl

@[simp] lemma left_node : (node c l v m r).left = l := rfl

@[simp] lemma right_node : (node c l v m r).right = r := rfl

end

@[simp] lemma toList_nil : (nil : LlrbTree α δ).toList = [] := rfl

@[simp] lemma toList_node (c : Colour) (l : LlrbTree α δ) (v : α) (m : δ) (r : LlrbTree α δ) :
    (node c l v m r).toList = l.toList ++ v :: r.toList := rfl

@[simp] lemma toList_blacken (t : LlrbTree α δ) : t.blacken.toList = t.toList := by
  cases t <;> rfl

lemma isNil_iff_toList (t : LlrbTree α δ) : t.isNil = true ↔ t.toList = [] := by
  cases t <;> simp

lemma size_eq_length (t : LlrbTree α δ) : t.size = t.toList.length := by
  induction t with
  | nil => rfl
  | node c l v m r left right => simp [size, left, right]; omega

section Operations

variable (measure : Option δ → α → Option δ → δ)

def aug : LlrbTree α δ → LlrbTree α δ
  | nil => nil
  | node c l v _ r => node c l v (measure l.note? v r.note?) r

/-- `none` is the dereference of a null child, here and below. -/
def rotateLeft : LlrbTree α δ → Option (LlrbTree α δ)
  | node c l v m (node _ rl rv rm rr) => some (aug measure (node c (aug measure (node .red l v m rl)) rv rm rr))
  | _ => none

def rotateRight : LlrbTree α δ → Option (LlrbTree α δ)
  | node c (node _ ll lv lm lr) v m r => some (aug measure (node c ll lv lm (aug measure (node .red lr v m r))))
  | _ => none

def flipColours : LlrbTree α δ → Option (LlrbTree α δ)
  | node c (node cl ll lv lm lr) v m (node cr rl rv rm rr) =>
    some (node c.flip (node cl.flip ll lv lm lr) v m (node cr.flip rl rv rm rr))
  | _ => none

lemma flipColours_node (c cl cr : Colour) (ll lr rl rr : LlrbTree α δ) (v lv rv : α) (m lm rm : δ) :
    flipColours (node c (node cl ll lv lm lr) v m (node cr rl rv rm rr)) =
      some (node c.flip (node cl.flip ll lv lm lr) v m (node cr.flip rl rv rm rr)) :=
  rfl

def leanLeft (h : LlrbTree α δ) : Option (LlrbTree α δ) :=
  if h.right.isRed && !h.left.isRed then rotateLeft measure h else some h

def splitLeft (h : LlrbTree α δ) : Option (LlrbTree α δ) :=
  if h.left.isRed && h.left.left.isRed then rotateRight measure h else some h

def splitBoth (h : LlrbTree α δ) : Option (LlrbTree α δ) :=
  if h.left.isRed && h.right.isRed then flipColours h else some h

def fixup (h : LlrbTree α δ) : Option (LlrbTree α δ) :=
  if h.isNil then none
  else do
    let h ← leanLeft measure h
    let h ← splitLeft measure h
    let h ← splitBoth h
    some (aug measure h)

/-- `ord v` compares the new key with `v`: a new leaf `fresh`, or `update` of the value that compares equal, which is
also returned. -/
def insert (ord : α → Int) (fresh : α) (note : δ) (update : α → α) : LlrbTree α δ → Option (LlrbTree α δ × Option α)
  | nil => some (node .red nil fresh note nil, none)
  | node c l v m r =>
    if ord v < 0 then do
      let (l, found) ← l.insert ord fresh note update
      let h ← fixup measure (node c l v m r)
      some (h, found)
    else if ord v > 0 then do
      let (r, found) ← r.insert ord fresh note update
      let h ← fixup measure (node c l v m r)
      some (h, found)
    else do
      let h ← fixup measure (node c l (update v) m r)
      some (h, some v)

def moveRedLeft (h : LlrbTree α δ) : Option (LlrbTree α δ) := do
  let h ← flipColours h
  if h.right.left.isRed then
    match h with
    | nil => none
    | node c l v m r =>
      let r ← rotateRight measure r
      let h ← rotateLeft measure (node c l v m r)
      flipColours h
  else some h

def moveRedRight (h : LlrbTree α δ) : Option (LlrbTree α δ) := do
  let h ← flipColours h
  if h.left.left.isRed then
    let h ← rotateRight measure h
    flipColours h
  else some h

def prepareLeft (h : LlrbTree α δ) : Option (LlrbTree α δ) :=
  if !h.left.isRed && !h.left.left.isRed then moveRedLeft measure h else some h

def leanRight (h : LlrbTree α δ) : Option (LlrbTree α δ) :=
  if h.left.isRed then rotateRight measure h else some h

def prepareRight (h : LlrbTree α δ) : Option (LlrbTree α δ) :=
  if !h.right.isRed && !h.right.left.isRed then moveRedRight measure h else some h

def treeMin : LlrbTree α δ → Option α
  | nil => none
  | node _ l v _ _ => if l.isNil then some v else l.treeMin

def delMin : Nat → LlrbTree α δ → Option (LlrbTree α δ)
  | 0, _ => none
  | _ + 1, nil => none
  | fuel + 1, node c l v m r =>
    if l.isNil then some nil
    else do
      match ← prepareLeft measure (node c l v m r) with
      | nil => none
      | node c l v m r =>
        let l ← delMin fuel l
        fixup measure (node c l v m r)

/-- `ord v` compares the key with `v`. `drop v` is what is left of a value that compares equal, which is also returned,
`steal s` the value made of the successor `s`. The number bounds the recursion. -/
def del (ord : α → Int) (drop : α → Option α) (steal : α → α) : Nat → LlrbTree α δ → Option (LlrbTree α δ × Option α)
  | 0, _ => none
  | _ + 1, nil => some (nil, none)
  | fuel + 1, node c l v m r =>
    if ord v < 0 then
      if l.isNil then some (node c l v m r, none)
      else do
        match ← prepareLeft measure (node c l v m r) with
        | nil => none
        | node c l v m r =>
          let (l, found) ← del ord drop steal fuel l
          let h ← fixup measure (node c l v m r)
          some (h, found)
    else do
      match ← leanRight measure (node c l v m r) with
      | nil => none
      | node c l v m r =>
        if ord v = 0 ∧ r.isNil then
          match drop v with
          | none => some (nil, some v)
          | some rest => some (aug measure (node c l rest m r), some v)
        else if r.isNil then do
          let h ← fixup measure (node c l v m r)
          some (h, none)
        else do
          match ← prepareRight measure (node c l v m r) with
          | nil => none
          | node c l v m r =>
            if ord v = 0 then
              match drop v with
              | none =>
                let s ← r.treeMin
                let r ← delMin measure fuel r
                let h ← fixup measure (node c l (steal s) m r)
                some (h, some v)
              | some rest =>
                let h ← fixup measure (node c l rest m r)
                some (h, some v)
            else
              let (r, found) ← del ord drop steal fuel r
              let h ← fixup measure (node c l v m r)
              some (h, found)

end Operations

variable {measure : Option δ → α → Option δ → δ} {h t : LlrbTree α δ}

@[simp] lemma toList_aug (t : LlrbTree α δ) : (t.aug measure).toList = t.toList := by
  cases t <;> rfl

lemma rotateLeft_toList (done : rotateLeft measure h = some t) : t.toList = h.toList := by
  cases h with
  | nil => cases done
  | node c l v m r =>
    cases r with
    | nil => cases done
    | node cr rl rv rm rr =>
      cases done
      simp

lemma rotateRight_toList (done : rotateRight measure h = some t) : t.toList = h.toList := by
  cases h with
  | nil => cases done
  | node c l v m r =>
    cases l with
    | nil => cases done
    | node cl ll lv lm lr =>
      cases done
      simp

lemma flipColours_toList (done : flipColours h = some t) : t.toList = h.toList := by
  cases h with
  | nil => cases done
  | node c l v m r =>
    cases l with
    | nil => cases done
    | node cl ll lv lm lr =>
      cases r with
      | nil => cases done
      | node cr rl rv rm rr =>
        cases done
        rfl

lemma toList_of_ite {b : Bool} {f : LlrbTree α δ → Option (LlrbTree α δ)}
    (keeps : f h = some t → t.toList = h.toList) (done : (if b then f h else some h) = some t) :
    t.toList = h.toList := by
  split at done
  · exact keeps done
  · cases done
    rfl

lemma fixup_toList (done : fixup measure h = some t) : t.toList = h.toList := by
  rw [fixup] at done
  split at done
  · cases done
  · simp only [bind_eq_bind, bind_eq_some_iff] at done
    obtain ⟨first, leaned, second, balanced, third, flipped, same⟩ := done
    cases same
    rw [toList_aug, toList_of_ite flipColours_toList flipped, toList_of_ite rotateRight_toList balanced,
      toList_of_ite rotateLeft_toList leaned]

lemma moveRedLeft_toList (done : moveRedLeft measure h = some t) : t.toList = h.toList := by
  simp only [moveRedLeft, bind_eq_bind, bind_eq_some_iff] at done
  obtain ⟨first, flipped, done⟩ := done
  rw [← flipColours_toList flipped]
  split at done
  · cases first with
    | nil => cases done
    | node c l v m r =>
      simp only [bind_eq_some_iff] at done
      obtain ⟨turned, right, rotated, left, flippedBack⟩ := done
      rw [flipColours_toList flippedBack, rotateLeft_toList left, toList_node, rotateRight_toList right, toList_node]
  · cases done
    rfl

lemma moveRedRight_toList (done : moveRedRight measure h = some t) : t.toList = h.toList := by
  simp only [moveRedRight, bind_eq_bind, bind_eq_some_iff] at done
  obtain ⟨first, flipped, done⟩ := done
  rw [← flipColours_toList flipped]
  split at done
  · simp only [bind_eq_some_iff] at done
    obtain ⟨rotated, right, flippedBack⟩ := done
    rw [flipColours_toList flippedBack, rotateRight_toList right]
  · cases done
    rfl

lemma leanRight_toList (done : leanRight measure h = some t) : t.toList = h.toList :=
  toList_of_ite rotateRight_toList done

lemma prepareLeft_toList (done : prepareLeft measure h = some t) : t.toList = h.toList :=
  toList_of_ite moveRedLeft_toList done

lemma prepareRight_toList (done : prepareRight measure h = some t) : t.toList = h.toList :=
  toList_of_ite moveRedRight_toList done

end LlrbTree

section SortedLists

variable {α : Type u} {ord : α → Int}

/-- Along an ascending list, whatever stands before a value that is not greater than the key is smaller than the key. -/
def SortedFor (ord : α → Int) (l : List α) : Prop := l.Pairwise fun u v => 0 ≤ ord v → 0 < ord u

def insertSorted (ord : α → Int) (fresh : α) (update : α → α) : List α → List α
  | [] => [fresh]
  | v :: rest =>
    if ord v < 0 then fresh :: v :: rest
    else if ord v > 0 then v :: insertSorted ord fresh update rest
    else update v :: rest

def eraseSorted (ord : α → Int) (drop : α → Option α) : List α → List α
  | [] => []
  | v :: rest => if ord v = 0 then (drop v).toList ++ rest else v :: eraseSorted ord drop rest

structure SortedFor.Parts (ord : α → Int) (l : List α) (v : α) (r : List α) : Prop where
  left : SortedFor ord l
  right : SortedFor ord r
  below : 0 ≤ ord v → ∀ u ∈ l, 0 < ord u
  above : ord v ≤ 0 → ∀ w ∈ r, ord w < 0

lemma SortedFor.parts {l r : List α} {v : α} (sorted : SortedFor ord (l ++ v :: r)) : SortedFor.Parts ord l v r := by
  obtain ⟨left, rest, across⟩ := List.pairwise_append.mp sorted
  obtain ⟨after, right⟩ := List.pairwise_cons.mp rest
  refine ⟨left, right, fun reached u mem => across u mem v mem_cons_self reached, ?_⟩
  intro stopped w mem
  by_contra other
  have passed := after w mem (by omega)
  omega

variable {l : List α}

lemma find_eq_none_of_ne (absent : ∀ u ∈ l, ord u ≠ 0) : l.find? (fun v => ord v = 0) = none := by
  rw [find?_eq_none]
  intro u mem
  simpa using absent u mem

variable {update : α → α} {fresh : α}

lemma insertSorted_left (l r : List α) {v : α} (less : ord v < 0) :
    insertSorted ord fresh update (l ++ v :: r) = insertSorted ord fresh update l ++ v :: r := by
  induction l with
  | nil => simp [insertSorted, less]
  | cons u l ih =>
    simp only [cons_append, insertSorted, ih]
    split
    · rfl
    · split <;> rfl

lemma insertSorted_right (r : List α) (passed : ∀ u ∈ l, 0 < ord u) :
    insertSorted ord fresh update (l ++ r) = l ++ insertSorted ord fresh update r := by
  induction l with
  | nil => rfl
  | cons u l ih =>
    obtain ⟨first, others⟩ := List.forall_mem_cons.mp passed
    simp only [cons_append, insertSorted]
    rw [if_neg (by omega), if_pos first, ih others]

lemma insertSorted_ne_nil (fresh : α) (update : α → α) (l : List α) : insertSorted ord fresh update l ≠ [] := by
  cases l with
  | nil => simp [insertSorted]
  | cons v l =>
    simp only [insertSorted]
    split
    · simp
    · split <;> simp

lemma length_insertSorted (fresh : α) (update : α → α) (sorted : SortedFor ord l) :
    (insertSorted ord fresh update l).length = l.length + if (l.find? fun v => ord v = 0).isNone then 1 else 0 := by
  induction l with
  | nil => rfl
  | cons v l ih =>
    have parts := SortedFor.parts (l := []) sorted
    rw [insertSorted]
    split
    next less =>
      have absent : (v :: l).find? (fun v => ord v = 0) = none := by
        apply find_eq_none_of_ne
        exact List.forall_mem_cons.mpr
          ⟨Int.ne_of_lt less, fun u later => Int.ne_of_lt (parts.above (Int.le_of_lt less) u later)⟩
      rw [absent]
      rfl
    next notLess =>
      split
      next greater =>
        rw [find?_cons_of_neg (by simpa using Int.ne_of_gt greater), length_cons, ih parts.right,
          length_cons, Nat.add_right_comm]
      next notGreater =>
        have equal : ord v = 0 := by omega
        rw [find?_cons_of_pos (by simpa using equal)]
        rfl

lemma mem_insertSorted {fresh w : α} (mem : w ∈ insertSorted ord fresh update l) :
    w = fresh ∨ w ∈ l ∨ ∃ v ∈ l, ord v = 0 ∧ w = update v := by
  induction l with
  | nil => exact .inl (List.mem_singleton.mp mem)
  | cons v l ih =>
    rw [insertSorted] at mem
    split at mem
    · rcases List.mem_cons.mp mem with same | later
      · exact .inl same
      · exact .inr (.inl later)
    · split at mem
      · rcases List.mem_cons.mp mem with same | later
        · exact .inr (.inl (same ▸ mem_cons_self))
        · rcases ih later with new | old | ⟨u, inside, equal, same⟩
          · exact .inl new
          · exact .inr (.inl (mem_cons_of_mem v old))
          · exact .inr (.inr ⟨u, mem_cons_of_mem v inside, equal, same⟩)
      · rcases List.mem_cons.mp mem with same | later
        · exact .inr (.inr ⟨v, mem_cons_self, by omega, same⟩)
        · exact .inr (.inl (mem_cons_of_mem v later))

structure InsertLaws (R : α → α → Prop) (ord : α → Int) (fresh : α) (update : α → α) : Prop where
  trans : ∀ u v w, R u v → R v w → R u w
  before : ∀ v, ord v < 0 → R fresh v
  after : ∀ v, 0 < ord v → R v fresh
  updateLeft : ∀ v w, ord v = 0 → R v w → R (update v) w
  updateRight : ∀ u v, ord v = 0 → R u v → R u (update v)

lemma pairwise_insertSorted (laws : InsertLaws R ord fresh update)
    (sorted : l.Pairwise R) : (insertSorted ord fresh update l).Pairwise R := by
  induction l with
  | nil => exact pairwise_singleton R fresh
  | cons v l ih =>
    obtain ⟨first, rest⟩ := List.pairwise_cons.mp sorted
    rw [insertSorted]
    split
    next less =>
      have before := laws.before v less
      exact .cons (List.forall_mem_cons.mpr ⟨before, fun w later => laws.trans fresh v w before (first w later)⟩) sorted
    next notLess =>
      split
      next greater =>
        apply List.Pairwise.cons _ (ih rest)
        intro w mem
        rcases mem_insertSorted mem with rfl | old | ⟨u, inside, equal, rfl⟩
        · exact laws.after v greater
        · exact first w old
        · exact laws.updateRight v u equal (first u inside)
      next notGreater =>
        apply List.Pairwise.cons _ rest
        intro w mem
        exact laws.updateLeft v w (by omega) (first w mem)

variable {drop : α → Option α}

lemma map_eraseSorted_sublist {β : Type*} {f : α → β} (keeps : ∀ v rest, drop v = some rest → f rest = f v)
    (l : List α) : ((eraseSorted ord drop l).map f).Sublist (l.map f) := by
  induction l with
  | nil => exact List.Sublist.refl []
  | cons v l ih =>
    rw [eraseSorted]
    split
    · cases kept : drop v with
      | none => exact sublist_cons_self (f v) (l.map f)
      | some rest => rw [toList_some, singleton_append, map_cons, map_cons, keeps v rest kept]
    · exact ih.cons_cons (f v)

lemma eraseSorted_eq_eraseP (l : List α) : eraseSorted ord (fun _ => none) l = l.eraseP fun v => ord v = 0 := by
  induction l with
  | nil => rfl
  | cons v l ih =>
    rw [eraseSorted, eraseP_cons, ih]
    simp

lemma eraseSorted_of_ne (absent : ∀ u ∈ l, ord u ≠ 0) : eraseSorted ord drop l = l := by
  induction l with
  | nil => rfl
  | cons u l ih =>
    obtain ⟨first, others⟩ := List.forall_mem_cons.mp absent
    rw [eraseSorted, if_neg first, ih others]

lemma eraseSorted_left (l : List α) {r : List α} (absent : ∀ u ∈ r, ord u ≠ 0) :
    eraseSorted ord drop (l ++ r) = eraseSorted ord drop l ++ r := by
  induction l with
  | nil => exact eraseSorted_of_ne absent
  | cons u l ih =>
    simp only [cons_append, eraseSorted, ih]
    split
    · rw [append_assoc]
    · rfl

lemma eraseSorted_right (r : List α) (absent : ∀ u ∈ l, ord u ≠ 0) :
    eraseSorted ord drop (l ++ r) = l ++ eraseSorted ord drop r := by
  induction l with
  | nil => rfl
  | cons u l ih =>
    obtain ⟨first, others⟩ := List.forall_mem_cons.mp absent
    simp only [cons_append, eraseSorted]
    rw [if_neg first, ih others]

end SortedLists

namespace LlrbTree

variable {α δ : Type u} {measure : Option δ → α → Option δ → δ} {ord : α → Int} {fresh : α} {note : δ}
  {update : α → α}

lemma insert_toList {found : Option α} (sorted : SortedFor ord t.toList)
    (done : insert measure ord fresh note update t = some (t', found)) :
    t'.toList = insertSorted ord fresh update t.toList ∧ found = t.toList.find? (fun v => ord v = 0) := by
  induction t generalizing t' found with
  | nil =>
    cases done
    exact ⟨rfl, rfl⟩
  | node c l v m r left right =>
    obtain ⟨sortedLeft, sortedRight, below, above⟩ := SortedFor.parts sorted
    rw [insert] at done
    split at done
    next less =>
      simp only [bind_eq_bind, bind_eq_some_iff] at done
      obtain ⟨⟨l', found'⟩, inserted, h, fixed, same⟩ := done
      cases same
      obtain ⟨contents, search⟩ := left sortedLeft inserted
      have absent : (v :: r.toList).find? (fun u => ord u = 0) = none := by
        apply find_eq_none_of_ne
        exact List.forall_mem_cons.mpr ⟨by omega, fun u mem => Int.ne_of_lt (above (by omega) u mem)⟩
      rw [fixup_toList fixed, toList_node, toList_node, contents, insertSorted_left _ _ less, find?_append,
        absent, search, or_none]
      exact ⟨rfl, rfl⟩
    next notLess =>
      have passed := below (by omega)
      have absent : l.toList.find? (fun u => ord u = 0) = none :=
        find_eq_none_of_ne fun u mem => Int.ne_of_gt (passed u mem)
      split at done
      next greater =>
        simp only [bind_eq_bind, bind_eq_some_iff] at done
        obtain ⟨⟨r', found'⟩, inserted, h, fixed, same⟩ := done
        cases same
        obtain ⟨contents, search⟩ := right sortedRight inserted
        rw [fixup_toList fixed, toList_node, toList_node, contents, insertSorted_right _ passed, find?_append,
          absent, search, insertSorted, if_neg notLess, if_pos greater, none_or,
          find?_cons_of_neg (by simpa using Int.ne_of_gt greater)]
        exact ⟨rfl, rfl⟩
      next notGreater =>
        have equal : ord v = 0 := by omega
        simp only [bind_eq_bind, bind_eq_some_iff] at done
        obtain ⟨h, fixed, same⟩ := done
        cases same
        rw [fixup_toList fixed, toList_node, toList_node, insertSorted_right _ passed, find?_append, absent,
          insertSorted, if_neg notLess, if_neg notGreater, none_or, find?_cons_of_pos (by simpa using equal)]
        exact ⟨rfl, rfl⟩

end LlrbTree

end LibOp.Foundation

import Mathlib

namespace LibOp.Foundation.BinaryHeap

variable {σ κ : Type*}

/-- An array inside a state, by the keys of its cells and their exchange. -/
structure Exchange (σ κ : Type*) where
  key : σ → Nat → κ
  swap : σ → Nat → Nat → σ
  key_swap : ∀ s i j k, key (swap s i j) k = if k = i then key s j else if k = j then key s i else key s k

variable [LinearOrder κ] (x : Exchange σ κ)

namespace Exchange

def siftUpLoop : Nat → σ → Nat → σ
  | 0, s, _ => s
  | fuel + 1, s, i =>
    if 0 < i then
      let parent := (i - 1) / 2
      if x.key s parent ≤ x.key s i then s else siftUpLoop fuel (x.swap s parent i) parent
    else s

def siftUp (s : σ) (i : Nat) : σ := x.siftUpLoop i s i

/-- The least of a cell and its children, the cell before the left and that before the right. -/
def least (n : Nat) (s : σ) (i : Nat) : Nat :=
  let left := 2 * i + 1
  let right := 2 * i + 2
  let min := if left < n ∧ x.key s left < x.key s i then left else i
  if right < n ∧ x.key s right < x.key s min then right else min

def siftDownLoop (n : Nat) : Nat → σ → Nat → σ
  | 0, s, _ => s
  | fuel + 1, s, i =>
    let min := x.least n s i
    if min = i then s else siftDownLoop n fuel (x.swap s min i) min

def siftDown (n : Nat) (s : σ) (i : Nat) : σ := x.siftDownLoop n (n - i) s i

def heapifyLoop (n : Nat) : Nat → σ → σ
  | 0, s => s
  | count + 1, s => heapifyLoop n count (x.siftDown n s count)

def heapify (n : Nat) (s : σ) : σ := x.heapifyLoop n (n / 2) s

end Exchange

def OrderedFrom (low : Nat) (key : Nat → κ) (n : Nat) : Prop :=
  ∀ j, 0 < j → j < n → low ≤ (j - 1) / 2 → key ((j - 1) / 2) ≤ key j

def Ordered (key : Nat → κ) (n : Nat) : Prop := OrderedFrom 0 key n

variable {low n i : Nat} {key : Nat → κ} {j : Nat}

lemma Ordered.edge (ordered : Ordered key n) (pos : 0 < j) (below : j < n) :
    key ((j - 1) / 2) ≤ key j := ordered j pos below (Nat.zero_le _)

lemma Ordered.root_le (ordered : Ordered key n) (below : j < n) : key 0 ≤ key j := by
  induction j using Nat.strongRecOn with
  | ind j ih =>
    by_cases root : j = 0
    · rw [root]
    · exact (ih ((j - 1) / 2) (by omega) (by omega)).trans (ordered.edge (by omega) below)

/-- Everything is in order but the edges at `i`, and its parent is with its children. -/
structure Displaced (key : Nat → κ) (n i : Nat) : Prop where
  edges : ∀ j, 0 < j → j < n → j ≠ i → (j - 1) / 2 ≠ i → key ((j - 1) / 2) ≤ key j
  across : 0 < i → ∀ c, 0 < c → c < n → (c - 1) / 2 = i → key ((i - 1) / 2) ≤ key c

lemma Ordered.displaced (ordered : Ordered key n)
    (same : ∀ j, j < n → j ≠ i → other j = key j) (below : i < n) : Displaced other n i where
  edges j pos inside differs apart := by
    rw [same j inside differs, same _ (by omega) apart]
    exact ordered.edge pos inside
  across pos c child inside parent := by
    rw [same c inside (by omega), same _ (by omega) (by omega)]
    apply (ordered.edge pos below).trans
    rw [← parent]
    exact ordered.edge child inside

structure Rising (key : Nat → κ) (n i : Nat) : Prop where
  edges : ∀ j, 0 < j → j < n → j ≠ i → key ((j - 1) / 2) ≤ key j
  across : 0 < i → ∀ c, 0 < c → c < n → (c - 1) / 2 = i → key ((i - 1) / 2) ≤ key c

structure Sinking (low : Nat) (key : Nat → κ) (n i : Nat) : Prop where
  edges : ∀ j, 0 < j → j < n → low ≤ (j - 1) / 2 → (j - 1) / 2 ≠ i → key ((j - 1) / 2) ≤ key j
  across : 0 < i → low ≤ (i - 1) / 2 → ∀ c, 0 < c → c < n → (c - 1) / 2 = i → key ((i - 1) / 2) ≤ key c

lemma Ordered.sinking (ordered : Ordered key n) (i : Nat) : Sinking 0 key n i where
  edges _ pos below _ _ := ordered.edge pos below
  across pos _ c child below parent := by
    apply (ordered.edge pos (by omega)).trans
    rw [← parent]
    exact ordered.edge child below

variable {x} {s : σ}

lemma Rising.swap (rising : Rising (x.key s) n i) (pos : 0 < i) (below : i < n)
    (smaller : x.key s i < x.key s ((i - 1) / 2)) : Rising (x.key (x.swap s ((i - 1) / 2) i)) n ((i - 1) / 2) where
  edges j child inside differs := by
    simp only [x.key_swap]
    rw [if_neg differs]
    by_cases self : j = i
    · rw [self, if_pos rfl, if_pos rfl]
      exact smaller.le
    rw [if_neg self]
    by_cases sibling : (j - 1) / 2 = (i - 1) / 2
    · have above := rising.edges j child inside self
      rw [if_pos sibling]
      rw [sibling] at above
      exact smaller.le.trans above
    rw [if_neg sibling]
    by_cases beneath : (j - 1) / 2 = i
    · rw [if_pos beneath]
      exact rising.across pos j child inside beneath
    · rw [if_neg beneath]
      exact rising.edges j child inside self
  across high c child inside parent := by
    simp only [x.key_swap]
    have above := rising.edges ((i - 1) / 2) high (Nat.lt_of_le_of_lt (by omega) below) (by omega)
    rw [if_neg (by omega), if_neg (by omega), if_neg (by omega : c ≠ (i - 1) / 2)]
    by_cases self : c = i
    · rw [if_pos self]
      exact above
    · have beside := rising.edges c child inside self
      rw [if_neg self]
      rw [parent] at beside
      exact above.trans beside

lemma Rising.ordered (rising : Rising key n i) (above : 0 < i → key ((i - 1) / 2) ≤ key i) : Ordered key n := by
  intro j pos below _
  by_cases self : j = i
  · rw [self] at pos ⊢
    exact above pos
  · exact rising.edges j pos below self

variable {fuel : Nat}

lemma siftUpLoop_ordered (enough : i ≤ fuel) (below : i < n) (rising : Rising (x.key s) n i) :
    Ordered (x.key (x.siftUpLoop fuel s i)) n := by
  induction fuel generalizing s i with
  | zero => exact rising.ordered fun pos => absurd pos (by omega)
  | succ fuel ih =>
    rw [Exchange.siftUpLoop]
    split
    next pos =>
      dsimp only
      split
      next above => exact rising.ordered fun _ => above
      next smaller =>
        apply ih (by omega) (by omega)
        exact rising.swap pos below (lt_of_not_ge smaller)
    next root => exact rising.ordered fun pos => absurd pos root

lemma siftUp_ordered (below : i < n) (rising : Rising (x.key s) n i) : Ordered (x.key (x.siftUp s i)) n :=
  siftUpLoop_ordered (Nat.le_refl i) below rising

lemma siftUp_of_le (above : 0 < i → x.key s ((i - 1) / 2) ≤ x.key s i) : x.siftUp s i = s := by
  cases i with
  | zero => rfl
  | succ i => exact if_pos (above (Nat.succ_pos i))

lemma least_cases (x : Exchange σ κ) (n : Nat) (s : σ) (i : Nat) :
    (∀ c, 0 < c → c < n → (c - 1) / 2 = i → x.key s (x.least n s i) ≤ x.key s c) ∧ (x.least n s i = i ∨
        i < x.least n s i ∧ x.least n s i < n ∧ (x.least n s i - 1) / 2 = i ∧
          x.key s (x.least n s i) < x.key s i) := by
  have both {m : Nat} (left : 2 * i + 1 < n → x.key s m ≤ x.key s (2 * i + 1))
      (right : 2 * i + 2 < n → x.key s m ≤ x.key s (2 * i + 2)) (c : Nat) (pos : 0 < c) (inside : c < n)
      (parent : (c - 1) / 2 = i) : x.key s m ≤ x.key s c := by
    obtain rfl | rfl : c = 2 * i + 1 ∨ c = 2 * i + 2 := by omega
    · exact left inside
    · exact right inside
  unfold Exchange.least
  dsimp only
  by_cases left : 2 * i + 1 < n ∧ x.key s (2 * i + 1) < x.key s i
  · rw [if_pos left]
    by_cases right : 2 * i + 2 < n ∧ x.key s (2 * i + 2) < x.key s (2 * i + 1)
    · rw [if_pos right]
      apply And.intro (both (fun _ => right.2.le) fun _ => le_rfl)
      exact .inr ⟨by omega, right.1, by omega, right.2.trans left.2⟩
    · rw [if_neg right]
      apply And.intro (both (fun _ => le_rfl) fun inside => le_of_not_gt fun smaller => right ⟨inside, smaller⟩)
      exact .inr ⟨by omega, left.1, by omega, left.2⟩
  · rw [if_neg left]
    have kept (inside : 2 * i + 1 < n) : x.key s i ≤ x.key s (2 * i + 1) :=
      le_of_not_gt fun smaller => left ⟨inside, smaller⟩
    by_cases right : 2 * i + 2 < n ∧ x.key s (2 * i + 2) < x.key s i
    · rw [if_pos right]
      apply And.intro (both (fun inside => right.2.le.trans (kept inside)) fun _ => le_rfl)
      exact .inr ⟨by omega, right.1, by omega, right.2⟩
    · rw [if_neg right]
      apply And.intro (both kept fun inside => le_of_not_gt fun smaller => right ⟨inside, smaller⟩)
      exact .inl rfl

lemma Sinking.swap {min : Nat} (sinking : Sinking low (x.key s) n i) (below : min < n) (pos : 0 < min)
    (parent : (min - 1) / 2 = i) (smaller : x.key s min < x.key s i)
    (least : ∀ c, 0 < c → c < n → (c - 1) / 2 = i → x.key s min ≤ x.key s c) :
    Sinking low (x.key (x.swap s min i)) n min where
  edges j child inside fromLow apart := by
    simp only [x.key_swap]
    rw [if_neg apart]
    by_cases moved : j = min
    · rw [moved, if_pos parent, if_pos rfl]
      exact smaller.le
    rw [if_neg moved]
    by_cases self : j = i
    · rw [self] at child fromLow ⊢
      rw [if_neg (by omega), if_pos rfl]
      exact sinking.across child fromLow min pos below parent
    rw [if_neg self]
    by_cases sibling : (j - 1) / 2 = i
    · rw [if_pos sibling]
      exact least j child inside sibling
    · rw [if_neg sibling]
      exact sinking.edges j child inside fromLow sibling
  across _ fromLow c child inside beneath := by
    simp only [x.key_swap]
    rw [if_neg (by omega), if_pos parent, if_neg (by omega), if_neg (by omega)]
    have edge := sinking.edges c child inside (by omega) (by omega)
    rw [beneath] at edge
    exact edge

lemma siftDownLoop_ordered (enough : n ≤ i + fuel) (sinking : Sinking low (x.key s) n i) :
    OrderedFrom low (x.key (x.siftDownLoop n fuel s i)) n := by
  induction fuel generalizing s i with
  | zero => exact fun j pos below fromLow => sinking.edges j pos below fromLow (by omega)
  | succ fuel ih =>
    obtain ⟨least, place⟩ := least_cases x n s i
    rw [Exchange.siftDownLoop]
    split
    next stays =>
      rw [stays] at least
      intro j pos below fromLow
      by_cases child : (j - 1) / 2 = i
      · rw [child]
        exact least j pos below child
      · exact sinking.edges j pos below fromLow child
    next moves =>
      obtain ⟨beyond, below, parent, smaller⟩ := place.resolve_left moves
      apply ih (by omega)
      exact sinking.swap below (by omega) parent smaller least

lemma siftDown_ordered (sinking : Sinking low (x.key s) n i) : OrderedFrom low (x.key (x.siftDown n s i)) n :=
  siftDownLoop_ordered (by omega) sinking

lemma resift_ordered (displaced : Displaced (x.key s) n i) (below : i < n)
    (stays : x.siftUp s i = s → j = i) : Ordered (x.key (x.siftDown n (x.siftUp s i) j)) n := by
  by_cases above : 0 < i → x.key s ((i - 1) / 2) ≤ x.key s i
  · have same := siftUp_of_le above
    rw [stays same, same]
    apply siftDown_ordered
    exact
      { edges := by
          intro j pos inside _ apart
          by_cases self : j = i
          · rw [self] at pos ⊢
            exact above pos
          · exact displaced.edges j pos inside self apart
        across := fun pos _ => displaced.across pos }
  · obtain ⟨pos, smaller⟩ := Classical.not_imp.mp above
    have rising : Rising (x.key s) n i :=
      { edges := by
          intro j child inside self
          by_cases beneath : (j - 1) / 2 = i
          · rw [beneath]
            exact (lt_of_not_ge smaller).le.trans (displaced.across pos j child inside beneath)
          · exact displaced.edges j child inside self beneath
        across := displaced.across }
    exact siftDown_ordered ((siftUp_ordered below rising).sinking j)

lemma heapifyLoop_ordered (ordered : OrderedFrom count (x.key s) n) : Ordered (x.key (x.heapifyLoop n count s)) n := by
  induction count generalizing s with
  | zero => exact ordered
  | succ count ih =>
    apply ih
    apply siftDown_ordered
    exact
      { edges := fun j pos below fromLow apart => ordered j pos below (by omega)
        across := fun pos fromLow => absurd fromLow (by omega) }

lemma heapify_ordered (x : Exchange σ κ) (n : Nat) (s : σ) : Ordered (x.key (x.heapify n s)) n :=
  heapifyLoop_ordered fun _ _ _ _ => absurd ‹_› (by omega)

variable {P : σ → Prop} (swaps : ∀ s i j, i < n → j < n → i ≠ j → P s → P (x.swap s i j))

include swaps

section

variable (below : i < n) (holds : P s)

include below holds

lemma siftUpLoop_preserves : P (x.siftUpLoop fuel s i) := by
  induction fuel generalizing s i with
  | zero => exact holds
  | succ fuel ih =>
    rw [Exchange.siftUpLoop]
    split
    · dsimp only
      split
      · exact holds
      · exact ih (by omega) (swaps s _ _ (by omega) below (by omega) holds)
    · exact holds

lemma siftUp_preserves : P (x.siftUp s i) :=
  siftUpLoop_preserves swaps below holds

lemma siftDownLoop_preserves : P (x.siftDownLoop n fuel s i) := by
  induction fuel generalizing s i with
  | zero => exact holds
  | succ fuel ih =>
    rw [Exchange.siftDownLoop]
    split
    · exact holds
    next moves =>
      obtain ⟨-, inside, -⟩ := (least_cases x n s i).2.resolve_left moves
      exact ih inside (swaps s _ _ inside below moves holds)

lemma siftDown_preserves : P (x.siftDown n s i) :=
  siftDownLoop_preserves swaps below holds

end

lemma heapifyLoop_preserves (atMost : count ≤ n) (holds : P s) : P (x.heapifyLoop n count s) := by
  induction count generalizing s with
  | zero => exact holds
  | succ count ih => exact ih (by omega) (siftDown_preserves swaps atMost holds)

lemma heapify_preserves (holds : P s) : P (x.heapify n s) :=
  heapifyLoop_preserves swaps (Nat.div_le_self n 2) holds

end LibOp.Foundation.BinaryHeap

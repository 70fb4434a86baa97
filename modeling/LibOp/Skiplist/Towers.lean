import LibOp.Skiplist.Links

namespace LibOp.Skiplist

open Foundation List OpSkiplist

section

def trail (l : List Nat) : List Loc := .head :: l.map .node

def lastLoc (l : List Nat) : Loc := l.getLast?.elim .head .node

lemma trail_append (l r : List Nat) : trail (l ++ r) = trail l ++ r.map .node := by
  simp [trail]

lemma trail_eq (l : List Nat) : ∃ front, trail l = front ++ [lastLoc l] := by
  rcases eq_nil_or_concat l with rfl | ⟨rest, a, rfl⟩
  · exact ⟨[], rfl⟩
  · exact ⟨trail rest, by simp [trail, lastLoc]⟩

lemma trail_append_last (l : List Nat) :
    ∃ front, ∀ r : List Nat, trail (l ++ r) = front ++ lastLoc l :: r.map .node := by
  obtain ⟨front, shape⟩ := trail_eq l
  refine ⟨front, fun r => ?_⟩
  rw [trail_append, shape, append_assoc, singleton_append]

variable {l : List Nat} {a : Nat}

lemma node_mem_trail : Loc.node a ∈ trail l ↔ a ∈ l := by
  simp [trail]

lemma trail_nodup (nodup : l.Nodup) : (trail l).Nodup := by
  apply List.nodup_cons.mpr
  constructor
  · simp
  · exact List.Nodup.map (fun _ _ same => Loc.node.inj same) nodup

lemma lastLoc_mem_trail (within : l.Sublist r) : lastLoc l ∈ trail r := by
  obtain ⟨front, shape⟩ := trail_eq l
  have mem : lastLoc l ∈ trail l := by
    rw [shape]
    simp
  exact ((within.map Loc.node).cons_cons Loc.head).subset mem

variable {x : Loc}

lemma trail_split (mem : x ∈ trail l) : ∃ (front : List Loc) (rest : List Nat), trail l = front ++ x :: rest.map .node ∧
      lastLoc l = rest.getLast?.elim x .node ∧ rest.Sublist l := by
  cases x with
  | head => exact ⟨[], l, rfl, rfl, List.Sublist.refl l⟩
  | node a =>
    obtain ⟨before, after, rfl⟩ := append_of_mem (node_mem_trail.mp mem)
    refine ⟨trail before, after, ?_, ?_, ?_⟩
    · rw [trail_append]
      rfl
    · simp only [lastLoc, getLast?_append, getLast?_cons]
      cases after.getLast? <;> rfl
    · exact (sublist_cons_self a after).trans (sublist_append_right before (a :: after))

end

variable {P : Type}

def View.onLevel (v : View P) (i : Nat) (l : List Nat) : List Nat := l.filter fun a => decide (i < v.height a)

lemma View.onLevel_append (v : View P) (i : Nat) (l r : List Nat) :
    v.onLevel i (l ++ r) = v.onLevel i l ++ v.onLevel i r := filter_append _ _

variable {i : Nat} {v : View P}

lemma View.mem_onLevel : a ∈ v.onLevel i l ↔ a ∈ l ∧ i < v.height a := by
  simp [View.onLevel]

lemma View.onLevel_sublist (v : View P) (i : Nat) (l : List Nat) : (v.onLevel i l).Sublist l := filter_sublist

lemma View.onLevel_succ (v : View P) (i : Nat) (l : List Nat) : (v.onLevel (i + 1) l).Sublist (v.onLevel i l) := by
  apply monotone_filter_right
  intro a tall
  rw [decide_eq_true_eq] at tall ⊢
  omega

lemma View.onLevel_eq_nil (short : ∀ a ∈ l, v.height a ≤ i) : v.onLevel i l = [] := by
  apply List.filter_eq_nil_iff.mpr
  intro a mem
  simpa using short a mem

lemma View.height_le_of_empty
    (chain : LinkedFrom (v.next i) (some .head) (trail (v.onLevel i l))) (empty : v.next i .head = none) :
    ∀ a ∈ l, v.height a ≤ i := by
  have rest := chain.2
  rw [empty] at rest
  have none := List.map_eq_nil_iff.mp rest.eq_nil
  intro a mem
  by_contra high
  have reached := View.mem_onLevel.mpr ⟨mem, Nat.not_le.mp high⟩
  rw [none] at reached
  cases reached

/-- Each level links the nodes that reach it; the backward links and the tail mirror level 0. -/
structure Towers (v : View P) (l : List Nat) : Prop where
  nodup : l.Nodup
  stored : ∀ a, (v.entry a).isSome = true ↔ a ∈ l
  tall : ∀ a ∈ l, 0 < v.height a ∧ v.height a ≤ v.level
  level : 0 < v.level ∧ v.level ≤ skiplistMaxLevel
  headLength : v.headLength = skiplistMaxLevel
  chains : ∀ i < skiplistMaxLevel, LinkedFrom (v.next i) (some .head) (trail (v.onLevel i l))
  back : LinkedFrom v.back (some (lastLoc l)) (trail l).reverse
  tail : v.tail = l.getLast?
  size : v.size = l.length
  unused : ∀ a ∈ l, a < v.unused

namespace Towers

variable {v : View P} {l : List Nat} {r : List Nat} {i : Nat}

variable (towers : Towers v l)

include towers

lemma onLevel_zero (within : r.Sublist l) : v.onLevel 0 r = r := by
  apply List.filter_eq_self.mpr
  intro a mem
  simpa using (towers.tall a (within.subset mem)).1

lemma onLevel_top (within : r.Sublist l) (high : v.level ≤ i) : v.onLevel i r = [] := by
  apply View.onLevel_eq_nil
  intro a mem
  exact Nat.le_trans (towers.tall a (within.subset mem)).2 high

lemma slot (bound : i < skiplistMaxLevel) (mem : x ∈ trail (v.onLevel i l)) : v.Slot i x := by
  cases x with
  | head =>
    unfold View.Slot
    rw [towers.headLength]
    exact bound
  | node a => exact (View.mem_onLevel.mp (node_mem_trail.mp mem)).2

lemma chain (bound : i < skiplistMaxLevel)
    (shape : trail (v.onLevel i l) = front ++ x :: rest) : LinkedFrom (v.next i) (v.next i x) rest := by
  have whole := towers.chains i bound
  rw [shape] at whole
  exact whole.after

omit towers in
lemma prev_eq (towers : Towers v (l ++ a :: r)) : v.back (.node a) = some (lastLoc l) := by
  obtain ⟨front, shape⟩ := trail_eq l
  have chain := towers.back
  rw [trail_append, shape] at chain
  simp only [map_cons, reverse_append, reverse_cons, append_assoc, singleton_append] at chain
  exact chain.after.start_eq

lemma unused_fresh : v.unused ∉ l := by
  intro mem
  exact Nat.lt_irrefl _ (towers.unused _ mem)

end Towers

lemma create_towers (cmp : P → P → Int) : Towers (opSkiplistCreate cmp).view [] where
  nodup := nodup_nil
  stored a := by simp [opSkiplistCreate, view]
  tall a mem := by cases mem
  level := ⟨Nat.one_pos, (by decide : 1 ≤ skiplistMaxLevel)⟩
  headLength := by simp [opSkiplistCreate, view]
  chains i bound := by
    have slot : (List.replicate skiplistMaxLevel (none : Option Nat))[i]? = some none := by simp [bound]
    simp [trail, View.onLevel, opSkiplistCreate, view, forward, slot]
  back := by simp [trail, lastLoc, opSkiplistCreate, view]
  tail := rfl
  size := rfl
  unused a mem := by cases mem

end LibOp.Skiplist

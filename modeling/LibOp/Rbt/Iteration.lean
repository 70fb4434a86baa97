import LibOp.Rbt.Refinement

namespace LibOp.Foundation.LlrbTree

universe u

variable {α δ : Type u} {c : Colour} {n : Nat} {t : LlrbTree α δ}

def height : LlrbTree α δ → Nat
  | nil => 0
  | node _ l _ _ r => max l.height r.height + 1

lemma Balanced.height_le (balanced : Balanced c n t) : t.height ≤ 2 * n + if c = .red then 1 else 0 := by
  induction balanced with
  | nil => exact Nat.le_refl 0
  | red _ _ low high =>
    simp only [height, reduceCtorEq, if_false, if_true] at low high ⊢
    omega
  | black _ _ low high =>
    simp only [height, reduceCtorEq, if_false] at high ⊢
    split at low <;> omega

lemma Balanced.two_pow_le (balanced : Balanced c n t) : 2 ^ n ≤ t.toList.length + 1 := by
  induction balanced with
  | nil => exact Nat.le_refl 1
  | red _ _ low high =>
    rw [toList_node, List.length_append, List.length_cons]
    omega
  | black _ _ low high =>
    rw [toList_node, List.length_append, List.length_cons, Nat.pow_succ]
    omega

lemma Balanced.height_le_sixtyFour (balanced : Balanced .black n t) (few : t.toList.length < 2 ^ 32) :
    t.height ≤ 64 := by
  have atMost := balanced.height_le
  have pow : 2 ^ n < 2 ^ 33 := Nat.lt_of_le_of_lt balanced.two_pow_le (by omega)
  have small : n < 33 := (Nat.pow_lt_pow_iff_right Nat.one_lt_two).mp pow
  simp only [reduceCtorEq, if_false] at atMost
  omega

end LibOp.Foundation.LlrbTree

namespace LibOp.Rbt

open Foundation List

variable {P : Type}

def OP_RBT_ITER_DEPTH : Nat := 64

/-- The stack, the top first; `sp` is its length less one. -/
abbrev OpRbtIter (P : Type) := List (RbtNode P)

def pushLeft (it : OpRbtIter P) : RbtNode P → OpRbtIter P
  | .nil => it
  | .node c l e m r => if it.length < OP_RBT_ITER_DEPTH then pushLeft (.node c l e m r :: it) l else it

def opRbtIterInit (t : OpRbt P) : OpRbtIter P := pushLeft [] t.root

def iterLowerLoop (cmp : P → P → Int) (lower : P) (it : OpRbtIter P) : RbtNode P → OpRbtIter P
  | .nil => it
  | .node c l e m r =>
    if it.length < OP_RBT_ITER_DEPTH then
      if cmp lower e.key ≤ 0 then iterLowerLoop cmp lower (.node c l e m r :: it) l
      else iterLowerLoop cmp lower it r
    else it

def opRbtIterLower (t : OpRbt P) (lower : P) : OpRbtIter P := iterLowerLoop t.cmp lower [] t.root

def opRbtIterNext : OpRbtIter P → Option (RbtEntry P × OpRbtIter P)
  | .node _ _ e _ r :: it => some (e, pushLeft it r)
  | _ => none

/-- The entries of at most `calls` calls, and whether the last returned `false`. -/
def iterEntries : Nat → OpRbtIter P → List (RbtEntry P) × Bool
  | 0, _ => ([], false)
  | calls + 1, it =>
    match opRbtIterNext it with
    | none => ([], true)
    | some (e, it) => (e :: (iterEntries calls it).1, (iterEntries calls it).2)

section

variable {it : OpRbtIter P}

def remaining (it : OpRbtIter P) : List (RbtEntry P) :=
  it.flatMap fun
    | .nil => []
    | .node _ _ e _ r => e :: r.toList

def Roomy : OpRbtIter P → Prop
  | [] => True
  | h :: it => h.isNil = false ∧ it.length + h.height ≤ OP_RBT_ITER_DEPTH ∧ Roomy it

lemma pushLeft_remaining (room : it.length + h.height ≤ OP_RBT_ITER_DEPTH) (roomy : Roomy it) :
    remaining (pushLeft it h) = h.toList ++ remaining it ∧ Roomy (pushLeft it h) := by
  induction h generalizing it with
  | nil => exact ⟨rfl, roomy⟩
  | node c l e m r left right =>
    have above : it.length + (max l.height r.height + 1) ≤ OP_RBT_ITER_DEPTH := room
    rw [pushLeft, if_pos (by omega)]
    have below : (LlrbTree.node c l e m r :: it).length + l.height ≤ OP_RBT_ITER_DEPTH := by
      rw [length_cons]
      omega
    obtain ⟨entries, kept⟩ := left below ⟨rfl, room, roomy⟩
    rw [entries, LlrbTree.toList_node]
    exact ⟨by simp [remaining], kept⟩

lemma iterEntries_remaining (roomy : Roomy it) : iterEntries ((remaining it).length + 1) it = (remaining it, true) := by
  generalize size : (remaining it).length = n
  induction n generalizing it with
  | zero =>
    rcases it with _ | ⟨_ | ⟨c, l, e, m, r⟩, it⟩
    · rfl
    · exact absurd roomy.1 Bool.noConfusion
    · cases size
  | succ n ih =>
    rcases it with _ | ⟨_ | ⟨c, l, e, m, r⟩, it⟩
    · cases size
    · exact absurd roomy.1 Bool.noConfusion
    · have room : it.length + (max l.height r.height + 1) ≤ OP_RBT_ITER_DEPTH := roomy.2.1
      obtain ⟨entries, kept⟩ := pushLeft_remaining (h := r) (by omega) roomy.2.2
      have first : remaining (LlrbTree.node c l e m r :: it) = e :: remaining (pushLeft it r) := by
        rw [entries]
        rfl
      rw [first, length_cons] at size
      have rest := ih kept (Nat.succ.inj size)
      rw [first, iterEntries]
      simp [opRbtIterNext, rest]

variable {cmp : P → P → Int} (laws : TotalPreorder cmp)

include laws

lemma iterLowerLoop_remaining (lower : P) (asc : Ascending cmp h.toList)
    (room : it.length + h.height ≤ OP_RBT_ITER_DEPTH) (roomy : Roomy it) :
    remaining (iterLowerLoop cmp lower it h) = h.toList.filter (fun e => cmp lower e.key ≤ 0) ++ remaining it ∧
      Roomy (iterLowerLoop cmp lower it h) := by
  induction h generalizing it with
  | nil => exact ⟨rfl, roomy⟩
  | node c l e m r left right =>
    have above : it.length + (max l.height r.height + 1) ≤ OP_RBT_ITER_DEPTH := room
    obtain ⟨low, rest, across⟩ := pairwise_append.mp asc
    obtain ⟨high, after⟩ := pairwise_cons.mp rest
    rw [iterLowerLoop, if_pos (by omega), LlrbTree.toList_node, filter_append]
    split
    next reached =>
      have all : r.toList.filter (fun e => cmp lower e.key ≤ 0) = r.toList := by
        rw [filter_eq_self]
        intro w mem
        exact decide_eq_true (Int.le_of_lt (laws.lt_of_le_of_lt reached (high w mem)))
      have below : (LlrbTree.node c l e m r :: it).length + l.height ≤ OP_RBT_ITER_DEPTH := by
        rw [length_cons]
        omega
      obtain ⟨entries, kept⟩ := left low below ⟨rfl, room, roomy⟩
      rw [entries, filter_cons_of_pos (by simpa using reached), all]
      exact ⟨by simp [remaining], kept⟩
    next beyond =>
      have none : l.toList.filter (fun e => cmp lower e.key ≤ 0) = [] := by
        rw [filter_eq_nil_iff]
        intro u mem within
        have before := across u mem e mem_cons_self
        exact beyond (Int.le_of_lt (laws.lt_of_le_of_lt (of_decide_eq_true within) before))
      obtain ⟨entries, kept⟩ := right after (by omega) roomy
      rw [entries, none, filter_cons_of_neg (by simpa using beyond)]
      exact ⟨rfl, kept⟩

end

structure IteratesOver {P : Type} (t : OpRbt P) (l : List (RbtEntry P)) : Prop where
  init : iterEntries (l.length + 1) (opRbtIterInit t) = (l, true)
  lower : ∀ lower, iterEntries ((l.filter fun e => t.cmp lower e.key ≤ 0).length + 1) (opRbtIterLower t lower) =
    (l.filter fun e => t.cmp lower e.key ≤ 0, true)

lemma Represents.iterates {P : Type} {cmp : P → P → Int} {t : OpRbt P} {l : List (RbtEntry P)}
    (rep : Represents cmp t l) (laws : TotalPreorder cmp) (few : t.size < 2 ^ 32) : IteratesOver t l := by
  obtain ⟨rfl, rfl, asc, ⟨n, balanced⟩, size⟩ := rep
  rw [size] at few
  have room : ([] : OpRbtIter P).length + t.root.height ≤ OP_RBT_ITER_DEPTH := by
    rw [length_nil, Nat.zero_add]
    exact balanced.height_le_sixtyFour few
  apply IteratesOver.mk
  · obtain ⟨entries, roomy⟩ := pushLeft_remaining room trivial
    have yields := iterEntries_remaining roomy
    rw [entries, remaining, flatMap_nil, append_nil] at yields
    exact yields
  · intro lower
    obtain ⟨entries, roomy⟩ := iterLowerLoop_remaining laws lower asc room trivial
    have yields := iterEntries_remaining roomy
    rw [entries, remaining, flatMap_nil, append_nil] at yields
    exact yields

theorem iterators_complete {P : Type} [Inhabited P] {cmp : P → P → Int} (laws : TotalPreorder cmp)
    (ops : List (RbtOp P)) :
    ∃ t, runReplies rbtStep (opRbtCreate cmp) ops = some (t, (specReplies (assocStep cmp) [] ops).2) ∧
      Ascending cmp (specReplies (assocStep cmp) [] ops).1 ∧
        (opRbtSize t < 2 ^ 32 → IteratesOver t (specReplies (assocStep cmp) [] ops).1) := by
  obtain ⟨t, ran, rep⟩ := run_represents laws ops
  exact ⟨t, ran, rep.ascending, fun few => rep.iterates laws few⟩

theorem iterators_complete_addresses :
    ∃ t, runReplies rbtStep (opRbtCreate opRbtCmpPtr) [.set 4 40, .set 2 20, .set 6 60, .del 4] =
        some (t, (specReplies (assocStep opRbtCmpPtr) [] [.set 4 40, .set 2 20, .set 6 60, .del 4]).2) ∧
      Ascending opRbtCmpPtr (specReplies (assocStep opRbtCmpPtr) [] [.set 4 40, .set 2 20, .set 6 60, .del 4]).1 ∧
        (opRbtSize t < 2 ^ 32 →
          IteratesOver t (specReplies (assocStep opRbtCmpPtr) [] [.set 4 40, .set 2 20, .set 6 60, .del 4]).1) :=
  iterators_complete opRbtCmpPtr_totalPreorder _

end LibOp.Rbt

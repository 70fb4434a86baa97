import Mathlib

namespace LibOp.Foundation

variable {α ν : Type*} (node : α → ν) (sender : α → Option Nat)

/-- In a log of events, `j` is later at the node of `i`, or receives the message of `i`. -/
def DirectlyBefore (events : List α) (i j : Nat) : Prop :=
  i < j ∧ ∃ a b, events[i]? = some a ∧ events[j]? = some b ∧ (node a = node b ∨ sender b = some i)

def HappensBefore (events : List α) : Nat → Nat → Prop :=
  Relation.TransGen (DirectlyBefore node sender events)

variable {node sender} {events : List α} {i : Nat}

lemma DirectlyBefore.bound (edge : DirectlyBefore node sender events i j) : j < events.length := by
  obtain ⟨_, _, b, _, here, _⟩ := edge
  exact (List.getElem?_eq_some_iff.mp here).1

lemma directlyBefore_snoc_old {last : α} (old : j < events.length) :
    DirectlyBefore node sender (events ++ [last]) i j ↔ DirectlyBefore node sender events i j := by
  apply and_congr_right
  intro earlier
  rw [List.getElem?_append_left old, List.getElem?_append_left (Nat.lt_trans earlier old)]

lemma directlyBefore_snoc_new {last : α} : DirectlyBefore node sender (events ++ [last]) i events.length ↔
      ∃ a, events[i]? = some a ∧ (node a = node last ∨ sender last = some i) := by
  constructor
  · intro edge
    obtain ⟨earlier, a, b, first, second, link⟩ := edge
    rw [List.getElem?_append_left earlier] at first
    rw [List.getElem?_concat_length] at second
    cases second
    exact ⟨a, first, link⟩
  · intro edge
    obtain ⟨a, first, link⟩ := edge
    have earlier := (List.getElem?_eq_some_iff.mp first).1
    refine ⟨earlier, a, last, ?_, List.getElem?_concat_length, link⟩
    rw [List.getElem?_append_left earlier]
    exact first

lemma happensBefore_increasing_iff {τ : Type*} [Preorder τ] (events : List α) (stamp : Nat → τ) :
    (∀ i j, HappensBefore node sender events i j → stamp i < stamp j) ↔
      ∀ i j, DirectlyBefore node sender events i j → stamp i < stamp j := by
  constructor
  · intro causal i j edge
    exact causal i j (Relation.TransGen.single edge)
  · intro direct i j chain
    induction chain with
    | single edge => exact direct _ _ edge
    | tail _ edge ih => exact lt_trans ih (direct _ _ edge)

end LibOp.Foundation

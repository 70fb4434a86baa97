import Mathlib

namespace LibOp.Foundation

open Finset

variable {α : Type*}

def tally (p : α → Bool) : List (α × Nat) → Nat
  | [] => 0
  | e :: rest => (if p e.1 then e.2 else 0) + tally p rest

lemma tally_append (p : α → Bool) (first second : List (α × Nat)) :
    tally p (first ++ second) = tally p first + tally p second := by
  induction first with
  | nil => exact (zero_add _).symm
  | cons e rest ih => rw [List.cons_append, tally, tally, ih, add_assoc]

variable {events : List (α × Nat)}

lemma tally_mono (weaker : ∀ e ∈ events, p e.1 = true → q e.1 = true) : tally p events ≤ tally q events := by
  induction events with
  | nil => exact le_rfl
  | cons e rest ih =>
    have others := ih (List.forall_mem_cons.mp weaker).2
    rw [tally, tally]
    by_cases holds : p e.1 = true
    · rw [if_pos holds, if_pos (weaker e List.mem_cons_self holds)]
      omega
    · rw [if_neg holds]
      omega

lemma tally_eq_zero (absent : ∀ e ∈ events, p e.1 = false) : tally p events = 0 := by
  induction events with
  | nil => rfl
  | cons e rest ih =>
    rw [tally, absent e List.mem_cons_self, ih (List.forall_mem_cons.mp absent).2]
    rfl

lemma sum_tally_kinds (n : Nat) (kind : α → Nat) (p : Nat → α → Bool) (events : List (α × Nat))
    (inside : ∀ e ∈ events, kind e.1 < n) :
    ∑ i ∈ range n, tally (fun x => kind x == i && p i x) events = tally (fun x => p (kind x) x) events := by
  induction events with
  | nil => exact sum_const_zero
  | cons e rest ih =>
    simp only [tally]
    rw [sum_add_distrib, ih (List.forall_mem_cons.mp inside).2]
    apply congrArg (· + _)
    have single : ∀ i ∈ range n, (if (kind e.1 == i && p i e.1) = true then e.2 else 0) =
        if kind e.1 = i then (if p (kind e.1) e.1 = true then e.2 else 0) else 0 := by
      intro i _
      by_cases same : kind e.1 = i
      · rw [if_pos same, same, beq_self_eq_true, Bool.true_and]
      · rw [if_neg same, beq_false_of_ne same, Bool.false_and, if_neg Bool.false_ne_true]
    rw [sum_congr rfl single, sum_ite_eq, if_pos (mem_range.mpr (inside e List.mem_cons_self))]

end LibOp.Foundation

import Mathlib

namespace LibOp.Foundation

open Option

variable {α β τ : Type*} {P Q : Prop}

structure YieldsWhen (result : Option α) (P : Prop) (a : α) : Prop where
  yields : P → result = some a
  fails : ¬ P → result = none

namespace YieldsWhen

variable {result : Option α} {a : α} {b : β}

lemma of_ite [Decidable P] (a : α) : YieldsWhen (if P then some a else none) P a :=
  ⟨fun holds => if_pos holds, fun fails => if_neg fails⟩

lemma of_some (a : α) : YieldsWhen (some a) True a := ⟨fun _ => rfl, fun fails => absurd trivial fails⟩

section

variable (outcome : YieldsWhen result P a)

include outcome

lemma congr (same : P ↔ Q) : YieldsWhen result Q a := by
  rwa [← propext same]

lemma eq_some_iff : result = some c ↔ P ∧ c = a := by
  constructor
  · intro found
    by_cases holds : P
    · exact ⟨holds, some.inj (found.symm.trans (outcome.yields holds))⟩
    · cases found.symm.trans (outcome.fails holds)
  · rintro ⟨holds, rfl⟩
    exact outcome.yields holds

lemma map (f : α → β) : YieldsWhen (result.map f) P (f a) where
  yields holds := by rw [outcome.yields holds, map_some]
  fails fails := by rw [outcome.fails fails, map_none]

lemma bind {next : α → Option β} (after : P → YieldsWhen (next a) Q b) : YieldsWhen (result.bind next) (P ∧ Q) b where
  yields holds := by rw [outcome.yields holds.1, bind_some, (after holds.1).yields holds.2]
  fails fails := by
    by_cases holds : P
    · rw [outcome.yields holds, bind_some]
      exact (after holds).fails fun later => fails ⟨holds, later⟩
    · rw [outcome.fails holds, bind_none]

end

variable {step : α → τ → Option α}

lemma foldlM_cons (head : YieldsWhen (step s x) P a)
    (tail : P → YieldsWhen (l.foldlM step a) Q a') : YieldsWhen ((x :: l).foldlM step s) (P ∧ Q) a' := by
  exact head.bind tail

lemma foldlM_append {s a' : α} {l r : List τ} (front : YieldsWhen (l.foldlM step s) P a)
    (back : P → YieldsWhen (r.foldlM step a) Q a') : YieldsWhen ((l ++ r).foldlM step s) (P ∧ Q) a' := by
  rw [List.foldlM_append]
  exact front.bind back

end YieldsWhen

end LibOp.Foundation

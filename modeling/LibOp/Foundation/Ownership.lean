import Mathlib

namespace LibOp.Foundation

variable {α π : Type*}

def Owns (owner : α → Option π) (held : π → α → Prop) : Prop := ∀ p a, held p a ↔ owner a = some p

variable {owner : α → Option π} {held : π → α → Prop}

lemma Owns.unique (owns : Owns owner held) (left : held p a) (right : held q a) : p = q := by
  have same := ((owns p a).mp left).symm.trans ((owns q a).mp right)
  exact Option.some.inj same

variable {next : π → α → Prop}

lemma Owns.congr (owns : Owns owner held) (same : ∀ p a, next p a ↔ held p a) :
    Owns owner next := fun p a => (same p a).trans (owns p a)

variable [DecidableEq α]

lemma Owns.move (owns : Owns owner held) (here : held p a) (apart : p ≠ q)
    (left : ∀ b, next p b ↔ held p b ∧ b ≠ a) (entered : ∀ b, next q b ↔ held q b ∨ b = a)
    (others : ∀ r, r ≠ p → r ≠ q → ∀ b, next r b ↔ held r b) : Owns (Function.update owner a (some q)) next := by
  intro r b
  have owned := (owns p a).mp here
  by_cases same : b = a
  · subst same
    rw [Function.update_self, Option.some_inj]
    by_cases target : r = q
    · subst target
      exact iff_of_true ((entered b).mpr (.inr rfl)) rfl
    · apply iff_of_false _ (Ne.symm target)
      by_cases source : r = p
      · subst source
        rw [left]
        exact fun h => h.2 rfl
      · rw [others r source target, owns r b, owned, Option.some_inj]
        exact Ne.symm source
  · rw [Function.update_of_ne same, ← owns r b]
    by_cases target : r = q
    · rw [target, entered]
      exact or_iff_left same
    · by_cases source : r = p
      · rw [source, left]
        exact and_iff_left same
      · exact others r source target b

end LibOp.Foundation

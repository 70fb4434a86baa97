import Mathlib

namespace LibOp.Foundation

/-- Any one symbol, any sequence of symbols, or a symbol up to a relation. -/
inductive GlobItem (α : Type*) where
  | one
  | many
  | exactly (a : α)
deriving DecidableEq

variable {α : Type*} {same : α → α → Prop}

inductive GlobMatches (same : α → α → Prop) : List (GlobItem α) → List α → Prop
  | nil : GlobMatches same [] []
  | one (b : α) {items : List (GlobItem α)} {rest : List α} (tail : GlobMatches same items rest) :
    GlobMatches same (.one :: items) (b :: rest)
  | exactly {a b : α} {items : List (GlobItem α)} {rest : List α} (head : same a b)
    (tail : GlobMatches same items rest) : GlobMatches same (.exactly a :: items) (b :: rest)
  | many (skipped : List α) {items : List (GlobItem α)} {rest : List α} (tail : GlobMatches same items rest) :
    GlobMatches same (.many :: items) (skipped ++ rest)

namespace GlobMatches

variable {items : List (GlobItem α)} {b : α} {text : List α}

lemma nil_iff : GlobMatches same [] text ↔ text = [] := by
  constructor
  · intro matched
    cases matched
    rfl
  · rintro rfl
    exact nil

lemma one_iff : GlobMatches same (.one :: items) (b :: text) ↔ GlobMatches same items text := by
  constructor
  · intro matched
    cases matched with
    | one _ tail => exact tail
  · exact one b

lemma exactly_iff : GlobMatches same (.exactly a :: items) (b :: text) ↔ same a b ∧ GlobMatches same items text := by
  constructor
  · intro matched
    cases matched with
    | exactly head tail => exact ⟨head, tail⟩
  · rintro ⟨head, tail⟩
    exact exactly head tail

lemma many_iff : GlobMatches same (.many :: items) text ↔ ∃ rest, rest <:+ text ∧ GlobMatches same items rest := by
  constructor
  · intro matched
    cases matched with
    | many skipped tail => exact ⟨_, List.suffix_append _ _, tail⟩
  · rintro ⟨rest, ⟨skipped, rfl⟩, tail⟩
    exact many skipped tail

lemma ne_nil (single : item ≠ .many) (matched : GlobMatches same (item :: items) text) : text ≠ [] := by
  cases matched with
  | one | exactly => exact List.cons_ne_nil _ _
  | many => exact absurd rfl single

lemma many_many : GlobMatches same (.many :: .many :: items) text ↔ GlobMatches same (.many :: items) text := by
  rw [many_iff]
  constructor
  · rintro ⟨rest, suffix, matched⟩
    obtain ⟨last, inner, tail⟩ := many_iff.mp matched
    exact many_iff.mpr ⟨last, inner.trans suffix, tail⟩
  · intro matched
    exact ⟨text, List.suffix_rfl, matched⟩

lemma many_only : GlobMatches same [.many] text := by
  have whole : GlobMatches same [.many] (text ++ []) := many text nil
  rwa [List.append_nil] at whole

end GlobMatches

end LibOp.Foundation

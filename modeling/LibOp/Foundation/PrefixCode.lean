import Mathlib

namespace LibOp.Foundation

open List

/-- No word is empty, and none starts with another one. -/
structure PrefixCode (α σ : Type*) where
  encode : σ → List α
  encode_ne_nil : ∀ s, encode s ≠ []
  unique : ∀ {s t : σ} {l r : List α}, encode s ++ l = encode t ++ r → s = t ∧ l = r

namespace PrefixCode

variable {α σ : Type*} (code : PrefixCode α σ)

def Encoded (l : List α) : Prop := ∃ text : List σ, l = text.flatMap code.encode

def Undecodable (l : List α) : Prop := ∀ s rest, l ≠ code.encode s ++ rest

/-- Read from left to right, word by word; where no word starts, an element is skipped. -/
inductive Segments : List α → List (Option σ) → Prop where
  | done : Segments [] []
  | word (s : σ) {rest : List α} {segments : List (Option σ)} (later : Segments rest segments) :
      Segments (code.encode s ++ rest) (some s :: segments)
  | skip {a : α} {rest : List α} {segments : List (Option σ)} (bad : code.Undecodable (a :: rest))
      (later : Segments rest segments) : Segments (a :: rest) (none :: segments)

lemma length_encode_pos (s : σ) : 0 < (code.encode s).length := length_pos_of_ne_nil (code.encode_ne_nil s)

lemma encode_append_eq_cons (s : σ) (l : List α) : ∃ a rest, code.encode s ++ l = a :: rest := by
  apply exists_cons_of_ne_nil
  intro empty
  exact code.encode_ne_nil s (List.append_eq_nil_iff.mp empty).1

variable {code}

lemma exists_segments (l : List α) : ∃ segments, code.Segments l segments := by
  obtain ⟨n, bound⟩ : ∃ n, l.length < n := ⟨l.length + 1, Nat.lt_succ_self _⟩
  induction n generalizing l with
  | zero => cases bound
  | succ n ih =>
    by_cases word : ∃ s rest, l = code.encode s ++ rest
    · obtain ⟨s, rest, rfl⟩ := word
      have pos := code.length_encode_pos s
      rw [length_append] at bound
      obtain ⟨segments, later⟩ := ih rest (by omega)
      exact ⟨_, .word s later⟩
    · cases l with
      | nil => exact ⟨[], .done⟩
      | cons a rest =>
        obtain ⟨segments, later⟩ := ih rest (Nat.lt_of_succ_lt_succ bound)
        exact ⟨_, .skip (fun s rest same => word ⟨s, rest, same⟩) later⟩

lemma segments_encoded (text : List σ) : code.Segments (text.flatMap code.encode) (text.map some) := by
  induction text with
  | nil => exact .done
  | cons s text ih => exact .word s ih

lemma undecodable_nil : code.Undecodable [] := by
  intro s rest same
  exact code.encode_ne_nil s (List.append_eq_nil_iff.mp same.symm).1

lemma exists_words_append_undecodable (l : List α) :
    ∃ (text : List σ) (rest : List α), l = text.flatMap code.encode ++ rest ∧ code.Undecodable rest := by
  obtain ⟨segments, reading⟩ : ∃ segments, code.Segments l segments := exists_segments l
  induction reading with
  | done => exact ⟨[], [], rfl, undecodable_nil⟩
  | word s later ih =>
    obtain ⟨text, rest, rfl, bad⟩ := ih
    exact ⟨s :: text, rest, by rw [flatMap_cons, append_assoc], bad⟩
  | skip bad => exact ⟨[], _, rfl, bad⟩

lemma encoded_prefix_le {text : List σ} (bad : code.Undecodable rest)
    (whole : text.flatMap code.encode ++ rest = l ++ r) (encoded : code.Encoded l) :
    l.length ≤ (text.flatMap code.encode).length := by
  obtain ⟨other, rfl⟩ := encoded
  induction other generalizing text with
  | nil => exact Nat.zero_le _
  | cons t other ih =>
    rw [flatMap_cons, append_assoc] at whole
    cases text with
    | nil => exact absurd whole (bad t _)
    | cons s text =>
      rw [flatMap_cons, append_assoc] at whole
      obtain ⟨rfl, later⟩ := code.unique whole
      have shorter := ih later
      simp only [flatMap_cons, length_append]
      omega

end PrefixCode

end LibOp.Foundation

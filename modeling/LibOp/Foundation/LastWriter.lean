import Mathlib

namespace LibOp.Foundation

variable {ω ρ : Type*} [LinearOrder ρ] (rank : ω → ρ)

def latest (a b : ω) : ω := if rank a < rank b then b else a

lemma latest_cases (a b : ω) : latest rank a b = a ∨ latest rank a b = b := by
  unfold latest
  split
  · exact .inr rfl
  · exact .inl rfl

lemma rank_latest (a b : ω) : rank (latest rank a b) = max (rank a) (rank b) := by
  unfold latest
  split
  next later => rw [max_eq_right (le_of_lt later)]
  next earlier => rw [max_eq_left (le_of_not_gt earlier)]

lemma latest_self (a : ω) : latest rank a a = a := by
  rcases latest_cases rank a a with same | same <;> exact same

lemma latest_closed {S : ω → Prop} {a b : ω} (left : S a) (right : S b) : S (latest rank a b) := by
  rcases latest_cases rank a b with same | same <;> rw [same] <;> assumption

section Separated

variable {S : ω → Prop} (separated : ∀ a b, S a → S b → rank a = rank b → a = b)

include separated

lemma latest_comm (left : S a) (right : S b) : latest rank a b = latest rank b a := by
  apply separated _ _ (latest_closed rank left right) (latest_closed rank right left)
  rw [rank_latest rank, rank_latest rank, max_comm]

lemma latest_assoc {a b c : ω} (first : S a) (second : S b) (third : S c) :
    latest rank (latest rank a b) c = latest rank a (latest rank b c) := by
  have inner := latest_closed rank first second
  have tail := latest_closed rank second third
  apply separated _ _ (latest_closed rank inner third) (latest_closed rank first tail)
  rw [rank_latest rank, rank_latest rank, rank_latest rank, rank_latest rank, max_assoc]

end Separated

def HoldsLatest (initial held : ω) (writes : List ω) : Prop :=
  (held = initial ∨ held ∈ writes) ∧ ∀ w ∈ writes, rank w ≤ rank held

lemma HoldsLatest.merge {left right : List ω} (first : HoldsLatest rank initial a left)
    (second : HoldsLatest rank initial b right) : HoldsLatest rank initial (latest rank a b) (left ++ right) := by
  constructor
  · rcases latest_cases rank a b with same | same
    · rw [same]
      exact first.1.imp id (List.mem_append_left right)
    · rw [same]
      exact second.1.imp id (List.mem_append_right left)
  · intro w mem
    rw [rank_latest rank]
    rcases List.mem_append.mp mem with old | new
    · exact le_trans (first.2 w old) (le_max_left _ _)
    · exact le_trans (second.2 w new) (le_max_right _ _)

lemma HoldsLatest.write {initial held : ω} (before : HoldsLatest rank initial held writes) (w : ω) :
    HoldsLatest rank initial (latest rank held w) (writes ++ [w]) := by
  apply before.merge
  exact ⟨.inr List.mem_cons_self, fun x mem => by rw [List.mem_singleton.mp mem]⟩

lemma HoldsLatest.eq_greatest {initial held best : ω} {seen writes : List ω}
    (holds : HoldsLatest rank initial held seen) (within : ∀ w ∈ seen, w ∈ writes) (all : ∀ w ∈ writes, w ∈ seen)
    (separated : ∀ a ∈ writes, ∀ b ∈ writes, rank a = rank b → a = b) (above : ∀ w ∈ writes, rank initial < rank w)
    (mem : best ∈ writes) (greatest : ∀ w ∈ writes, rank w ≤ rank best) : held = best := by
  rcases holds.1 with fresh | written
  · have bound := holds.2 best (all best mem)
    rw [fresh] at bound
    exact absurd (above best mem) (not_lt_of_ge bound)
  · apply separated held (within held written) best mem
    exact le_antisymm (greatest held (within held written)) (holds.2 best (all best mem))

end LibOp.Foundation

import Mathlib

namespace LibOp.Foundation

variable {ε σ β : Type*}

def runLoop (turn : σ → Except ε (σ ⊕ β)) (size : σ → Nat)
    (shrinks : ∀ s next, turn s = .ok (.inl next) → size next < size s) (s : σ) : Except ε β :=
  match _ : turn s with
  | .error e => .error e
  | .ok (.inr b) => .ok b
  | .ok (.inl next) => runLoop turn size shrinks next
termination_by size s
decreasing_by exact shrinks _ _ ‹_›

variable {turn : σ → Except ε (σ ⊕ β)} {size : σ → Nat}
  {shrinks : ∀ s next, turn s = .ok (.inl next) → size next < size s} {s : σ}

lemma runLoop_error (failed : turn s = .error e) : runLoop turn size shrinks s = .error e := by
  rw [runLoop]
  split <;> simp_all

lemma runLoop_done (done : turn s = .ok (.inr b)) : runLoop turn size shrinks s = .ok b := by
  rw [runLoop]
  split <;> simp_all

lemma runLoop_more {next : σ} (more : turn s = .ok (.inl next)) :
    runLoop turn size shrinks s = runLoop turn size shrinks next := by
  rw [runLoop]
  split <;> simp_all

lemma toOption_runLoop : (runLoop turn size shrinks s).toOption =
    (turn s).toOption.bind (Sum.elim (fun next => (runLoop turn size shrinks next).toOption) some) := by
  cases result : turn s with
  | error e => rw [runLoop_error result]; rfl
  | ok out =>
    cases out with
    | inl next => rw [runLoop_more result]; rfl
    | inr b => rw [runLoop_done result]; rfl

lemma runLoop_bound (rest : β → Nat) (leaves : ∀ s b, turn s = .ok (.inr b) → rest b ≤ size s)
    (done : runLoop turn size shrinks s = .ok b) : rest b ≤ size s := by
  induction s using WellFounded.induction (measure size).wf with
  | h s ih =>
    cases result : turn s with
    | error e =>
      rw [runLoop_error result] at done
      cases done
    | ok next =>
      cases next with
      | inl next =>
        rw [runLoop_more result] at done
        have smaller := shrinks s next result
        exact Nat.le_trans (ih next smaller done) (Nat.le_of_lt smaller)
      | inr out =>
        rw [runLoop_done result] at done
        cases done
        exact leaves s b result

end LibOp.Foundation

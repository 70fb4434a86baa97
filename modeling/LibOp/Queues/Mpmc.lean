import LibOp.Foundation.TicketQueue

namespace LibOp.Queues

open Foundation Foundation.TicketQueue Function Nat List

/-- `sizeof(op_mpmc_slot_t)` -/
def mpmcSlotSize : Nat := 64

/-- The mask, for a power of two of which `calloc` can represent the size. -/
def opMpmcInit (capacity : Nat) : Option Nat :=
  if capacity = 0 ∨ capacity &&& (capacity - 1) ≠ 0 then none
  else if 2 ^ 64 ≤ capacity * mpmcSlotSize then none
  else some (capacity - 1)

/-- The sign of `(int64_t)seq - (int64_t)pos`. -/
def signOfDiff (seq pos : Nat) : Ordering :=
  let diff := (seq + 2 ^ 64 - pos) % 2 ^ 64
  if diff = 0 then .eq else if 2 ^ 63 ≤ diff then .lt else .gt

/-- The arithmetic of `op_mpmc_push` and `op_mpmc_pop`. -/
def mpmcTicketing (mask : Nat) : Ticketing :=
  { cell := fun pos => pos &&& mask
    next := fun pos => (pos + 1) % 2 ^ 64
    lap := fun pos => (pos + mask + 1) % 2 ^ 64
    compare := signOfDiff }

lemma opMpmcInit_mask {capacity mask : Nat} (made : opMpmcInit capacity = some mask) (several : 2 ≤ capacity) :
    ∃ k, 1 ≤ k ∧ k ≤ 57 ∧ mask = 2 ^ k - 1 ∧ capacity = 2 ^ k := by
  unfold opMpmcInit at made
  split at made
  · cases made
  next valid =>
    rw [not_or, not_not] at valid
    split at made
    · cases made
    next fits =>
      cases made
      obtain ⟨k, power⟩ := (Nat.and_sub_one_eq_zero_iff_isPowerOfTwo valid.1).mp valid.2
      rw [power] at fits several ⊢
      apply Exists.intro k
      refine ⟨Nat.one_le_iff_ne_zero.mpr fun zero => ?_, ?_, rfl, rfl⟩
      · rw [zero] at several
        exact absurd several (by decide)
      · by_contra large
        have atLeast : 2 ^ 58 ≤ 2 ^ k := Nat.pow_le_pow_right (by decide) (by omega)
        simp only [mpmcSlotSize] at fits
        omega

lemma eq_of_signOfDiff {seq pos : Nat} (seqFits : seq < 2 ^ 64) (posFits : pos < 2 ^ 64)
    (equal : signOfDiff seq pos = .eq) : seq = pos := by
  unfold signOfDiff at equal
  dsimp only at equal
  split at equal
  · omega
  · split at equal <;> cases equal

lemma mpmc_lawful {k : Nat} (positive : 1 ≤ k) (atMost : k ≤ 57) :
    (mpmcTicketing (2 ^ k - 1)).Lawful (2 ^ k) (2 ^ 63) := by
  have several : 2 ^ 1 ≤ 2 ^ k := Nat.pow_le_pow_right (by decide) positive
  have fits : 2 ^ k ≤ 2 ^ 57 := Nat.pow_le_pow_right (by decide) atMost
  exact
    { several := several
      cell_eq := fun pos => Nat.and_two_pow_sub_one_eq_mod pos k
      next_eq := fun pos small => Nat.mod_eq_of_lt (by omega)
      lap_eq := fun pos small => by
        change (pos + (2 ^ k - 1) + 1) % 2 ^ 64 = pos + 2 ^ k
        omega
      eq_of_compare := fun seq pos seqSmall posSmall equal => eq_of_signOfDiff (by omega) (by omega) equal }

section

variable {T α : Type} [DecidableEq T] (null : α) {capacity mask : Nat} (several : 2 ≤ capacity)
  (made : opMpmcInit capacity = some mask) (actions : List (TicketQueue.Action T α))
  (few : actions.countP TicketQueue.Action.isCall < 2 ^ 63)

include several made few

lemma mpmc_run :
    let s := actions.foldl (step (mpmcTicketing mask)) (State.init null)
    ∃ turns, Inv capacity turns s ∧ Bounded capacity s := by
  obtain ⟨k, pos, atMost, rfl, rfl⟩ := opMpmcInit_mask made several
  have counted : Counted 0 (State.init null : State T α) :=
    ⟨[], fun _ bad => absurd bad Bool.false_ne_true, le_rfl⟩
  obtain ⟨turns, inv, bounds⟩ := (init_inv (2 ^ k) null).run (mpmc_lawful pos atMost) counted actions (by omega)
  refine ⟨turns, inv, bounds ⟨zero_le _, ?_, ?_⟩⟩
  · intro _ _ _ bad
    cases bad
  · intro _ _ bad
    cases bad

theorem mpmc_exactly_once :
    let s : State T α := actions.foldl (step (mpmcTicketing mask)) (State.init null)
    (∀ k item, (k, item) ∈ s.returned → (k, item) ∈ s.stored ∧ s.pushes[k]? = some item) ∧
      (∀ k item, (k, item) ∈ s.stored → s.pushes[k]? = some item) ∧
      (s.returned.map Prod.fst).Nodup ∧ (∀ k ∈ s.pops, ∃ item, (k, item) ∈ s.stored) ∧
      (∀ e ∈ s.returned, e.1 ∈ s.pops) ∧ s.pops = List.range s.pops.length := by
  intro s
  obtain ⟨turns, inv, -⟩ := mpmc_run null several made actions few
  apply And.intro
  · intro k item mem
    have stored := (inv.returned _ mem).1
    exact ⟨stored, inv.stored _ stored⟩
  exact ⟨fun k item mem => inv.stored _ mem, inv.nodup, inv.pops_stored,
    fun e mem => (inv.returned e mem).2.1, inv.pops⟩

end

theorem mpmc_exactly_once_pair : let actions : List (TicketQueue.Action Bool Nat) :=
      [.push true 7, .advance true false, .advance true false, .advance true false, .pop false, .advance true false,
        .advance false false, .advance false false, .advance false false, .advance false false]
    let s := actions.foldl (step (mpmcTicketing 3)) (State.init 0)
    s.returned = [(0, 7)] ∧ (0, 7) ∈ s.stored ∧ s.pushes[0]? = some 7 := by
  intro actions s
  have returned : s.returned = [(0, 7)] := by decide
  apply And.intro returned
  exact (mpmc_exactly_once 0 (show 2 ≤ 4 by decide) (by decide) actions (by decide)).1 0 7
    (returned ▸ mem_cons_self)

theorem mpmc_bounded_iff {α : Type} (null : α) {capacity mask : Nat} (made : opMpmcInit capacity = some mask) :
    (∀ (T : Type) [DecidableEq T] (actions : List (TicketQueue.Action T α)),
      actions.countP TicketQueue.Action.isCall < 2 ^ 63 →
        let s : State T α := actions.foldl (step (mpmcTicketing mask)) (State.init null)
        s.pushes.length ≤ s.pops.length + capacity ∧
          ∀ k item, s.pops.length ≤ k → (k, item) ∈ s.stored → s.data (k % capacity) = item) ↔ 2 ≤ capacity := by
  constructor
  · intro bounded
    by_contra few
    have nonzero : capacity ≠ 0 := by
      rintro rfl
      cases made
    obtain rfl : capacity = 1 := by omega
    cases made
    let call : List (TicketQueue.Action Unit α) := .push () null :: replicate 4 (.advance () false)
    have most := (bounded Unit (call ++ call) (show 2 < 2 ^ 63 by decide)).1
    simp [call, replicate, step, advance, State.goto, State.claimPush, State.store, State.publish, State.init,
      mpmcTicketing, signOfDiff] at most
  · intro several T _ actions few
    obtain ⟨-, -, bounded⟩ := mpmc_run null several made actions few
    exact ⟨bounded.room, bounded.kept⟩

theorem mpmc_bounded_iff_two :
    let call (item : Nat) : List (TicketQueue.Action Unit Nat) := .push () item :: List.replicate 4 (.advance () false)
    let s := (call 7 ++ call 8 ++ call 9).foldl (step (mpmcTicketing 1)) (State.init 0)
    opMpmcInit 2 = some 1 ∧ s.pushes = [7, 8] ∧ s.pushes.length ≤ s.pops.length + 2 :=
  ⟨by decide, by decide,
    ((mpmc_bounded_iff 0 (show opMpmcInit 2 = some 1 by decide)).mpr (by decide) Unit _ (by decide)).1⟩

/-- In a single slot, just written and free for the next lap are the same number. -/
theorem mpmc_single_overwrites :
    let call (item : Nat) : List (TicketQueue.Action Unit Nat) := .push () item :: List.replicate 4 (.advance () false)
    let s := (call 7 ++ call 8).foldl (step (mpmcTicketing 0)) (State.init 0)
    opMpmcInit 1 = some 0 ∧ s.pushes = [7, 8] ∧ s.pops = [] ∧ s.data 0 = 8 := by
  decide

end LibOp.Queues

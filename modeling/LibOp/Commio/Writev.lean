import Mathlib

namespace LibOp.Commio

open List

/-- A call of `op_write` takes a part of the bytes, or fails. -/
inductive WriteAnswer where
  | accept (atMost : Nat)
  | fail
deriving DecidableEq, Repr

def WriteAnswer.written (len : Nat) : WriteAnswer → Int
  | accept atMost => min atMost len
  | fail => -1

variable {α : Type}

/-- The return value and the bytes sent. The answers of `op_write` are numbered by its calls. -/
def fakeWritevLoop (answer : Nat → WriteAnswer) : Nat → List (List α) → Int → List α → Int × List α
  | _, [], count, wire => (count, wire)
  | call, buf :: vp, count, wire =>
    let written := (answer call).written buf.length
    let wire := wire ++ buf.take written.toNat
    if written ≤ 0 then
      if count > 0 then (count, wire) else (written, wire)
    else fakeWritevLoop answer (call + 1) vp (count + written) wire

def opFakeWritev (answer : Nat → WriteAnswer) (vp : List (List α)) : Int × List α := fakeWritevLoop answer 0 vp 0 []

def puts (answer : Nat → WriteAnswer) : Nat → List (List α) → List α
  | _, [] => []
  | call, buf :: vp =>
    if (answer call).written buf.length ≤ 0 then []
    else buf.take ((answer call).written buf.length).toNat ++ puts answer (call + 1) vp

lemma WriteAnswer.written_le (answer : WriteAnswer) (len : Nat) : answer.written len ≤ len := by
  cases answer <;> simp only [written] <;> omega

lemma fakeWritevLoop_wire (answer : Nat → WriteAnswer) (call : Nat) (vp : List (List α)) (count : Int)
    (wire : List α) : (fakeWritevLoop answer call vp count wire).2 = wire ++ puts answer call vp := by
  induction vp generalizing call count wire with
  | nil => exact (append_nil wire).symm
  | cons buf vp ih =>
    simp only [fakeWritevLoop, puts]
    split
    next stops =>
      rw [Int.toNat_of_nonpos stops]
      split <;> rfl
    · rw [ih, append_assoc]

lemma fakeWritevLoop_count (answer : Nat → WriteAnswer) (call : Nat) (vp : List (List α)) {count : Int}
    (wire : List α) (sofar : 0 ≤ count) :
    (fakeWritevLoop answer call vp count wire).1 = count + (puts answer call vp).length ∨
      (fakeWritevLoop answer call vp count wire).1 ≤ 0 ∧ count + (puts answer call vp).length = 0 := by
  induction vp generalizing call count wire with
  | nil => exact Or.inl (Int.add_zero count).symm
  | cons buf vp ih =>
    have atMost := (answer call).written_le buf.length
    simp only [fakeWritevLoop, puts]
    split
    next stops =>
      split
      · exact Or.inl (Int.add_zero count).symm
      · exact Or.inr ⟨stops, by rw [length_nil]; omega⟩
    · have rest := ih (call + 1) (wire ++ buf.take ((answer call).written buf.length).toNat)
        (by omega : 0 ≤ count + (answer call).written buf.length)
      rw [length_append, length_take]
      omega

def NoneAfterShort (answer : Nat → WriteAnswer) : Nat → List Nat → Prop
  | _, [] => True
  | call, len :: lens =>
    (answer call).written len ≤ 0 ∨ ((answer call).written len = len ∧ NoneAfterShort answer (call + 1) lens) ∨
      lens.head?.all fun next => (answer (call + 1)).written next ≤ 0

variable {answer : Nat → WriteAnswer} {call : Nat}

lemma puts_initial (clean : NoneAfterShort answer call (vp.map List.length)) : puts answer call vp <+: vp.flatten := by
  induction vp generalizing call with
  | nil => exact prefix_rfl
  | cons buf vp ih =>
    rw [puts, flatten_cons]
    split
    · exact nil_prefix
    next goes =>
      rcases clean with stops | whole | last
      · exact absurd stops goes
      · obtain ⟨all, rest⟩ := whole
        rw [all, Int.toNat_natCast, take_length, prefix_append_right_inj]
        exact ih rest
      · have nothing : puts answer (call + 1) vp = [] := by
          cases vp with
          | nil => rfl
          | cons next vp => exact if_pos (of_decide_eq_true last)
        rw [nothing, append_nil]
        exact ( take_prefix _ buf).trans (prefix_append buf _)

lemma hole_shows (hole : ¬NoneAfterShort answer call lens) :
    ∃ vp : List (List UInt8), vp.map List.length = lens ∧ ¬puts answer call vp <+: vp.flatten := by
  induction lens generalizing call with
  | nil => exact absurd trivial hole
  | cons len lens ih =>
    rw [NoneAfterShort, not_or, not_or] at hole
    obtain ⟨goes, partly, more⟩ := hole
    by_cases whole : (answer call).written len = len
    · obtain ⟨vp, lengths, shows⟩ := ih fun clean => partly ⟨whole, clean⟩
      refine ⟨List.replicate len 0 :: vp, by simp [lengths], ?_⟩
      rw [puts, length_replicate, if_neg goes, whole, Int.toNat_natCast, flatten_cons]
      intro prefixed
      apply shows
      rwa [take_of_length_le (by simp), prefix_append_right_inj] at prefixed
    · cases lens with
      | nil => exact absurd rfl more
      | cons next lens =>
        have follows : ¬(answer (call + 1)).written next ≤ 0 := fun stops => more (decide_eq_true stops)
        refine ⟨List.replicate len 0 :: List.replicate next 1 :: lens.map (List.replicate · 0), by simp [Function.comp_def],
          ?_⟩
        rw [puts, length_replicate, if_neg goes, puts, length_replicate, if_neg follows, flatten_cons]
        obtain ⟨first, short⟩ := Int.eq_ofNat_of_zero_le (Int.le_of_lt (Int.not_le.mp goes))
        obtain ⟨second, taken⟩ := Int.eq_ofNat_of_zero_le (Int.le_of_lt (Int.not_le.mp follows))
        have atMost := (answer call).written_le len
        have nextAtMost := (answer (call + 1)).written_le next
        obtain ⟨rest, rfl⟩ : ∃ rest, len = first + (rest + 1) := ⟨len - first - 1, by omega⟩
        obtain ⟨others, same⟩ : ∃ others, min second next = others + 1 := ⟨min second next - 1, by omega⟩
        rw [short, taken, Int.toNat_natCast, Int.toNat_natCast, take_replicate, take_replicate, same,
          Nat.min_eq_left (by omega), replicate_add first, append_assoc, prefix_append_right_inj,
          replicate_succ, replicate_succ, cons_append, cons_append, cons_prefix_cons]
        exact fun both => absurd both.1 (by decide)

theorem fake_writev_prefix_iff (answer : Nat → WriteAnswer) (lens : List Nat) :
    (∀ vp : List (List UInt8), vp.map List.length = lens → 0 < (opFakeWritev answer vp).1 →
      (opFakeWritev answer vp).2 = vp.flatten.take (opFakeWritev answer vp).1.toNat) ↔
      NoneAfterShort answer 0 lens := by
  have wire (vp : List (List UInt8)) : (opFakeWritev answer vp).2 = puts answer 0 vp :=
    fakeWritevLoop_wire answer 0 vp 0 []
  have count (vp : List (List UInt8)) := fakeWritevLoop_count answer 0 vp [] (Int.le_refl 0)
  change ∀ vp, (opFakeWritev answer vp).1 = _ ∨ (opFakeWritev answer vp).1 ≤ 0 ∧ _ at count
  constructor
  · intro always
    by_contra hole
    obtain ⟨vp, lengths, shows⟩ := hole_shows hole
    apply shows
    rcases count vp with some | none
    · by_cases pos : 0 < (opFakeWritev answer vp).1
      · rw [← wire, always vp lengths pos]
        exact take_prefix _ _
      · rw [eq_nil_of_length_eq_zero (l := puts answer 0 vp) (by omega)]
        exact nil_prefix
    · rw [eq_nil_of_length_eq_zero (l := puts answer 0 vp) (by omega)]
      exact nil_prefix
  · intro clean vp lengths pos
    have length : (opFakeWritev answer vp).1.toNat = (puts answer 0 vp).length := by
      have known := count vp
      omega
    rw [wire, length]
    exact List.prefix_iff_eq_take.mp (puts_initial (by rwa [lengths]))

/-- The second buffer follows the first byte of the first one. -/
theorem fake_writev_leaves_hole : opFakeWritev (fun call => .accept (call + 1)) [[1, 2], [3, 4]] = (3, [1, 3, 4]) ∧
      ([1, 3, 4] : List UInt8) ≠ ([[1, 2], [3, 4]] : List (List UInt8)).flatten.take 3 := by
  decide

end LibOp.Commio

import LibOp.Foundation.WordBits
import LibOp.Foundation.RingQueue

namespace LibOp.Queues

open Foundation Foundation.RingQueue Nat

def pointerSize : Nat := 8

/-- `sizeof(op_ringbuf_t)` -/
def ringbufHeader : Nat := 192

/-- The rounding of `op_ringbuf_create`. -/
def ringbufCapacity (capacity : Nat) : Nat :=
  let capacity := if capacity < 2 then 2 else capacity
  let capacity := capacity - 1
  let capacity := capacity ||| (capacity >>> 1)
  let capacity := capacity ||| (capacity >>> 2)
  let capacity := capacity ||| (capacity >>> 4)
  let capacity := capacity ||| (capacity >>> 8)
  let capacity := capacity ||| (capacity >>> 16)
  let capacity := capacity ||| (capacity >>> 32)
  (capacity + 1) % 2 ^ 64

structure Layout where
  mask : Nat
  slots : Nat
deriving DecidableEq, Repr

def opRingbufCreate (capacity : Nat) : Layout :=
  let capacity := ringbufCapacity capacity
  let size := (ringbufHeader + capacity * pointerSize % 2 ^ 64) % 2 ^ 64
  { mask := capacity - 1, slots := (size - ringbufHeader) / pointerSize }

/-- The indices of `op_ringbuf_push` and `op_ringbuf_pop`. -/
def ringbufIndexing (mask : Nat) : Indexing :=
  { next := fun i => (i + 1) % 2 ^ 64 &&& mask
    full := fun head tail => ((head + 1) % 2 ^ 64 &&& mask) == tail
    cell := fun i => i &&& mask }

/-- There is a queue for a power of two of which `calloc` can represent the size. -/
def opSpscInit (capacity : Nat) : Option Layout :=
  if capacity = 0 ∨ capacity &&& (capacity - 1) ≠ 0 then none
  else if 2 ^ 64 ≤ capacity * pointerSize then none
  else some { mask := capacity - 1, slots := capacity }

/-- The indices of `op_spsc_push` and `op_spsc_pop` run through 64 bits. -/
def spscIndexing (mask : Nat) : Indexing :=
  { next := fun i => (i + 1) % 2 ^ 64
    full := fun head tail => decide ((head + 2 ^ 64 - tail) % 2 ^ 64 > mask)
    cell := fun i => i &&& mask }

variable {capacity k : Nat}

lemma ringbufCapacity_eq (large : 2 ≤ capacity) (bound : capacity ≤ 2 ^ 62) :
    ringbufCapacity capacity = 2 ^ ((capacity - 1).log2 + 1) := by
  have pos : capacity - 1 ≠ 0 := by omega
  have below : (capacity - 1).log2 < 62 := (log2_lt pos).mpr (by omega)
  have smeared := (topBits_log2 pos).smear.smear.smear.smear.smear.smear.full (by omega)
  have fits : 2 ^ ((capacity - 1).log2 + 1) < 2 ^ 64 := Nat.pow_lt_pow_right (by decide) (by omega)
  rw [← mod_eq_of_lt fits, ← smeared]
  simp [ringbufCapacity, not_lt.mpr large]

lemma ringbufCapacity_spec (bound : capacity ≤ 2 ^ 62) :
    ∃ k, 1 ≤ k ∧ k ≤ 62 ∧ ringbufCapacity capacity = 2 ^ k ∧ (k ≤ 60 ↔ capacity ≤ 2 ^ 60) := by
  by_cases small : capacity < 2
  · have same : ringbufCapacity capacity = ringbufCapacity 2 := by
      rw [ringbufCapacity, ringbufCapacity, if_pos small]
      rfl
    exact ⟨1, by decide, by decide, same.trans (by decide), by omega⟩
  · have pos : capacity - 1 ≠ 0 := by omega
    have below : (capacity - 1).log2 < 62 := (log2_lt pos).mpr (by omega)
    have threshold : (capacity - 1).log2 < 60 ↔ capacity - 1 < 2 ^ 60 := log2_lt pos
    exact ⟨(capacity - 1).log2 + 1, by omega, by omega, ringbufCapacity_eq (by omega) bound, by omega⟩

lemma opRingbufCreate_slots (rounded : ringbufCapacity capacity = 2 ^ k) (atMost : k ≤ 62) :
    (opRingbufCreate capacity).slots = if k ≤ 60 then 2 ^ k else 0 := by
  rw [opRingbufCreate, rounded]
  dsimp only [ringbufHeader, pointerSize]
  by_cases fits : k ≤ 60
  · have power : 2 ^ k ≤ 2 ^ 60 := Nat.pow_le_pow_right (by decide) fits
    rw [if_pos fits]
    omega
  · have cases : k = 61 ∨ k = 62 := by omega
    rcases cases with rfl | rfl <;> decide

section

variable (atMost : k ≤ 62)

include atMost

lemma ringbuf_position (i : Nat) : position (ringbufIndexing (2 ^ k - 1)) i = i % 2 ^ k := by
  induction i with
  | zero => exact (zero_mod _).symm
  | succ i ih =>
    rw [position_succ, ih]
    change (i % 2 ^ k + 1) % 2 ^ 64 &&& (2 ^ k - 1) = _
    rw [word_and_mask (by omega), mod_add_mod]

lemma ringbuf_cell (i : Nat) :
    (ringbufIndexing (2 ^ k - 1)).cell (position (ringbufIndexing (2 ^ k - 1)) i) = i % 2 ^ k := by
  change position _ i &&& (2 ^ k - 1) = _
  rw [ringbuf_position atMost, and_two_pow_sub_one_eq_mod, mod_mod]

lemma ringbuf_lawful : (ringbufIndexing (2 ^ k - 1)).Lawful (2 ^ k) (2 ^ k - 1) where
  cell_lt i := by
    rw [ringbuf_cell atMost]
    exact Nat.mod_lt _ (Nat.two_pow_pos k)
  apart i j order near := by
    rw [ringbuf_cell atMost, ringbuf_cell atMost]
    exact mod_ne_of_near order (by omega)
  full_iff tail head order space := by
    have pos := Nat.two_pow_pos k
    change ((position _ head + 1) % 2 ^ 64 &&& (2 ^ k - 1) == position _ tail) = true ↔ _
    rw [beq_iff_eq, ringbuf_position atMost, ringbuf_position atMost, word_and_mask (by omega), mod_add_mod]
    constructor
    · intro same
      by_contra other
      exact mod_ne_of_near (by omega) (by omega) same.symm
    · intro last
      rw [last, Nat.add_assoc, Nat.sub_add_cancel pos, Nat.add_mod_right]

omit atMost in
lemma spsc_position (mask i : Nat) : position (spscIndexing mask) i = i % 2 ^ 64 := by
  induction i with
  | zero => rfl
  | succ i ih =>
    rw [position_succ, ih]
    exact mod_add_mod _ _ _

lemma spsc_cell (i : Nat) : (spscIndexing (2 ^ k - 1)).cell (position (spscIndexing (2 ^ k - 1)) i) = i % 2 ^ k := by
  change position _ i &&& (2 ^ k - 1) = _
  rw [spsc_position, word_and_mask (by omega)]

lemma spsc_lawful : (spscIndexing (2 ^ k - 1)).Lawful (2 ^ k) (2 ^ k) where
  cell_lt i := by
    rw [spsc_cell atMost]
    exact Nat.mod_lt _ (Nat.two_pow_pos k)
  apart i j order near := by
    rw [spsc_cell atMost, spsc_cell atMost]
    exact mod_ne_of_near order near
  full_iff tail head order space := by
    have pos := Nat.two_pow_pos k
    have power : 2 ^ k ≤ 2 ^ 62 := Nat.pow_le_pow_right (by decide) atMost
    change decide ((position _ head + 2 ^ 64 - position _ tail) % 2 ^ 64 > 2 ^ k - 1) = true ↔ _
    rw [spsc_position, spsc_position, word_distance order (by omega), decide_eq_true_iff]
    omega

end

lemma opSpscInit_layout (made : opSpscInit capacity = some q) : ∃ k, k ≤ 62 ∧ q.mask = 2 ^ k - 1 ∧ q.slots = 2 ^ k := by
  unfold opSpscInit at made
  split at made
  · cases made
  next valid =>
    rw [not_or, not_not] at valid
    split at made
    · cases made
    next fits =>
      cases made
      obtain ⟨k, power⟩ := (and_sub_one_eq_zero_iff_isPowerOfTwo valid.1).mp valid.2
      apply Exists.intro k
      rw [power] at fits ⊢
      refine ⟨?_, rfl, rfl⟩
      by_contra large
      have atLeast : 2 ^ 63 ≤ 2 ^ k := Nat.pow_le_pow_right (by decide) (by omega)
      simp only [pointerSize] at fits
      omega

lemma not_fifo_of_no_slots {α : Type*} [Inhabited α] (proper : 1 &&& mask ≠ 0) (room : Nat) :
    ¬Fifo α (ringbufIndexing mask) 0 room := by
  intro fifo
  obtain ⟨s, ran, -⟩ := fifo default [.push default, .produce, .produce]
  have free : (ringbufIndexing mask).full 0 0 = false := beq_false_of_ne proper
  have outside : RingQueue.run (ringbufIndexing mask) 0 (State.init (default : α)) [.push default, .produce, .produce] =
      none := by
    simp [RingQueue.run, RingQueue.step, RingQueue.produce, State.init, free]
  rw [outside] at ran
  cases ran

theorem single_producer_fifo (α : Type) [Inhabited α] : (∀ capacity, capacity ≤ 2 ^ 62 →
      (Fifo α (ringbufIndexing (opRingbufCreate capacity).mask) (opRingbufCreate capacity).slots
        (opRingbufCreate capacity).mask ↔ capacity ≤ 2 ^ 60)) ∧
      ∀ capacity q, opSpscInit capacity = some q → Fifo α (spscIndexing q.mask) q.slots (q.mask + 1) := by
  constructor
  · intro capacity bound
    obtain ⟨k, pos, atMost, rounded, threshold⟩ := ringbufCapacity_spec bound
    have mask : (opRingbufCreate capacity).mask = 2 ^ k - 1 := congrArg (· - 1) rounded
    rw [opRingbufCreate_slots rounded atMost, mask, ← threshold]
    by_cases fits : k ≤ 60
    · rw [if_pos fits]
      exact iff_of_true (ringbuf_lawful atMost).fifo fits
    · rw [if_neg fits]
      have proper : 1 &&& (2 ^ k - 1) ≠ 0 := by
        rw [and_two_pow_sub_one_eq_mod, one_mod_two_pow (by omega)]
        exact one_ne_zero
      exact iff_of_false (not_fifo_of_no_slots proper _) fits
  · intro capacity q made
    obtain ⟨k, atMost, mask, slots⟩ := opSpscInit_layout made
    rw [mask, slots, Nat.sub_add_cancel (Nat.two_pow_pos k)]
    exact (spsc_lawful atMost).fifo

theorem single_producer_fifo_eight :
    opSpscInit 8 = some ⟨7, 8⟩ ∧ opRingbufCreate 5 = ⟨7, 8⟩ ∧ Fifo Nat (ringbufIndexing 7) 8 7 ∧
      Fifo Nat (spscIndexing 7) 8 8 := by
  have created : opRingbufCreate 5 = ⟨7, 8⟩ := by decide
  have made : opSpscInit 8 = some ⟨7, 8⟩ := by decide
  have ringbuf := ((single_producer_fifo Nat).1 5 (by decide)).mpr (by decide)
  exact ⟨made, created, ringbuf, (single_producer_fifo Nat).2 8 ⟨7, 8⟩ made⟩

/-- Above 2^60 the size of the slots is a multiple of 2^64, and the first push writes behind the allocation. -/
theorem ringbuf_size_wraps : (opRingbufCreate (2 ^ 60 + 1)).slots = 0 ∧
      RingQueue.run (ringbufIndexing (opRingbufCreate (2 ^ 60 + 1)).mask) (opRingbufCreate (2 ^ 60 + 1)).slots
        (State.init 0) [.push 7, .produce, .produce] = none := by
  decide

end LibOp.Queues

import LibOp.HashTable.Refinement

namespace LibOp.HashTable

open Foundation Finset Nat Function

variable {K V : Type}

/-- `op_htab_iter_t`; `cur` is `none` for `SIZE_MAX`. -/
structure HtabIter where
  idx : Nat
  cur : Option Nat

def htabIterInit : HtabIter := ⟨0, none⟩

def iterScan (ht : Htab K V) : Nat → Nat → Option Nat
  | 0, _ => none
  | remaining + 1, i => if (ht.slots i).hash ≠ 0 then some i else iterScan ht remaining (i + 1)

def htabIterNext (ht : Htab K V) (it : HtabIter) : HtabIter × Option (K × V) :=
  let cap := ht.mask + 1
  match iterScan ht (cap - it.idx) it.idx with
  | some i => (⟨i + 1, some i⟩, some ((ht.slots i).key, (ht.slots i).val))
  | none => (⟨max it.idx cap, none⟩, none)

section

variable [Inhabited K] [Inhabited V]

def htabIterDel (ht : Htab K V) (it : HtabIter) : Option (Htab K V × HtabIter × V) :=
  match it.cur with
  | none => some (ht, it, default)
  | some i =>
    if i ≥ ht.mask + 1 ∨ (ht.slots i).hash = 0 then some (ht, it, default)
    else do
      let val := (ht.slots i).val
      let deleted ← htabDelAt ht i
      some (deleted, ⟨i, none⟩, val)

/-- `op_htab_iter_next` until it returns false, with `op_htab_iter_del` after the entries of `choose`, and the entries
in order. -/
def visitLoop (choose : K → V → Bool) : Nat → Htab K V → HtabIter → Option (List (K × V))
  | 0, _, _ => none
  | rounds + 1, ht, it =>
    match htabIterNext ht it with
    | (_, none) => some []
    | (next, some (key, val)) =>
      if choose key val then do
        let (deleted, rewound, _) ← htabIterDel ht next
        let visited ← visitLoop choose rounds deleted rewound
        some ((key, val) :: visited)
      else do
        let visited ← visitLoop choose rounds ht next
        some ((key, val) :: visited)

def visitAll (choose : K → V → Bool) (ht : Htab K V) : Option (List (K × V)) :=
  visitLoop choose (ht.count + (ht.mask + 1) + 1) ht htabIterInit

end

variable {idx i mask n vacant : Nat} {ht : Htab K V}

lemma iterScan_some {remaining : Nat} (found : iterScan ht remaining idx = some i) :
    idx ≤ i ∧ i < idx + remaining ∧ (ht.slots i).hash ≠ 0 ∧ ∀ k, idx ≤ k → k < i → (ht.slots k).hash = 0 := by
  induction remaining generalizing idx with
  | zero => cases found
  | succ remaining ih =>
    simp only [iterScan] at found
    split at found
    next live =>
      cases found
      exact ⟨le_rfl, by omega, live, fun k low high => by omega⟩
    next empty =>
      obtain ⟨low, high, live, before⟩ := ih found
      refine ⟨by omega, by omega, live, fun k from_ below => ?_⟩
      rcases eq_or_lt_of_le from_ with rfl | later
      · exact Decidable.not_not.mp empty
      · exact before k later below

lemma iterScan_none {remaining : Nat} (missing : iterScan ht remaining idx = none) :
    ∀ k, idx ≤ k → k < idx + remaining → (ht.slots k).hash = 0 := by
  induction remaining generalizing idx with
  | zero => exact fun k low high => by omega
  | succ remaining ih =>
    simp only [iterScan] at missing
    split at missing
    next live => cases missing
    next empty =>
      intro k low high
      rcases eq_or_lt_of_le low with rfl | later
      · exact Decidable.not_not.mp empty
      · exact ih missing k later (by omega)

def AtHome (mask : Nat) (slots : Nat → HtabSlot K V) (i : Nat) : Prop :=
  (slots i).hash ≠ 0 ∧ dib mask i (slots i).hash = 0

def Wrapped (mask : Nat) (slots : Nat → HtabSlot K V) (i : Nat) : Prop :=
  (slots i).hash ≠ 0 ∧ i < (slots i).hash.toNat &&& mask

lemma dib_eq_zero (ok : MaskOk mask) (position : i < mask + 1) (h : UInt64) :
    dib mask i h = 0 ↔ h.toNat &&& mask = i := by
  have home := ok.home_lt h
  rw [dib_eq ok, displacement_eq home position]
  split <;> omega

variable {slots : Nat → HtabSlot K V}

lemma not_wrapped_of_start (ok : MaskOk mask)
    (ordered : Ordered (mask + 1) (reachAt mask slots)) (start : reachAt mask slots 0 ≤ 1) (position : i < mask + 1) :
    ¬ Wrapped mask slots i := by
  rintro ⟨live, wrapped⟩
  have grow := ordered.along (succ_pos mask) i
  rw [zero_add, mod_eq_of_lt position, reachAt_of_live live, dib_eq ok,
    displacement_eq (ok.home_lt _) position, if_neg (by omega)] at grow
  have home := ok.home_lt (slots i).hash
  omega

lemma reachAt_le_one (stop : (slots i).hash = 0 ∨ dib mask i (slots i).hash = 0) : reachAt mask slots i ≤ 1 := by
  rcases stop with empty | home
  · rw [reachAt_of_empty empty]
    omega
  · unfold reachAt reach
    split <;> omega

lemma not_wrapped_of_gap (ok : MaskOk mask)
    (ordered : Ordered (mask + 1) (reachAt mask slots)) {gap : Nat} (gapLt : gap < mask + 1)
    (empty : (slots gap).hash = 0) (none : ∀ k, gap < k → k < mask + 1 → ¬ AtHome mask slots k)
    (position : i < mask + 1) : ¬ Wrapped mask slots i := by
  have tail : ∀ steps, gap + steps < mask + 1 → (slots (gap + steps)).hash = 0 := by
    intro steps
    induction steps with
    | zero => exact fun _ => empty
    | succ steps ih =>
      intro inside
      have grow := ordered (gap + steps) (by omega)
      rw [reachAt_of_empty (ih (by omega)), mod_eq_of_lt (by omega)] at grow
      by_contra live
      rw [reachAt_of_live (i := gap + steps + 1) live] at grow
      exact none (gap + steps + 1) (by omega) inside ⟨live, by omega⟩
  refine not_wrapped_of_start ok ordered ?_ position
  have last := tail (mask - gap) (by omega)
  rw [show gap + (mask - gap) = mask by omega] at last
  have grow := ordered mask (lt_succ_self mask)
  rwa [mod_self, reachAt_of_empty last] at grow

/-- A backward shift inside the array moves the slots of `i + 1 .. n` down. -/
structure ShiftsWithin (mask : Nat) (slots slots' : Nat → HtabSlot K V) (i n : Nat) : Prop where
  start : i ≤ n
  inside : n < mask + 1
  moved : ∀ k, i ≤ k → k < n → slots' k = slots (k + 1) ∧ (slots (k + 1)).hash ≠ 0 ∧
    dib mask (k + 1) (slots (k + 1)).hash ≠ 0
  cleared : (slots' n).hash = 0
  kept : ∀ k, k < i ∨ n < k → slots' k = slots k
  stop : (slots ((n + 1) % (mask + 1))).hash = 0 ∨
    dib mask ((n + 1) % (mask + 1)) (slots ((n + 1) % (mask + 1))).hash = 0

/-- A backward shift over the end of the array brings slot 0 into the last slot. -/
structure ShiftsAcross (mask : Nat) (slots slots' : Nat → HtabSlot K V) (i vacant : Nat) : Prop where
  beyond : vacant < i
  tail : ∀ k, i < k → k < mask + 1 → (slots k).hash ≠ 0 ∧ dib mask k (slots k).hash ≠ 0
  front : (slots 0).hash ≠ 0 ∧ dib mask 0 (slots 0).hash ≠ 0
  moved : ∀ k, i ≤ k → k < mask → slots' k = slots (k + 1)
  last : slots' mask = slots 0
  kept : ∀ k, vacant ≤ k → k < i → slots' k = slots k

variable {slots slots' : Nat → HtabSlot K V}

lemma ShiftsWithin.extend (displaced : (slots (i + 1)).hash ≠ 0 ∧ dib mask (i + 1) (slots (i + 1)).hash ≠ 0)
    (within : ShiftsWithin mask (update slots i (slots (i + 1))) slots' (i + 1) n) (aside : (n + 1) % (mask + 1) ≠ i) :
    ShiftsWithin mask slots slots' i n := by
  have others : ∀ k, k ≠ i → update slots i (slots (i + 1)) k = slots k :=
    fun k other => update_of_ne other _ _
  have far := within.start
  refine ⟨by omega, within.inside, ?_, within.cleared, ?_, ?_⟩
  · intro k low high
    rcases eq_or_lt_of_le low with rfl | later
    · rw [within.kept i (by omega), update_self]
      exact ⟨rfl, displaced⟩
    · have moved := within.moved k later high
      rwa [others (k + 1) (by omega)] at moved
  · intro k other
    rw [within.kept k (by omega), others k (by omega)]
  · have ahead := within.stop
    rwa [others _ aside] at ahead

lemma ShiftsAcross.extend (apart : i ≠ vacant) (inner : i ≠ 0)
    (displaced : (slots (i + 1)).hash ≠ 0 ∧ dib mask (i + 1) (slots (i + 1)).hash ≠ 0)
    (across : ShiftsAcross mask (update slots i (slots (i + 1))) slots' (i + 1) vacant) :
    ShiftsAcross mask slots slots' i vacant := by
  have others : ∀ k, k ≠ i → update slots i (slots (i + 1)) k = slots k :=
    fun k other => update_of_ne other _ _
  have beyond := across.beyond
  have start := across.front
  rw [others 0 (by omega)] at start
  refine ⟨by omega, ?_, start, ?_, ?_, ?_⟩
  · intro k low high
    rcases Nat.eq_or_lt_of_le low with rfl | later
    · exact displaced
    · have tail := across.tail k later high
      rwa [others k (by omega)] at tail
  · intro k low high
    rcases eq_or_lt_of_le low with rfl | later
    · rw [across.kept i (by omega) (by omega), update_self]
    · rw [across.moved k later high, others (k + 1) (by omega)]
  · rw [across.last, others 0 (by omega)]
  · intro k low high
    rw [across.kept k low (by omega), others k (by omega)]

lemma ShiftsWithin.around (beyond : vacant < mask) (displaced : (slots 0).hash ≠ 0 ∧ dib mask 0 (slots 0).hash ≠ 0)
    (short : n < vacant) (within : ShiftsWithin mask (update slots mask (slots 0)) slots' 0 n) :
    ShiftsAcross mask slots slots' mask vacant := by
  refine ⟨beyond, fun k low high => by omega, displaced, fun k low high => by omega, ?_, ?_⟩
  · rw [within.kept mask (by omega), update_self]
  · intro k low high
    rw [within.kept k (by omega), update_of_ne (by omega)]

lemma shiftLoop_outcome [Inhabited K] [Inhabited V] (ok : MaskOk mask) (vacantLt : vacant < mask + 1) (rounds : Nat)
    (slots slots' : Nat → HtabSlot K V) (i : Nat) (position : i < mask + 1) (live : (slots i).hash ≠ 0)
    (empty : (slots vacant).hash = 0) (result : shiftLoop mask rounds slots i = some slots') :
    (∃ n, ShiftsWithin mask slots slots' i n ∧ (i ≤ vacant → n < vacant)) ∨
      ShiftsAcross mask slots slots' i vacant := by
  have large := ok.large
  induction rounds generalizing slots i with
  | zero => cases result
  | succ rounds ih =>
    have apart : i ≠ vacant := fun same => live (same ▸ empty)
    simp only [shiftLoop] at result
    rw [ok.and_eq] at result
    by_cases stop : (slots ((i + 1) % (mask + 1))).hash = 0 ∨
        dib mask ((i + 1) % (mask + 1)) (slots ((i + 1) % (mask + 1))).hash = 0
    · rw [if_pos stop] at result
      cases result
      refine .inl ⟨i, ⟨le_refl i, position, fun k low high => by omega, ?_, fun k other => ?_, stop⟩,
        fun before => by omega⟩
      · rw [update_self]
        rfl
      · rw [update_of_ne (by omega)]
    · rw [if_neg stop] at result
      push Not at stop
      have others : ∀ k, k ≠ i →
          update slots i (slots ((i + 1) % (mask + 1))) k = slots k :=
        fun k other => update_of_ne other _ _
      have vacantKept := others vacant (Ne.symm apart)
      by_cases inner : i + 1 < mask + 1
      · rw [mod_eq_of_lt inner] at result stop others vacantKept
        have outcome := ih (update slots i (slots (i + 1))) (i + 1) inner
          (by rw [others _ (by omega)]; exact stop.1) (by rwa [vacantKept]) result
        rcases outcome with ⟨n, within, before⟩ | across
        · refine .inl ⟨n, within.extend stop ?_, fun low => before (by omega)⟩
          have far := within.start
          rw [next_eq within.inside]
          split
          -- A shift that ends in the last slot has passed the vacant one, so it did not start at slot 0.
          next wraps => exact fun first => by have := before (by omega); omega
          next => omega
        · have beyond := across.beyond
          exact .inr (across.extend apart (by omega) stop)
      · have last : i = mask := by omega
        subst last
        rw [mod_self] at result stop others vacantKept
        have outcome := ih (update slots i (slots 0)) 0 (by omega)
          (by rw [others 0 (by omega)]; exact stop.1) (by rwa [vacantKept]) result
        rcases outcome with ⟨n, within, before⟩ | across
        · exact .inr (within.around (by omega) stop (before (zero_le _)))
        · exact absurd across.beyond (not_lt_zero _)

def remaining (mask : Nat) (slots : Nat → HtabSlot K V) (idx : Nat) : Multiset (HtabSlot K V) :=
  bag cell (Finset.Ico idx (mask + 1)) slots

lemma remaining_empty (empty : ∀ k, idx ≤ k → k < mask + 1 → (slots k).hash = 0) : remaining mask slots idx = 0 := by
  unfold remaining bag
  apply sum_eq_zero
  intro k mem
  rw [mem_Ico] at mem
  exact cell_of_empty (empty k mem.1 mem.2)

lemma remaining_found (low : idx ≤ i) (position : i < mask + 1)
    (live : (slots i).hash ≠ 0) (before : ∀ k, idx ≤ k → k < i → (slots k).hash = 0) :
    remaining mask slots idx = slots i ::ₘ remaining mask slots (i + 1) := by
  have skipped : ∑ k ∈ Finset.Ico idx i, cell (slots k) = 0 := by
    apply sum_eq_zero
    intro k mem
    rw [mem_Ico] at mem
    exact cell_of_empty (before k mem.1 mem.2)
  unfold remaining bag
  rw [← sum_Ico_consecutive _ low (le_of_lt position), skipped, zero_add,
    sum_eq_sum_Ico_succ_bot position, cell_of_live live, Multiset.singleton_add]

lemma remaining_live (position : i < mask + 1) (live : (slots i).hash ≠ 0) :
    remaining mask slots i = slots i ::ₘ remaining mask slots (i + 1) :=
  remaining_found (le_refl i) position live fun _ low high => absurd high (not_lt.mpr low)

lemma ShiftsWithin.remaining (within : ShiftsWithin mask slots slots' i n) :
    remaining mask slots' i = HashTable.remaining mask slots (i + 1) := by
  have shifted : ∑ k ∈ Finset.Ico i n, cell (slots' k) = ∑ k ∈ Finset.Ico (i + 1) (n + 1), cell (slots k) := by
    rw [← sum_Ico_add' (fun k => cell (slots k)) i n 1]
    apply sum_congr rfl
    intro k mem
    rw [mem_Ico] at mem
    rw [(within.moved k mem.1 mem.2).1]
  have beyond : ∑ k ∈ Finset.Ico (n + 1) (mask + 1), cell (slots' k) =
      ∑ k ∈ Finset.Ico (n + 1) (mask + 1), cell (slots k) := by
    apply sum_congr rfl
    intro k mem
    rw [mem_Ico] at mem
    rw [within.kept k (by omega)]
  unfold HashTable.remaining bag
  rw [← sum_Ico_consecutive _ within.start (le_of_lt within.inside),
    sum_eq_sum_Ico_succ_bot within.inside, cell_of_empty within.cleared, zero_add, shifted, beyond,
    sum_Ico_consecutive _ (succ_le_succ within.start) within.inside]

lemma ShiftsAcross.remaining (across : ShiftsAcross mask slots slots' i vacant) (position : i < mask + 1) :
    remaining mask slots' i = slots 0 ::ₘ HashTable.remaining mask slots (i + 1) := by
  have shifted : ∑ k ∈ Finset.Ico i mask, cell (slots' k) = ∑ k ∈ Finset.Ico (i + 1) (mask + 1), cell (slots k) := by
    rw [← sum_Ico_add' (fun k => cell (slots k)) i mask 1]
    apply sum_congr rfl
    intro k mem
    rw [mem_Ico] at mem
    rw [across.moved k mem.1 mem.2]
  unfold HashTable.remaining bag
  rw [sum_Ico_succ_top (le_of_lt_succ position), shifted, across.last,
    cell_of_live across.front.1, add_comm, Multiset.singleton_add]

end LibOp.HashTable

import LibOp.Foundation.Tallies
import LibOp.Wm.Meter

namespace LibOp.Wm

open Foundation List Meter Nat

def addedIn (calls : List Call) (low high : Nat) : Nat :=
  tally (fun t => decide (low < t ∧ t ≤ high)) (additions calls)

/-- Every count is within the bounds of the window, with a clock above the window and up to `limit`. -/
def Accurate (windowMs nBuckets limit : Nat) : Prop :=
  ∀ (calls : List Call) (nowMs : Nat), (calls.map Call.time ++ [nowMs]).Pairwise (· ≤ ·) →
    (∀ t ∈ calls.map Call.time ++ [nowMs], windowMs < t ∧ t ≤ limit) →
    tally (fun _ => true) (additions calls) < 2 ^ 64 →
    let wm := after (wmSetup windowMs nBuckets) calls
    (opWmCount wm nowMs).2 ≤ addedIn calls (nowMs - windowMs) nowMs ∧
      addedIn calls (nowMs - windowMs + wm.bucketMs) nowMs ≤ (opWmCount wm nowMs).2

structure Meter.Sized (wm : Meter) : Prop where
  slots : 0 < wm.n
  fits : wm.n < 2 ^ 32
  bucket : 0 < wm.bucketMs
  within : wm.bucketMs ≤ wm.windowMs
  window : wm.windowMs < 2 ^ 64

variable {wm : Meter}

lemma Meter.Sized.index_lt (sized : wm.Sized) (t : Nat) : wm.index t < wm.n :=
  lt_of_le_of_lt (mod_le _ _) (mod_lt _ sized.slots)

lemma Meter.Sized.index_eq (sized : wm.Sized) (t : Nat) : wm.index t = t / wm.bucketMs % wm.n :=
  mod_eq_of_lt (lt_trans (mod_lt _ sized.slots) sized.fits)

lemma epoch_le (wm : Meter) (t : Nat) : wm.epoch t ≤ t := div_mul_le_self _ _

lemma Meter.Sized.lt_epoch_add (sized : wm.Sized) (t : Nat) : t < wm.epoch t + wm.bucketMs := by
  have split := div_add_mod' t wm.bucketMs
  have rest := mod_lt t sized.bucket
  rw [Meter.epoch]
  omega

variable {s i nowMs : Nat} {t : Nat}

lemma epoch_mono (wm : Meter) (order : s ≤ t) : wm.epoch s ≤ wm.epoch t :=
  Nat.mul_le_mul_right _ (Nat.div_le_div_right order)

lemma Meter.Sized.epoch_pos (sized : wm.Sized) (above : wm.windowMs < t) : 0 < wm.epoch t :=
  Nat.mul_pos (Nat.div_pos (Nat.le_of_lt (Nat.lt_of_le_of_lt sized.within above)) sized.bucket) sized.bucket

lemma Meter.Sized.epoch_add_div (sized : wm.Sized) (s turns : Nat) (short : rest < wm.bucketMs) :
    (wm.epoch s + turns * wm.bucketMs + rest) / wm.bucketMs = s / wm.bucketMs + turns := by
  rw [Meter.epoch, ← Nat.add_mul, Nat.mul_comm, Nat.mul_add_div sized.bucket, Nat.div_eq_of_lt short, Nat.add_zero]

lemma Meter.Sized.turn_le (sized : wm.Sized) (order : s ≤ t) (slot : wm.index s = wm.index t)
    (other : wm.epoch s ≠ wm.epoch t) : wm.epoch s + wm.n * wm.bucketMs ≤ t := by
  rw [sized.index_eq, sized.index_eq] at slot
  have quotients : s / wm.bucketMs ≤ t / wm.bucketMs := Nat.div_le_div_right order
  have differ : s / wm.bucketMs ≠ t / wm.bucketMs := fun same => other (congrArg (· * wm.bucketMs) same)
  have turn : s / wm.bucketMs + wm.n ≤ t / wm.bucketMs := by
    have divides : wm.n ∣ t / wm.bucketMs - s / wm.bucketMs :=
      dvd_of_mod_eq_zero (sub_mod_eq_zero_of_mod_eq slot.symm)
    have atLeast := le_of_dvd (by omega) divides
    omega
  apply le_trans _ (epoch_le wm t)
  rw [Meter.epoch, Meter.epoch, ← Nat.add_mul]
  exact mul_le_mul_right _ turn

lemma Meter.Sized.exists_turn (sized : wm.Sized) (long : wm.n * wm.bucketMs + 1 < wm.windowMs) :
    ∃ early late, wm.windowMs < early ∧ early ≤ late ∧ late - wm.windowMs + wm.bucketMs < early ∧
      late = wm.epoch (wm.windowMs + 1) + wm.n * wm.bucketMs ∧ wm.index early = wm.index late ∧
        wm.epoch early ≠ wm.epoch late := by
  have pos := sized.bucket
  have current := sized.lt_epoch_add (wm.windowMs + 1)
  have turn : wm.bucketMs ≤ wm.n * wm.bucketMs := Nat.le_mul_of_pos_left _ sized.slots
  have early := sized.epoch_add_div (wm.windowMs + 1) 0 (sub_lt pos one_pos)
  have late := sized.epoch_add_div (wm.windowMs + 1) wm.n pos
  simp only [zero_mul, add_zero] at early late
  have slot : wm.index (wm.epoch (wm.windowMs + 1) + (wm.bucketMs - 1)) =
      wm.index (wm.epoch (wm.windowMs + 1) + wm.n * wm.bucketMs) := by
    rw [sized.index_eq, sized.index_eq, early, late, add_mod_right]
  have other : wm.epoch (wm.epoch (wm.windowMs + 1) + (wm.bucketMs - 1)) ≠
      wm.epoch (wm.epoch (wm.windowMs + 1) + wm.n * wm.bucketMs) := by
    change _ / _ * _ ≠ _ / _ * _
    rw [early, late, Nat.add_mul]
    omega
  exact ⟨_, _, by omega, by omega, by omega, rfl, slot, other⟩

def Meter.holds (wm : Meter) (i t : Nat) : Bool := wm.index t == i && decide (wm.epoch t = (wm.buckets i).tsMs)

structure Meter.AtMost (wm : Meter) (events : List (Nat × Nat)) : Prop where
  sized : wm.Sized
  above : ∀ e ∈ events, wm.windowMs < e.1
  count_le : ∀ i, (wm.buckets i).count ≤ tally (wm.holds i) events

/-- No event is missing but those expired or overrun by the ring. -/
structure Meter.AtLeast (wm : Meter) (events : List (Nat × Nat)) (now : Nat) : Prop where
  past : ∀ e ∈ events, e.1 ≤ now
  le_count : ∀ i, tally (wm.holds i) events ≤ (wm.buckets i).count
  stamps : ∀ i, (wm.buckets i).tsMs + wm.windowMs < 2 ^ 64
  kept : ∀ e ∈ events, (wm.buckets (wm.index e.1)).tsMs = wm.epoch e.1 ∨ wm.epoch e.1 + wm.windowMs ≤ now ∨
    wm.epoch e.1 + wm.n * wm.bucketMs ≤ now

variable {events : List (Nat × Nat)} {now t n : Nat}

lemma advance_slot (wm : Meter) (now i : Nat) :
    (advance wm now).buckets i = ⟨0, 0⟩ ∨ (advance wm now).buckets i = wm.buckets i := by
  by_cases old : expired wm.windowMs now (wm.buckets i)
  · exact .inl (if_pos old)
  · exact .inr (if_neg old)

lemma advance_holds (unchanged : (advance wm now).buckets i = wm.buckets i) :
    (advance wm now).holds i = wm.holds i := by
  funext t
  rw [holds, holds, unchanged]
  rfl

lemma Meter.AtMost.advance (atMost : wm.AtMost events) (now : Nat) : (advance wm now).AtMost events where
  sized := ⟨atMost.sized.slots, atMost.sized.fits, atMost.sized.bucket, atMost.sized.within, atMost.sized.window⟩
  above := atMost.above
  count_le i := by
    rcases advance_slot wm now i with cleared | unchanged
    · rw [cleared]
      exact zero_le _
    · rw [unchanged, advance_holds unchanged]
      exact atMost.count_le i

lemma tally_holds_cleared (atMost : wm.AtMost events) (cleared : (wm.buckets i).tsMs = 0) :
    tally (wm.holds i) events = 0 := by
  apply tally_eq_zero
  intro e mem
  have pos := atMost.sized.epoch_pos (atMost.above e mem)
  rw [holds, cleared, decide_eq_false (ne_of_gt pos), Bool.and_false]

lemma Meter.AtLeast.advance (atMost : wm.AtMost events) (atLeast : wm.AtLeast events now) (later : now ≤ t) :
    (advance wm t).AtLeast events t where
  past e mem := le_trans (atLeast.past e mem) later
  le_count i := by
    rcases advance_slot wm t i with cleared | unchanged
    · rw [tally_holds_cleared (atMost.advance t) (by rw [cleared])]
      exact zero_le _
    · rw [unchanged, advance_holds unchanged]
      exact atLeast.le_count i
  stamps i := by
    rcases advance_slot wm t i with cleared | unchanged
    · rw [cleared]
      exact (Nat.zero_add _).symm ▸ atMost.sized.window
    · rw [unchanged]
      exact atLeast.stamps i
  kept e mem := by
    change (if expired wm.windowMs t (wm.buckets (wm.index e.1)) then (⟨0, 0⟩ : Slot)
      else wm.buckets (wm.index e.1)).tsMs = wm.epoch e.1 ∨ wm.epoch e.1 + wm.windowMs ≤ t ∨
        wm.epoch e.1 + wm.n * wm.bucketMs ≤ t
    rcases atLeast.kept e mem with present | old | turned
    · split
      next old =>
        have bound := atLeast.stamps (wm.index e.1)
        rw [expired, mod_eq_of_lt bound, present] at old
        exact .inr (.inl old)
      · exact .inl present
    · exact .inr (.inl (le_trans old later))
    · exact .inr (.inr (le_trans turned later))

@[simp] lemma slotAt_tsMs (wm : Meter) (t : Nat) : (wm.slotAt t).tsMs = wm.epoch t := by
  by_cases other : (wm.buckets (wm.index t)).tsMs = wm.epoch t
  · rw [slotAt, if_neg (not_not.mpr other), other]
  · rw [slotAt, if_pos other]

lemma record_self (wm : Meter) (t n : Nat) :
    (wm.record t n).buckets (wm.index t) = ⟨wm.epoch t, ((wm.slotAt t).count + n) % 2 ^ 64⟩ := by
  change Function.update wm.buckets (wm.index t) _ (wm.index t) = _
  rw [Function.update_self, slotAt_tsMs]

lemma record_other (other : i ≠ wm.index t) : (wm.record t n).buckets i = wm.buckets i :=
  Function.update_of_ne other _ _

lemma tally_record_other (other : i ≠ wm.index t) :
    tally ((wm.record t n).holds i) (events ++ [(t, n)]) = tally (wm.holds i) events := by
  have same : (wm.record t n).holds i = wm.holds i := by
    funext x
    rw [holds, holds, record_other other]
    rfl
  have elsewhere : wm.holds i t = false := by rw [holds, beq_false_of_ne other.symm, Bool.false_and]
  rw [tally_append, same, tally, elsewhere]
  rfl

lemma tally_record_self : tally ((wm.record t n).holds (wm.index t)) (events ++ [(t, n)]) =
      tally ((wm.record t n).holds (wm.index t)) events + n := by
  have here : (wm.record t n).holds (wm.index t) t = true := by
    rw [holds, record_self]
    change ((wm.index t == wm.index t) && decide (wm.epoch t = wm.epoch t)) = true
    rw [beq_self_eq_true, decide_eq_true rfl]
    rfl
  rw [tally_append, tally, here]
  rfl

lemma slotAt_count_cases (wm : Meter) (t n : Nat) : (wm.slotAt t).count = (wm.buckets (wm.index t)).count ∧
        (wm.record t n).holds (wm.index t) = wm.holds (wm.index t) ∨
      (wm.slotAt t).count = 0 ∧ (wm.buckets (wm.index t)).tsMs ≠ wm.epoch t := by
  by_cases other : (wm.buckets (wm.index t)).tsMs = wm.epoch t
  · left
    rw [slotAt, if_neg (not_not.mpr other)]
    apply And.intro rfl
    funext x
    rw [holds, holds, record_self, other]
    rfl
  · right
    rw [slotAt, if_pos other]
    exact ⟨rfl, other⟩

lemma Meter.AtMost.record (atMost : wm.AtMost events) (above : wm.windowMs < t) (n : Nat) :
    (wm.record t n).AtMost (events ++ [(t, n)]) where
  sized := ⟨atMost.sized.slots, atMost.sized.fits, atMost.sized.bucket, atMost.sized.within, atMost.sized.window⟩
  above := List.forall_mem_append.mpr ⟨atMost.above, List.forall_mem_singleton.mpr above⟩
  count_le i := by
    by_cases here : i = wm.index t
    · rw [here, record_self, tally_record_self]
      apply le_trans (mod_le _ _)
      apply Nat.add_le_add_right
      rcases slotAt_count_cases wm t n with ⟨count, same⟩ | ⟨count, -⟩
      · rw [count, same]
        exact atMost.count_le _
      · rw [count]
        exact zero_le _
    · rw [record_other here, tally_record_other here]
      exact atMost.count_le i

lemma Meter.AtLeast.epoch_ne (atLeast : wm.AtLeast events t) (sized : wm.Sized) (mem : e ∈ events)
    (slot : wm.index e.1 = wm.index t) (other : (wm.buckets (wm.index t)).tsMs ≠ wm.epoch t) :
    wm.epoch e.1 ≠ wm.epoch t := by
  intro same
  have current := sized.lt_epoch_add t
  have window := sized.within
  have turn : wm.bucketMs ≤ wm.n * wm.bucketMs := Nat.le_mul_of_pos_left _ sized.slots
  rcases atLeast.kept e mem with present | old | turned
  · rw [slot, same] at present
    exact other present
  · omega
  · omega

lemma Meter.AtLeast.record (atMost : wm.AtMost events) (atLeast : wm.AtLeast events t)
    (stamp : wm.epoch t + wm.windowMs < 2 ^ 64) (total : tally (fun _ => true) (events ++ [(t, n)]) < 2 ^ 64) :
    (wm.record t n).AtLeast (events ++ [(t, n)]) t where
  past := List.forall_mem_append.mpr ⟨atLeast.past, List.forall_mem_singleton.mpr (Nat.le_refl t)⟩
  le_count i := by
    by_cases here : i = wm.index t
    · have whole : tally (wm.holds (wm.index t)) events + n < 2 ^ 64 := by
        apply lt_of_le_of_lt _ total
        rw [tally_append]
        exact Nat.add_le_add (tally_mono fun _ _ _ => rfl) (Nat.le_refl n)
      rw [here, record_self, tally_record_self]
      rcases slotAt_count_cases wm t n with ⟨count, same⟩ | ⟨count, other⟩
      · have most := atMost.count_le (wm.index t)
        have least := atLeast.le_count (wm.index t)
        rw [count, same, mod_eq_of_lt (by omega)]
        exact Nat.add_le_add_right least n
      · have fresh : tally ((wm.record t n).holds (wm.index t)) events = 0 := by
          apply tally_eq_zero
          intro e mem
          apply Bool.eq_false_iff.mpr
          intro held
          rw [holds, record_self] at held
          obtain ⟨slot, epoch⟩ := (Bool.and_eq_true _ _).mp held
          exact atLeast.epoch_ne atMost.sized mem (beq_iff_eq.mp slot) other (of_decide_eq_true epoch)
        rw [fresh, count, zero_add, mod_eq_of_lt (by omega)]
    · rw [record_other here, tally_record_other here]
      exact atLeast.le_count i
  stamps i := by
    by_cases here : i = wm.index t
    · rw [here, record_self]
      exact stamp
    · rw [record_other here]
      exact atLeast.stamps i
  kept e mem := by
    change ((wm.record t n).buckets (wm.index e.1)).tsMs = wm.epoch e.1 ∨ wm.epoch e.1 + wm.windowMs ≤ t ∨
      wm.epoch e.1 + wm.n * wm.bucketMs ≤ t
    rcases List.mem_append.mp mem with earlier | last
    · by_cases slot : wm.index e.1 = wm.index t
      · by_cases same : wm.epoch e.1 = wm.epoch t
        · left
          rw [slot, record_self, same]
        · exact .inr (.inr (atMost.sized.turn_le (atLeast.past e earlier) slot same))
      · rw [record_other slot]
        exact atLeast.kept e earlier
    · left
      rw [List.mem_singleton.mp last, record_self]

lemma after_sizes (calls : List Call) (wm : Meter) : (after wm calls).n = wm.n ∧
    (after wm calls).windowMs = wm.windowMs ∧ (after wm calls).bucketMs = wm.bucketMs := by
  induction calls generalizing wm with
  | nil => exact ⟨rfl, rfl, rfl⟩
  | cons call rest ih => cases call <;> exact ih _

lemma mem_additions (mem : e ∈ additions calls) : e.1 ∈ calls.map Call.time := by
  induction calls with
  | nil => exact absurd mem not_mem_nil
  | cons call rest ih =>
    cases call with
    | add nowMs n =>
      rcases List.mem_cons.mp mem with rfl | later
      · exact mem_cons_self
      · exact mem_cons_of_mem _ (ih later)
    | tick nowMs | count nowMs => exact mem_cons_of_mem _ (ih mem)

lemma Meter.AtMost.add (atMost : wm.AtMost events) (above : wm.windowMs < t) (n : Nat) :
    (opWmAdd wm t n).AtMost (events ++ [(t, n)]) := (atMost.advance t).record above n

lemma Meter.AtMost.run (atMost : wm.AtMost events) (calls : List Call) (above : ∀ c ∈ calls, wm.windowMs < c.time) :
    (after wm calls).AtMost (events ++ additions calls) := by
  induction calls generalizing wm events with
  | nil => exact (append_nil events).symm ▸ atMost
  | cons call rest ih =>
    obtain ⟨here, others⟩ := List.forall_mem_cons.mp above
    cases call with
    | add nowMs n =>
      have next := ih (atMost.add here n) others
      rw [append_assoc] at next
      exact next
    | tick nowMs | count nowMs => exact ih (atMost.advance nowMs) others

lemma Meter.AtLeast.mono (atLeast : wm.AtLeast events now) (later : now ≤ t) : wm.AtLeast events t where
  past e mem := le_trans (atLeast.past e mem) later
  le_count := atLeast.le_count
  stamps := atLeast.stamps
  kept e mem := (atLeast.kept e mem).imp_right fun lost => lost.imp (le_trans · later) (le_trans · later)

lemma Meter.AtLeast.run (atMost : wm.AtMost events) (atLeast : wm.AtLeast events now) (calls : List Call)
    (above : ∀ c ∈ calls, wm.windowMs < c.time) (ordered : (now :: calls.map Call.time ++ [t]).Pairwise (· ≤ ·))
    (stamps : ∀ c ∈ calls, wm.epoch c.time + wm.windowMs < 2 ^ 64)
    (total : tally (fun _ => true) (events ++ additions calls) < 2 ^ 64) :
    (after wm calls).AtLeast (events ++ additions calls) t := by
  induction calls generalizing wm events now with
  | nil =>
    have later : now ≤ t := rel_of_pairwise_cons ordered mem_cons_self
    exact (append_nil events).symm ▸ atLeast.mono later
  | cons call rest ih =>
    obtain ⟨here, others⟩ := List.forall_mem_cons.mp above
    obtain ⟨stamp, otherStamps⟩ := List.forall_mem_cons.mp stamps
    have later : now ≤ call.time := rel_of_pairwise_cons ordered mem_cons_self
    have advanced := Meter.AtLeast.advance atMost atLeast later
    have ordered := ordered.of_cons
    cases call with
    | add nowMs n =>
      change tally _ (events ++ ([(nowMs, n)] ++ additions rest)) < _ at total
      rw [← append_assoc] at total
      have first : tally (fun _ => true) (events ++ [(nowMs, n)]) < 2 ^ 64 := by
        rw [tally_append] at total
        exact lt_of_le_of_lt (le_add_right _ _) total
      have next := ih (atMost.add here n)
        (Meter.AtLeast.record (atMost.advance nowMs) advanced stamp first) others ordered otherStamps total
      rw [append_assoc] at next
      exact next
    | tick nowMs | count nowMs => exact ih (atMost.advance nowMs) advanced others ordered otherStamps total

variable {windowMs nBuckets : Nat}

lemma wmSetup_eq (window : 1 ≤ windowMs) (slots : 1 ≤ nBuckets) : wmSetup windowMs nBuckets =
      { n := nBuckets, windowMs := windowMs, bucketMs := max (windowMs / nBuckets) 1, buckets := fun _ => ⟨0, 0⟩ } := by
  have size : (if windowMs / nBuckets = 0 then 1 else windowMs / nBuckets) = max (windowMs / nBuckets) 1 := by
    by_cases zero : windowMs / nBuckets = 0
    · rw [if_pos zero, zero]
      rfl
    · rw [if_neg zero, max_eq_left (pos_of_ne_zero zero)]
  rw [wmSetup, if_neg (by omega), if_neg (by omega), size]

lemma wmSetup_sized (window : 1 ≤ windowMs) (slots : 1 ≤ nBuckets)
    (representable : windowMs < 2 ^ 64) (fits : nBuckets < 2 ^ 32) : (wmSetup windowMs nBuckets).Sized := by
  rw [wmSetup_eq window slots]
  exact ⟨slots, fits, Nat.le_max_right _ _, Nat.max_le.mpr ⟨Nat.div_le_self _ _, window⟩, representable⟩

lemma wmSetup_atMost (sized : (wmSetup t n).Sized) : (wmSetup t n).AtMost [] :=
  ⟨sized, fun _ mem => absurd mem not_mem_nil, fun _ => le_refl 0⟩

lemma wmSetup_atLeast (sized : (wmSetup t n).Sized) (now : Nat) : (wmSetup t n).AtLeast [] now :=
  ⟨fun _ mem => absurd mem not_mem_nil, fun _ => le_refl 0,
    fun _ => (Nat.zero_add _).symm ▸ sized.window, fun _ mem => absurd mem not_mem_nil⟩

lemma totalCount_eq (buckets : Nat → Slot) (n : Nat) :
    totalCount buckets n = (∑ i ∈ Finset.range n, (buckets i).count) % 2 ^ 64 := by
  induction n with
  | zero => rfl
  | succ n ih => rw [totalCount, ih, Finset.sum_range_succ, mod_add_mod]

def Meter.held (wm : Meter) (t : Nat) : Bool := decide (wm.epoch t = (wm.buckets (wm.index t)).tsMs)

lemma sum_tally_holds (sized : wm.Sized) (events : List (Nat × Nat)) :
    ∑ i ∈ Finset.range wm.n, tally (wm.holds i) events = tally wm.held events :=
  sum_tally_kinds wm.n wm.index (fun i t => decide (wm.epoch t = (wm.buckets i).tsMs)) events
    fun e _ => sized.index_lt e.1

section

variable (atMost : wm.AtMost events)

include atMost

lemma Meter.AtMost.sum_le : ∑ i ∈ Finset.range wm.n, (wm.buckets i).count ≤ tally wm.held events := by
  rw [← sum_tally_holds atMost.sized]
  exact Finset.sum_le_sum fun i _ => atMost.count_le i

lemma opWmCount_le (past : ∀ e ∈ events, e.1 ≤ nowMs) :
    (opWmCount wm nowMs).2 ≤ tally (fun x => decide (nowMs - wm.windowMs < x ∧ x ≤ nowMs)) events := by
  have advanced := atMost.advance nowMs
  change totalCount (advance wm nowMs).buckets (advance wm nowMs).n ≤ _
  rw [totalCount_eq]
  apply le_trans (mod_le _ _)
  apply le_trans advanced.sum_le
  apply tally_mono
  intro e mem held
  have epoch : wm.epoch e.1 = ((advance wm nowMs).buckets (wm.index e.1)).tsMs := of_decide_eq_true held
  have pos := atMost.sized.epoch_pos (atMost.above e mem)
  have start := epoch_le wm e.1
  apply decide_eq_true
  apply And.intro _ (past e mem)
  change _ = (if expired wm.windowMs nowMs (wm.buckets (wm.index e.1)) then (⟨0, 0⟩ : Slot)
    else wm.buckets (wm.index e.1)).tsMs at epoch
  split at epoch
  · exact absurd epoch (ne_of_gt pos)
  next current =>
    rw [expired, ge_iff_le, not_le] at current
    omega

lemma le_opWmCount (atLeast : wm.AtLeast events nowMs)
    (total : tally (fun _ => true) events < 2 ^ 64) (above : wm.windowMs < nowMs)
    (unturned : ∀ e ∈ events, nowMs - wm.windowMs + wm.bucketMs < e.1 → nowMs < wm.epoch e.1 + wm.n * wm.bucketMs) :
    tally (fun x => decide (nowMs - wm.windowMs + wm.bucketMs < x ∧ x ≤ nowMs)) events ≤ (opWmCount wm nowMs).2 := by
  have advanced := atMost.advance nowMs
  have retained := Meter.AtLeast.advance atMost atLeast (le_refl nowMs)
  change _ ≤ totalCount (advance wm nowMs).buckets (advance wm nowMs).n
  have bounded : ∑ i ∈ Finset.range (advance wm nowMs).n, ((advance wm nowMs).buckets i).count < 2 ^ 64 :=
    lt_of_le_of_lt (le_trans advanced.sum_le (tally_mono fun _ _ _ => rfl)) total
  rw [totalCount_eq, mod_eq_of_lt bounded]
  apply le_trans _ (Finset.sum_le_sum fun i _ => retained.le_count i)
  rw [sum_tally_holds advanced.sized]
  apply tally_mono
  intro e mem inside
  obtain ⟨recent, -⟩ := of_decide_eq_true inside
  have bucket := atMost.sized.lt_epoch_add e.1
  rcases retained.kept e mem with present | old | turned
  · exact decide_eq_true present.symm
  · change wm.epoch e.1 + wm.windowMs ≤ nowMs at old
    omega
  · exact absurd (unturned e mem recent) (not_lt.mpr turned)

lemma opWmCount_lost : (opWmCount wm nowMs).2 ≤ tally (advance wm nowMs).held events := by
  change totalCount (advance wm nowMs).buckets (advance wm nowMs).n ≤ _
  rw [totalCount_eq]
  exact le_trans (mod_le _ _) (atMost.advance nowMs).sum_le

end

lemma opWmAdd_slot (wm : Meter) (t n : Nat) : ((opWmAdd wm t n).buckets (wm.index t)).tsMs = wm.epoch t :=
  congrArg Slot.tsMs (record_self (advance wm t) t n)

lemma opWmCount_wrapped (fresh : wm.AtMost []) (above : wm.windowMs < t) (representable : t < 2 ^ 64)
    (wrap : 2 ^ 64 ≤ wm.epoch t + wm.windowMs) (n : Nat) : (opWmCount (opWmAdd wm t n) t).2 = 0 := by
  have atMost := fresh.add above n
  have start := epoch_le wm t
  have old : expired (opWmAdd wm t n).windowMs t ((opWmAdd wm t n).buckets (wm.index t)) := by
    rw [expired, opWmAdd_slot]
    change t ≥ (wm.epoch t + wm.windowMs) % 2 ^ 64
    omega
  have cleared : ((advance (opWmAdd wm t n) t).buckets (wm.index t)).tsMs = 0 := congrArg Slot.tsMs (if_pos old)
  have lost : (advance (opWmAdd wm t n) t).held t = false := by
    apply decide_eq_false
    change wm.epoch t ≠ ((advance (opWmAdd wm t n) t).buckets (wm.index t)).tsMs
    rw [cleared]
    exact ne_of_gt (fresh.sized.epoch_pos above)
  apply eq_zero_of_le_zero
  apply le_trans (opWmCount_lost atMost)
  rw [nil_append, tally, lost]
  exact le_refl 0

lemma opWmCount_turned (fresh : wm.AtMost []) (above : wm.windowMs < s) (order : s ≤ t)
    (slot : wm.index s = wm.index t) (other : wm.epoch s ≠ wm.epoch t) (m n : Nat) :
    (opWmCount (opWmAdd (opWmAdd wm s m) t n) t).2 ≤ n := by
  have atMost := (fresh.add above m).add (lt_of_lt_of_le above order) n
  have stamp : ((opWmAdd (opWmAdd wm s m) t n).buckets (wm.index t)).tsMs = wm.epoch t :=
    opWmAdd_slot (opWmAdd wm s m) t n
  have lost : (advance (opWmAdd (opWmAdd wm s m) t n) t).held s = false := by
    apply decide_eq_false
    change wm.epoch s ≠ ((advance (opWmAdd (opWmAdd wm s m) t n) t).buckets (wm.index s)).tsMs
    rw [slot]
    rcases advance_slot (opWmAdd (opWmAdd wm s m) t n) t (wm.index t) with cleared | unchanged
    · rw [cleared]
      exact ne_of_gt (fresh.sized.epoch_pos above)
    · rw [unchanged, stamp]
      exact other
  apply le_trans (opWmCount_lost atMost)
  change tally _ [(s, m), (t, n)] ≤ n
  rw [tally, lost, if_neg Bool.false_ne_true, zero_add, tally, tally, add_zero]
  split
  · exact le_rfl
  · exact zero_le _

section Setup

variable {windowMs nBuckets limit : Nat} (window : 1 ≤ windowMs) (slots : 1 ≤ nBuckets) (windowFits : windowMs < 2 ^ 64)
  (slotsFit : nBuckets < 2 ^ 32) (limitFits : limit < 2 ^ 64)

include window slots

lemma wmSetup_windowMs : (wmSetup windowMs nBuckets).windowMs = windowMs :=
  congrArg Meter.windowMs (wmSetup_eq window slots)

lemma wmSetup_n : (wmSetup windowMs nBuckets).n = nBuckets := congrArg Meter.n (wmSetup_eq window slots)

include windowFits slotsFit

lemma not_accurate_of_wrap (limitFits : limit < 2 ^ 64) (above : windowMs < limit)
    (several : (wmSetup windowMs nBuckets).bucketMs ≠ windowMs)
    (wrap : 2 ^ 64 ≤ (wmSetup windowMs nBuckets).epoch limit + windowMs) : ¬Accurate windowMs nBuckets limit := by
  intro accurate
  have sized := wmSetup_sized window slots windowFits slotsFit
  have size := wmSetup_windowMs window slots
  have inWindow : ∀ t ∈ [limit, limit], windowMs < t ∧ t ≤ limit := by
    intro t mem
    rcases List.mem_pair.mp mem with rfl | rfl <;> exact ⟨above, le_rfl⟩
  have counted := (accurate [.add limit 1] limit (List.pairwise_pair.mpr le_rfl) inWindow (show 1 < 2 ^ 64 by decide)).2
  have dropped := opWmCount_wrapped (wmSetup_atMost sized) (size.symm ▸ above) limitFits (by rw [size]; exact wrap) 1
  have within := sized.within
  have present : addedIn [.add limit 1] (limit - windowMs + (wmSetup windowMs nBuckets).bucketMs) limit = 1 := by
    change (if decide _ = true then 1 else 0) + 0 = 1
    rw [decide_eq_true (by omega), if_pos rfl]
  change addedIn _ (limit - windowMs + (wmSetup windowMs nBuckets).bucketMs) limit ≤
    (opWmCount (opWmAdd (wmSetup windowMs nBuckets) limit 1) limit).2 at counted
  rw [present, dropped] at counted
  exact absurd counted (by decide)

lemma not_accurate_of_turn (long : nBuckets * (wmSetup windowMs nBuckets).bucketMs + 1 < windowMs)
    (reach : (wmSetup windowMs nBuckets).epoch (windowMs + 1) + nBuckets * (wmSetup windowMs nBuckets).bucketMs ≤
      limit) : ¬Accurate windowMs nBuckets limit := by
  intro accurate
  have sized := wmSetup_sized window slots windowFits slotsFit
  have size := wmSetup_windowMs window slots
  have count := wmSetup_n window slots
  obtain ⟨early, late, above, order, recent, last, slot, other⟩ :=
    sized.exists_turn (by rw [count, size]; exact long)
  rw [count, size] at last
  have inWindow : ∀ t ∈ [early, late, late], windowMs < t ∧ t ≤ limit := by
    simp only [mem_cons, not_mem_nil, or_false]
    omega
  have counted := (accurate [.add early 1, .add late 1] late (by simp [Call.time, order]) inWindow
    (show 2 < 2 ^ 64 by decide)).2
  have dropped := opWmCount_turned (wmSetup_atMost sized) above order slot other 1 1
  have present : addedIn [.add early 1, .add late 1] (late - windowMs + (wmSetup windowMs nBuckets).bucketMs) late =
      2 := by
    change (if decide _ = true then 1 else 0) + ((if decide _ = true then 1 else 0) + 0) = 2
    rw [decide_eq_true (by omega), decide_eq_true (by omega), if_pos rfl]
  change addedIn _ (late - windowMs + (wmSetup windowMs nBuckets).bucketMs) late ≤
    (opWmCount (opWmAdd (opWmAdd (wmSetup windowMs nBuckets) early 1) late 1) late).2 at counted
  omega

end Setup

theorem accurate_iff (windowMs nBuckets limit : Nat) (window : 1 ≤ windowMs) (slots : 1 ≤ nBuckets)
    (windowFits : windowMs < 2 ^ 64) (slotsFit : nBuckets < 2 ^ 32) (limitFits : limit < 2 ^ 64) :
    let wm := wmSetup windowMs nBuckets
    Accurate windowMs nBuckets limit ↔
      (limit ≤ windowMs ∨ wm.bucketMs = windowMs ∨ wm.epoch limit + windowMs < 2 ^ 64) ∧
        (windowMs ≤ nBuckets * wm.bucketMs + 1 ∨ limit < wm.epoch (windowMs + 1) + nBuckets * wm.bucketMs) := by
  intro wm
  have sized : wm.Sized := wmSetup_sized window slots windowFits slotsFit
  have size : wm.windowMs = windowMs := wmSetup_windowMs window slots
  have count : wm.n = nBuckets := wmSetup_n window slots
  constructor
  · intro accurate
    constructor
    · by_contra wrap
      rw [not_or, not_or, not_le, not_lt] at wrap
      exact not_accurate_of_wrap window slots windowFits slotsFit limitFits wrap.1 wrap.2.1 wrap.2.2 accurate
    · by_contra turn
      rw [not_or, not_le, not_lt] at turn
      exact not_accurate_of_turn window slots windowFits slotsFit turn.1 turn.2 accurate
  · rintro ⟨noWrap, noTurn⟩ calls nowMs ordered inWindow total current
    have times (t : Nat) (mem : t ∈ calls.map Call.time) : windowMs < t ∧ t ≤ limit :=
      inWindow t (mem_append_left _ mem)
    obtain ⟨nowAbove, nowLimit⟩ := inWindow nowMs (mem_append_right _ mem_cons_self)
    have above : ∀ c ∈ calls, wm.windowMs < c.time := by
      intro c mem
      rw [size]
      exact (times c.time (mem_map_of_mem mem)).1
    have atMost : current.AtMost (additions calls) := (wmSetup_atMost sized).run calls above
    obtain ⟨slotsSame, windowSame, bucketSame⟩ := after_sizes calls wm
    have start : (0 :: (calls.map Call.time ++ [nowMs])).Pairwise (· ≤ ·) :=
      List.Pairwise.cons (fun _ _ => zero_le _) ordered
    have past : ∀ e ∈ additions calls, e.1 ≤ nowMs := fun e mem =>
      (List.pairwise_append.mp ordered).2.2 e.1 (mem_additions mem) nowMs mem_cons_self
    apply And.intro
    · have upper := opWmCount_le atMost past
      rw [windowSame, size] at upper
      exact upper
    rcases noWrap with early | single | representable
    · omega
    · have empty : addedIn calls (nowMs - windowMs + current.bucketMs) nowMs = 0 := by
        apply tally_eq_zero
        intro e mem
        apply decide_eq_false
        rw [bucketSame, single]
        omega
      rw [empty]
      exact zero_le _
    · have stamps : ∀ c ∈ calls, wm.epoch c.time + wm.windowMs < 2 ^ 64 := by
        intro c mem
        have order := epoch_mono wm (times c.time (mem_map_of_mem mem)).2
        omega
      have atLeast : current.AtLeast (additions calls) nowMs :=
        Meter.AtLeast.run (wmSetup_atMost sized) (wmSetup_atLeast sized 0) calls above start stamps total
      have lower := le_opWmCount atMost atLeast total (by rw [windowSame, size]; exact nowAbove) (by
        intro e mem recent
        rw [windowSame, size, bucketSame] at recent
        have epoch : current.epoch e.1 = wm.epoch e.1 := by rw [Meter.epoch, Meter.epoch, bucketSame]
        have bucket := sized.lt_epoch_add e.1
        rw [epoch, slotsSame, bucketSame, count]
        rcases noTurn with covered | short
        · omega
        · have order := epoch_mono wm (succ_le_of_lt (times e.1 (mem_additions mem)).1)
          rw [succ_eq_add_one] at order
          omega)
      rw [windowSame, size] at lower
      exact lower

theorem accurate_even_buckets :
    let wm := after (wmSetup 100 10) [.add 1000 3, .tick 1005, .add 1050 4]
    (opWmCount wm 1100).2 ≤ addedIn [.add 1000 3, .tick 1005, .add 1050 4] (1100 - 100) 1100 ∧
      addedIn [.add 1000 3, .tick 1005, .add 1050 4] (1100 - 100 + wm.bucketMs) 1100 ≤ (opWmCount wm 1100).2 :=
  (accurate_iff 100 10 2000 (by decide) (by decide) (by decide) (by decide) (by decide)).mpr (by decide)
    [.add 1000 3, .tick 1005, .add 1050 4] 1100 (by decide) (by decide) (by decide)

/-- Four buckets of 2 ms for a window of 10 ms: the event at 11 ms is gone at 18 ms. -/
theorem uneven_buckets_undercount :
    let wm := after (wmSetup 10 4) [.add 11 1, .add 18 1]
    wm.bucketMs = 2 ∧ (opWmCount wm 18).2 = 1 ∧ addedIn [.add 11 1, .add 18 1] (18 - 10 + wm.bucketMs) 18 = 2 := by
  decide

end LibOp.Wm

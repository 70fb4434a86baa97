import LibOp.Ratelimit.Bucket
import LibOp.Foundation.Runs

namespace LibOp.Ratelimit

open Foundation List Nat

/-- A call of `op_ratelimit_check`, in the sequence or inserted into it. -/
structure Attempt where
  nowUsec : Nat
  inserted : Bool
deriving DecidableEq, Repr

def attempt (rl : Bucket) (a : Attempt) : Bucket := (opRatelimitCheck rl a.nowUsec).1

def results (rl : Bucket) : List Attempt → List Bool
  | [] => []
  | a :: rest =>
    if a.inserted then results (attempt rl a) rest else (opRatelimitCheck rl a.nowUsec).2 :: results (attempt rl a) rest

def withoutInsertions (attempts : List Attempt) : List Attempt := attempts.filter fun a => !a.inserted

def RejectedIfInserted (rl : Bucket) (a : Attempt) : Prop :=
  a.inserted = true → (opRatelimitCheck rl a.nowUsec).2 = false

instance (rl : Bucket) (a : Attempt) : Decidable (RejectedIfInserted rl a) :=
  inferInstanceAs (Decidable (_ → _))

/-- Inserted calls that return false change no result, for all sequences with times from `start` on. -/
def InsertionsFree (rl : Bucket) (start : Nat) : Prop :=
  ∀ attempts : List Attempt, (start :: attempts.map Attempt.nowUsec).Pairwise (· ≤ ·) →
    (∀ a ∈ attempts, a.nowUsec < 2 ^ 64) → Permitted RejectedIfInserted attempt rl attempts →
      results rl attempts = results rl (withoutInsertions attempts)

variable {rl : Bucket}

lemma refilledTokens_unit (sound : rl.Sound) (unit : rl.rateUsec = 1) (elapsed : Nat) :
    refilledTokens rl elapsed = min ((rl.tokens + scale * elapsed) % 2 ^ 64) rl.capacity := by
  have stored := sound.tokens_le
  have fits := sound.capacity_lt
  unfold refilledTokens scale
  rw [unit, Nat.div_one]
  dsimp only
  split
  · split <;> omega
  · omega

lemma refilledTokens_of_lt (sound : rl.Sound) (early : elapsed < rl.rateUsec) :
    refilledTokens rl elapsed = rl.tokens := by
  have stored := sound.tokens_le
  have fits := sound.capacity_lt
  unfold refilledTokens
  rw [div_eq_of_lt early, zero_mul]
  dsimp only
  split
  · split <;> omega
  · rfl

def NothingToLose (rl : Bucket) : Prop := rl.rateUsec = 1 ∨ 2 ^ 64 ≤ rl.lastRefill + rl.rateUsec

lemma refill_refill (sound : rl.Sound) (nothing : NothingToLose rl) (first : rl.lastRefill ≤ early)
    (second : early ≤ late) (representable : late < 2 ^ 64) (short : (refill rl early).tokens < rl.capacity) :
    refill (refill rl early) late = refill rl late := by
  have tokens : refilledTokens (refill rl early) (late - early) = refilledTokens rl (late - rl.lastRefill) := by
    rcases nothing with unit | far
    · rw [refilledTokens_unit (refill_sound sound early) unit, refilledTokens_unit sound unit]
      change refilledTokens rl (early - rl.lastRefill) < rl.capacity at short
      change min ((refilledTokens rl (early - rl.lastRefill) + _) % _) rl.capacity = _
      rw [refilledTokens_unit sound unit] at short ⊢
      simp only [scale] at short ⊢
      omega
    · rw [refilledTokens_of_lt (refill_sound sound early) (by change late - early < rl.rateUsec; omega),
        refilledTokens_of_lt sound (by omega)]
      exact refilledTokens_of_lt sound (by omega)
  rw [Bucket.mk.injEq]
  exact ⟨rfl, rfl, tokens, rfl⟩

variable {nowUsec : Nat} {rl other : Bucket}

lemma opRatelimitCheck_congr (same : refill rl nowUsec = refill other nowUsec) :
    opRatelimitCheck rl nowUsec = opRatelimitCheck other nowUsec := by
  rw [opRatelimitCheck, opRatelimitCheck, spend, spend, same]

lemma opRatelimitCheck_of_short (short : (refill rl nowUsec).tokens < scale) :
    opRatelimitCheck rl nowUsec = (refill rl nowUsec, false) := if_pos short

lemma opRatelimitCheck_of_enough (enough : scale ≤ (refill rl nowUsec).tokens) : opRatelimitCheck rl nowUsec =
      ({ refill rl nowUsec with tokens := (refill rl nowUsec).tokens - scale }, true) := if_neg (not_lt.mpr enough)

lemma short_of_rejected (rejected : (opRatelimitCheck rl nowUsec).2 = false) : (refill rl nowUsec).tokens < scale := by
  apply Nat.lt_of_not_le
  intro enough
  rw [opRatelimitCheck_of_enough enough] at rejected
  cases rejected

/-- The bucket with insertions beside the one without: the same, or refilled since without a whole token. -/
def Behind (rl other : Bucket) : Prop :=
  rl = other ∨ other.lastRefill ≤ rl.lastRefill ∧ rl = refill other rl.lastRefill ∧ rl.tokens < scale

lemma Behind.refill_eq (behind : Behind rl other) (sound : other.Sound)
    (nothing : NothingToLose other) (room : scale ≤ other.capacity) (later : rl.lastRefill ≤ nowUsec)
    (representable : nowUsec < 2 ^ 64) : refill rl nowUsec = refill other nowUsec := by
  rcases behind with same | ⟨order, refilled, short⟩
  · rw [same]
  · rw [refilled] at short ⊢
    exact refill_refill sound nothing order later representable (lt_of_lt_of_le short room)

lemma Behind.lastRefill_le (behind : Behind rl other) : other.lastRefill ≤ rl.lastRefill := by
  rcases behind with same | ⟨order, -, -⟩
  · exact le_of_eq (congrArg Bucket.lastRefill same.symm)
  · exact order

lemma NothingToLose.check (nothing : NothingToLose rl) (later : rl.lastRefill ≤ nowUsec) :
    NothingToLose (opRatelimitCheck rl nowUsec).1 := by
  rw [opRatelimitCheck, NothingToLose, spend_rateUsec, spend_lastRefill]
  exact nothing.imp_right fun far => by omega

lemma results_of_behind (behind : Behind rl other) (sound : other.Sound)
    (nothing : NothingToLose other) (room : scale ≤ other.capacity) (attempts : List Attempt)
    (ordered : (rl.lastRefill :: attempts.map Attempt.nowUsec).Pairwise (· ≤ ·))
    (representable : ∀ a ∈ attempts, a.nowUsec < 2 ^ 64) (rejected : Permitted RejectedIfInserted attempt rl attempts) :
    results rl attempts = results other (withoutInsertions attempts) := by
  induction attempts generalizing rl other with
  | nil => rfl
  | cons a rest ih =>
    obtain ⟨here, others⟩ := List.forall_mem_cons.mp representable
    have later : rl.lastRefill ≤ a.nowUsec := rel_of_pairwise_cons ordered mem_cons_self
    have same := behind.refill_eq sound nothing room later here
    have afterwards : ((attempt rl a).lastRefill :: rest.map Attempt.nowUsec).Pairwise (· ≤ ·) := by
      rw [attempt, opRatelimitCheck, spend_lastRefill]
      exact ordered.of_cons
    rw [results, withoutInsertions, filter_cons]
    by_cases extra : a.inserted = true
    · have short := short_of_rejected (rejected.1 extra)
      have state : attempt rl a = refill other a.nowUsec := by rw [attempt, opRatelimitCheck_of_short short, same]
      rw [if_pos extra, if_neg (by rw [extra]; exact Bool.false_ne_true)]
      apply ih _ sound nothing room afterwards others rejected.2
      rw [state]
      exact .inr ⟨le_trans behind.lastRefill_le later, rfl, same ▸ short⟩
    · have equal := opRatelimitCheck_congr same
      rw [if_neg extra, if_pos (by rw [Bool.eq_false_iff.mpr extra]; rfl), results, if_neg extra, equal]
      apply congrArg
      have order : other.lastRefill ≤ a.nowUsec := le_trans behind.lastRefill_le later
      apply ih (.inl (congrArg Prod.fst equal)) _ _ _ afterwards others rejected.2
      · exact spend_sound sound _ _
      · exact nothing.check order
      · rw [opRatelimitCheck, spend_capacity]
        exact room

lemma results_of_no_room (sound : rl.Sound) (tiny : rl.capacity < scale) (attempts : List Attempt) :
    results rl attempts = (withoutInsertions attempts).map fun _ => false := by
  induction attempts generalizing rl with
  | nil => rfl
  | cons a rest ih =>
    have short : (refill rl a.nowUsec).tokens < scale :=
      lt_of_le_of_lt (refilledTokens_le_capacity sound _) tiny
    have sameRoom : (attempt rl a).capacity < scale := by
      rw [attempt, opRatelimitCheck, spend_capacity]
      exact tiny
    have next : results (attempt rl a) rest = _ := ih (spend_sound sound _ _) sameRoom
    rw [results, next, opRatelimitCheck_of_short short, withoutInsertions, withoutInsertions, filter_cons]
    by_cases extra : a.inserted = true
    · rw [if_pos extra, if_neg (by rw [extra]; exact Bool.false_ne_true)]
    · rw [if_neg extra, if_pos (by rw [Bool.eq_false_iff.mpr extra]; rfl), map_cons]

lemma withoutInsertions_idem (attempts : List Attempt) :
    withoutInsertions (withoutInsertions attempts) = withoutInsertions attempts := by
  rw [withoutInsertions, withoutInsertions, filter_filter]
  simp

lemma results_append (first second : List Attempt) :
    results rl (first ++ second) = results rl first ++ results (first.foldl attempt rl) second := by
  induction first generalizing rl with
  | nil => rfl
  | cons a rest ih =>
    rw [cons_append, results, results, ih, foldl_cons]
    split <;> rfl

lemma refill_lastRefill (rl : Bucket) : refill rl rl.lastRefill = rl := by
  rw [refill, Nat.sub_self, refilledTokens, if_neg (fun both => lt_irrefl 0 both.2)]

lemma foldl_attempt_drain (count : Nat) (enough : count * scale ≤ rl.tokens) :
    (List.replicate count (Attempt.mk rl.lastRefill false)).foldl attempt rl =
      { rl with tokens := rl.tokens - count * scale } := by
  induction count generalizing rl with
  | zero => rw [zero_mul]; rfl
  | succ count ih =>
    rw [succ_mul] at enough ⊢
    have first : attempt rl ⟨rl.lastRefill, false⟩ = { rl with tokens := rl.tokens - scale } := by
      change (opRatelimitCheck rl rl.lastRefill).1 = _
      rw [opRatelimitCheck_of_enough (by rw [refill_lastRefill]; omega), refill_lastRefill]
    rw [replicate_succ, foldl_cons, first]
    have left : count * scale ≤ ({ rl with tokens := rl.tokens - scale } : Bucket).tokens := by
      change count * scale ≤ rl.tokens - scale
      omega
    rw [ih left]
    rw [Nat.sub_sub, add_comm scale]

lemma check_after_rate (sound : rl.Sound) (room : scale ≤ rl.capacity)
    (left : rl.tokens ≤ rl.capacity % scale) (proper : rl.rateUsec < 2 ^ 64 - 1) (pos : 0 < rl.rateUsec) :
    (opRatelimitCheck rl (rl.lastRefill + rl.rateUsec)).2 = true := by
  have fits := sound.capacity_lt
  have below : rl.tokens + scale ≤ rl.capacity := by
    simp only [scale] at room left ⊢
    omega
  have tokens : (refill rl (rl.lastRefill + rl.rateUsec)).tokens = rl.tokens + scale := by
    change refilledTokens rl (rl.lastRefill + rl.rateUsec - rl.lastRefill) = _
    have total : (rl.tokens + 1 * scale % 2 ^ 64) % 2 ^ 64 = rl.tokens + scale := by omega
    rw [Nat.add_sub_cancel_left, refilledTokens, if_pos ⟨proper, pos⟩, Nat.div_self pos]
    dsimp only
    rw [total, if_neg (not_lt.mpr below)]
    exact mod_eq_of_lt (lt_of_le_of_lt below fits)
  rw [opRatelimitCheck_of_enough (by rw [tokens]; exact le_add_left _ _)]

lemma check_early (sound : rl.Sound) (empty : rl.tokens < scale) (early : nowUsec - rl.lastRefill < rl.rateUsec) :
    opRatelimitCheck rl nowUsec = ({ rl with lastRefill := nowUsec }, false) := by
  have tokens := refilledTokens_of_lt sound early
  have unchanged : refill rl nowUsec = { rl with lastRefill := nowUsec } := by rw [refill, tokens]
  rw [opRatelimitCheck_of_short (by rw [unchanged]; exact empty), unchanged]

def burst (rl : Bucket) : List Attempt := List.replicate (rl.capacity / scale) ⟨rl.lastRefill, false⟩

def burstRetryCall (rl : Bucket) : List Attempt :=
  burst rl ++ [⟨rl.lastRefill + 1, true⟩, ⟨rl.lastRefill + rl.rateUsec, false⟩]

def drained (rl : Bucket) (nowUsec : Nat) : Bucket := { rl with lastRefill := nowUsec, tokens := rl.capacity % scale }

lemma foldl_attempt_burst (full : rl.tokens = rl.capacity) :
    (burst rl).foldl attempt rl = drained rl rl.lastRefill := by
  rw [burst, foldl_attempt_drain _ (by rw [full]; exact div_mul_le_self _ _), full, drained]
  have split := div_add_mod' rl.capacity scale
  rw [show rl.capacity - rl.capacity / scale * scale = rl.capacity % scale by omega]

lemma withoutInsertions_burst (rl : Bucket) : withoutInsertions (burst rl) = burst rl := by
  apply List.filter_eq_self.mpr
  intro a mem
  rw [eq_of_mem_replicate mem]
  rfl

lemma burstRetryCall_ordered (pos : 0 < rl.rateUsec) :
    (rl.lastRefill :: (burstRetryCall rl).map Attempt.nowUsec).Pairwise (· ≤ ·) := by
  rw [burstRetryCall, burst, map_append, map_replicate, ← cons_append, ← replicate_succ]
  apply List.pairwise_append.mpr
  apply And.intro (List.pairwise_replicate.mpr (.inr le_rfl))
  apply And.intro
  · apply List.pairwise_pair.mpr
    change rl.lastRefill + 1 ≤ rl.lastRefill + rl.rateUsec
    omega
  · intro early first late second
    rw [eq_of_mem_replicate first]
    rcases List.mem_pair.mp second with rfl | rfl
    · exact le_add_right _ _
    · exact le_add_right _ _

lemma burstRetryCall_lt (pos : 0 < rl.rateUsec) (reach : rl.lastRefill + rl.rateUsec < 2 ^ 64) :
    ∀ a ∈ burstRetryCall rl, a.nowUsec < 2 ^ 64 := by
  intro a mem
  rcases List.mem_append.mp mem with early | late
  · rw [eq_of_mem_replicate early]
    change rl.lastRefill < 2 ^ 64
    omega
  · rcases List.mem_pair.mp late with rfl | rfl
    · change rl.lastRefill + 1 < 2 ^ 64
      omega
    · exact reach

lemma burst_permitted (rl : Bucket) (start : Bucket) : Permitted RejectedIfInserted attempt start (burst rl) := by
  rw [burst]
  induction rl.capacity / scale generalizing start with
  | zero => exact trivial
  | succ count ih => exact ⟨fun bad => absurd bad Bool.false_ne_true, ih _⟩

lemma insertion_costs_token (sound : rl.Sound) (room : scale ≤ rl.capacity) (full : rl.tokens = rl.capacity)
    (slow : 1 < rl.rateUsec) (proper : rl.rateUsec < 2 ^ 64 - 1) (reach : rl.lastRefill + rl.rateUsec < 2 ^ 64) :
    ¬InsertionsFree rl rl.lastRefill := by
  intro free
  have pos := lt_of_succ_lt slow
  have empty (nowUsec : Nat) : (drained rl nowUsec).tokens < scale := mod_lt _ (by decide)
  have drainedSound (nowUsec : Nat) : (drained rl nowUsec).Sound := ⟨mod_le _ _, sound.capacity_lt⟩
  have retried : opRatelimitCheck (drained rl rl.lastRefill) (rl.lastRefill + 1) =
      (drained rl (rl.lastRefill + 1), false) := by
    apply check_early (drainedSound _) (empty _)
    change rl.lastRefill + 1 - rl.lastRefill < rl.rateUsec
    omega
  have refused : (opRatelimitCheck (drained rl (rl.lastRefill + 1)) (rl.lastRefill + rl.rateUsec)).2 = false := by
    rw [check_early (drainedSound _) (empty _)]
    change rl.lastRefill + rl.rateUsec - (rl.lastRefill + 1) < rl.rateUsec
    omega
  have admitted : (opRatelimitCheck (drained rl rl.lastRefill) (rl.lastRefill + rl.rateUsec)).2 = true :=
    check_after_rate (drainedSound _) room le_rfl proper pos
  have rejected : Permitted RejectedIfInserted attempt rl (burstRetryCall rl) := by
    apply permitted_append.mpr
    apply And.intro (burst_permitted rl rl)
    rw [foldl_attempt_burst full]
    exact ⟨fun _ => congrArg Prod.snd retried, fun bad => absurd bad Bool.false_ne_true, trivial⟩
  have same := free (burstRetryCall rl) (burstRetryCall_ordered pos) (burstRetryCall_lt pos reach) rejected
  have only : withoutInsertions (burstRetryCall rl) = burst rl ++ [⟨rl.lastRefill + rl.rateUsec, false⟩] := by
    rw [burstRetryCall, withoutInsertions, filter_append]
    exact congrArg (· ++ _) (withoutInsertions_burst rl)
  rw [only, burstRetryCall, results_append, results_append, foldl_attempt_burst full] at same
  have tails := append_cancel_left same
  simp only [results, attempt, retried, refused, admitted, if_true, if_false, Bool.false_eq_true] at tails
  cases tails

lemma one_lt_rate_iff (pos : 0 < ratePerSec) : 1 < 1000000 / ratePerSec ↔ ratePerSec ≤ 500000 := by
  rw [← succ_le_iff, le_div_iff_mul_le pos]
  omega

theorem insertions_free_iff (capacity ratePerSec start : Nat) (positive : 1 ≤ ratePerSec)
    (rate : ratePerSec ≤ 1000000) :
    InsertionsFree (opRatelimitInit capacity ratePerSec start) start ↔
      capacity * scale % 2 ^ 32 < scale ∨ 500000 < ratePerSec ∨ 2 ^ 64 ≤ start + 1000000 / ratePerSec := by
  have interval : (opRatelimitInit capacity ratePerSec start).rateUsec = 1000000 / ratePerSec :=
    opRatelimitInit_rateUsec positive
  have some := div_pos rate positive
  have most : 1000000 / ratePerSec ≤ 1000000 := div_le_self _ _
  have sound := opRatelimitInit_sound capacity ratePerSec start
  constructor
  · intro free
    by_contra none
    rw [not_or, not_or, not_lt, not_lt, not_le] at none
    obtain ⟨room, slow, reach⟩ := none
    apply insertion_costs_token sound room rfl _ _ _ free
    · rw [interval]
      exact (one_lt_rate_iff positive).mpr slow
    · omega
    · rw [interval]
      exact reach
  · intro condition attempts ordered representable rejected
    by_cases tiny : (opRatelimitInit capacity ratePerSec start).capacity < scale
    · rw [results_of_no_room sound tiny, results_of_no_room sound tiny, withoutInsertions_idem]
    · apply results_of_behind (.inl rfl) sound _ (not_lt.mp tiny) attempts ordered representable rejected
      rcases condition with small | fast | far
      · exact absurd small tiny
      · left
        have most := mt (one_lt_rate_iff positive).mp (not_le.mpr fast)
        omega
      · right
        rw [interval]
        exact far

theorem insertions_free_fast_bucket : results (opRatelimitInit 1 600000 0) [⟨0, false⟩, ⟨0, true⟩, ⟨7, false⟩] =
      results (opRatelimitInit 1 600000 0) [⟨0, false⟩, ⟨7, false⟩] :=
  (insertions_free_iff 1 600000 0 (by decide) (by decide)).mpr (.inr (.inl (by decide)))
    [⟨0, false⟩, ⟨0, true⟩, ⟨7, false⟩] (by decide) (by decide) (by decide)

lemma retries_starve (sound : rl.Sound) (empty : rl.tokens < scale) (soon : pace < rl.rateUsec)
    (count : Nat) : results rl ((List.range' (rl.lastRefill + pace) count pace).map fun t => ⟨t, false⟩) =
      List.replicate count false := by
  induction count generalizing rl with
  | zero => rfl
  | succ count ih =>
    have refused := check_early sound empty (show rl.lastRefill + pace - rl.lastRefill < rl.rateUsec by omega)
    rw [range'_succ, map_cons, results, if_neg Bool.false_ne_true, attempt, refused, replicate_succ]
    have waiting : ({ rl with lastRefill := rl.lastRefill + pace } : Bucket).Sound :=
      ⟨sound.tokens_le, sound.capacity_lt⟩
    exact congrArg _ (ih waiting empty soon)

/-- One token per second: a retry half a second before the next one costs it, and retries every 0.6 seconds are never
admitted. -/
theorem insertion_not_free :
    results (opRatelimitInit 1 1 0) [⟨0, false⟩, ⟨500000, true⟩, ⟨1000000, false⟩] = [true, false] ∧
      results (opRatelimitInit 1 1 0) [⟨0, false⟩, ⟨1000000, false⟩] = [true, true] ∧
      (opRatelimitCheck (opRatelimitCheck (opRatelimitInit 1 1 0) 0).1 500000).2 = false ∧
      ∀ count, results (opRatelimitCheck (opRatelimitInit 1 1 0) 0).1
        ((List.range' 600000 count 600000).map fun t => ⟨t, false⟩) = List.replicate count false := by
  apply And.intro (by decide)
  apply And.intro (by decide)
  apply And.intro (by decide)
  have sound : (opRatelimitCheck (opRatelimitInit 1 1 0) 0).1.Sound := ⟨by decide, by decide⟩
  have soon : 600000 < (opRatelimitCheck (opRatelimitInit 1 1 0) 0).1.rateUsec := by decide
  exact retries_starve sound (by decide) soon

end LibOp.Ratelimit

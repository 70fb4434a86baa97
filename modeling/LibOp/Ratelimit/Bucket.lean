import Mathlib

namespace LibOp.Ratelimit

open List Nat

def scale : Nat := 1000

structure Bucket where
  lastRefill : Nat
  rateUsec : Nat
  tokens : Nat
  capacity : Nat
deriving DecidableEq, Repr

def opRatelimitInit (capacity ratePerSec nowUsec : Nat) : Bucket :=
  { rateUsec := if 0 < ratePerSec then 1000000 / ratePerSec else 2 ^ 64 - 1
    capacity := capacity * scale % 2 ^ 32
    tokens := capacity * scale % 2 ^ 32
    lastRefill := nowUsec }

/-- The tokens of a check `elapsed` microseconds after the last, before it spends. -/
def refilledTokens (rl : Bucket) (elapsed : Nat) : Nat :=
  if rl.rateUsec < 2 ^ 64 - 1 ∧ 0 < elapsed then
    let newTokens := elapsed / rl.rateUsec * scale % 2 ^ 64
    let total := (rl.tokens + newTokens) % 2 ^ 64
    if total > rl.capacity then rl.capacity else total % 2 ^ 32
  else rl.tokens

def refill (rl : Bucket) (nowUsec : Nat) : Bucket :=
  { rl with lastRefill := nowUsec, tokens := refilledTokens rl (nowUsec - rl.lastRefill) }

def spend (rl : Bucket) (nowUsec cost : Nat) : Bucket × Bool :=
  let rl := refill rl nowUsec
  if rl.tokens < cost then (rl, false) else ({ rl with tokens := rl.tokens - cost }, true)

def opRatelimitCheck (rl : Bucket) (nowUsec : Nat) : Bucket × Bool := spend rl nowUsec scale

def opRatelimitCheckN (rl : Bucket) (nowUsec n : Nat) : Bucket × Bool := spend rl nowUsec (n * scale % 2 ^ 32)

variable {rl : Bucket}

structure Bucket.Sound (rl : Bucket) : Prop where
  tokens_le : rl.tokens ≤ rl.capacity
  capacity_lt : rl.capacity < 2 ^ 32

lemma opRatelimitInit_sound (capacity ratePerSec nowUsec : Nat) : (opRatelimitInit capacity ratePerSec nowUsec).Sound :=
  ⟨le_rfl, mod_lt _ (by decide)⟩

lemma opRatelimitInit_rateUsec (pos : 0 < ratePerSec) :
    (opRatelimitInit capacity ratePerSec nowUsec).rateUsec = 1000000 / ratePerSec := if_pos pos

lemma refilledTokens_le (rl : Bucket) (elapsed : Nat) :
    refilledTokens rl elapsed ≤ rl.tokens + scale * (elapsed / rl.rateUsec) := by
  unfold refilledTokens
  split
  · rw [mul_comm scale]
    dsimp only
    split <;> omega
  · exact le_add_right _ _

lemma refilledTokens_le_capacity (sound : rl.Sound) (elapsed : Nat) : refilledTokens rl elapsed ≤ rl.capacity := by
  unfold refilledTokens
  split
  · dsimp only
    split
    · exact le_rfl
    · omega
  · exact sound.tokens_le

lemma refill_sound (sound : rl.Sound) (nowUsec : Nat) : (refill rl nowUsec).Sound :=
  ⟨refilledTokens_le_capacity sound _, sound.capacity_lt⟩

@[simp] lemma spend_lastRefill (rl : Bucket) (nowUsec cost : Nat) : (spend rl nowUsec cost).1.lastRefill = nowUsec := by
  unfold spend
  dsimp only
  split <;> rfl

@[simp] lemma spend_rateUsec (rl : Bucket) (nowUsec cost : Nat) : (spend rl nowUsec cost).1.rateUsec = rl.rateUsec := by
  unfold spend
  dsimp only
  split <;> rfl

@[simp] lemma spend_capacity (rl : Bucket) (nowUsec cost : Nat) : (spend rl nowUsec cost).1.capacity = rl.capacity := by
  unfold spend
  dsimp only
  split <;> rfl

lemma spend_tokens (rl : Bucket) (nowUsec cost : Nat) :
    (spend rl nowUsec cost).1.tokens + (if (spend rl nowUsec cost).2 then cost else 0) =
      (refill rl nowUsec).tokens := by
  unfold spend
  dsimp only
  split
  · rfl
  · dsimp only
    rw [if_pos rfl]
    omega

lemma spend_sound (sound : rl.Sound) (nowUsec cost : Nat) : (spend rl nowUsec cost).1.Sound := by
  have refilled := (refill_sound sound nowUsec).tokens_le
  have paid := spend_tokens rl nowUsec cost
  constructor
  · rw [spend_capacity]
    change (refill rl nowUsec).tokens ≤ rl.capacity at refilled
    omega
  · rw [spend_capacity]
    exact sound.capacity_lt

inductive Call where
  | check (nowUsec : Nat)
  | checkN (nowUsec n : Nat)
deriving DecidableEq, Repr

def Call.time : Call → Nat
  | .check nowUsec => nowUsec
  | .checkN nowUsec _ => nowUsec

def Call.amount : Call → Nat
  | .check _ => 1
  | .checkN _ n => n

def call (rl : Bucket) : Call → Bucket × Bool
  | .check nowUsec => opRatelimitCheck rl nowUsec
  | .checkN nowUsec n => opRatelimitCheckN rl nowUsec n

def after (rl : Bucket) (calls : List Call) : Bucket := calls.foldl (fun rl c => (call rl c).1) rl

def granted (rl : Bucket) : List Call → Nat
  | [] => 0
  | c :: rest => (if (call rl c).2 then c.amount else 0) + granted (call rl c).1 rest

def lastTime (start : Nat) (calls : List Call) : Nat := (calls.map Call.time).getLast?.getD start

variable {c : Call}

lemma call_eq (rl : Bucket) (c : Call) : call rl c = spend rl c.time (c.amount * scale % 2 ^ 32) := by
  cases c with
  | check nowUsec => exact congrArg (spend rl nowUsec) (by decide : scale = 1 * scale % 2 ^ 32)
  | checkN nowUsec n => rfl

lemma call_eq_spend (rl : Bucket) (small : c.amount ≤ 4294967) : call rl c = spend rl c.time (c.amount * scale) := by
  rw [call_eq, mod_eq_of_lt]
  simp only [scale]
  omega

lemma call_fields (rl : Bucket) (c : Call) : (call rl c).1.lastRefill = c.time ∧ (call rl c).1.rateUsec = rl.rateUsec ∧
      (call rl c).1.capacity = rl.capacity := by
  rw [call_eq]
  exact ⟨spend_lastRefill .., spend_rateUsec .., spend_capacity ..⟩

lemma call_granted (rl : Bucket) (small : c.amount ≤ 4294967) :
    (call rl c).1.tokens + scale * (if (call rl c).2 then c.amount else 0) ≤
      rl.tokens + scale * ((c.time - rl.lastRefill) / rl.rateUsec) := by
  rw [call_eq_spend rl small]
  have paid := spend_tokens rl c.time (c.amount * scale)
  have added := refilledTokens_le rl (c.time - rl.lastRefill)
  change (refill rl c.time).tokens ≤ _ at added
  have cost : scale * (if (spend rl c.time (c.amount * scale)).2 then c.amount else 0) =
      if (spend rl c.time (c.amount * scale)).2 then c.amount * scale else 0 := by
    split
    · exact mul_comm _ _
    · rfl
  omega

variable (calls : List Call)

lemma after_fields (rl : Bucket) :
    (after rl calls).lastRefill = lastTime rl.lastRefill calls ∧ (after rl calls).rateUsec = rl.rateUsec ∧
      (after rl calls).capacity = rl.capacity := by
  induction calls generalizing rl with
  | nil => exact ⟨rfl, rfl, rfl⟩
  | cons c rest ih =>
    obtain ⟨time, rate, capacity⟩ := call_fields rl c
    obtain ⟨times, rates, capacities⟩ := ih (call rl c).1
    change (after (call rl c).1 rest).lastRefill = _ ∧ (after (call rl c).1 rest).rateUsec = _ ∧
      (after (call rl c).1 rest).capacity = _
    rw [times, rates, capacities, rate, capacity, time]
    apply And.intro _ ⟨rfl, rfl⟩
    rw [lastTime, lastTime, map_cons, getLast?_cons, Option.getD_some]

lemma after_sound (sound : rl.Sound) : (after rl calls).Sound := by
  induction calls generalizing rl with
  | nil => exact sound
  | cons c rest ih =>
    apply ih
    change (call rl c).1.Sound
    rw [call_eq]
    exact spend_sound sound _ _

lemma le_lastTime {start : Nat} {calls : List Call} (ordered : (start :: calls.map Call.time).Pairwise (· ≤ ·)) :
    start ≤ lastTime start calls := by
  rw [lastTime]
  cases found : (calls.map Call.time).getLast? with
  | none => exact le_refl _
  | some t => exact rel_of_pairwise_cons ordered (mem_of_getLast? found)

lemma granted_tokens_le (small : ∀ c ∈ calls, c.amount ≤ 4294967) (rl : Bucket)
    (ordered : (rl.lastRefill :: calls.map Call.time).Pairwise (· ≤ ·)) :
    (after rl calls).tokens + scale * granted rl calls ≤
      rl.tokens + scale * ((lastTime rl.lastRefill calls - rl.lastRefill) / rl.rateUsec) := by
  induction calls generalizing rl with
  | nil => exact le_add_right _ _
  | cons c rest ih =>
    have here := small c mem_cons_self
    obtain ⟨time, rate, -⟩ := call_fields rl c
    have paid := call_granted rl here
    have later := List.Pairwise.of_cons ordered
    have start := rel_of_pairwise_cons ordered mem_cons_self
    have step := ih (forall_mem_cons.mp small).2 (call rl c).1 (by rw [time]; exact later)
    have finish := le_lastTime later
    have last : lastTime rl.lastRefill (c :: rest) = lastTime c.time rest := by
      rw [lastTime, lastTime, map_cons, getLast?_cons, Option.getD_some]
    rw [time, rate] at step
    rw [last, granted, Nat.mul_add]
    change (after (call rl c).1 rest).tokens + _ ≤ _
    have floors : (c.time - rl.lastRefill) / rl.rateUsec + (lastTime c.time rest - c.time) / rl.rateUsec ≤
        (lastTime c.time rest - rl.lastRefill) / rl.rateUsec := by
      rw [← Nat.sub_add_sub_cancel finish start, Nat.add_comm]
      exact div_add_div_le_add_div
    have scaled := Nat.mul_le_mul_left scale floors
    rw [Nat.mul_add] at scaled
    omega

lemma granted_le (capacity : Nat) (calls : List Call) (small : ∀ c ∈ calls, c.amount ≤ 4294967) (rl : Bucket)
    (full : rl.tokens ≤ scale * capacity) (ordered : (rl.lastRefill :: calls.map Call.time).Pairwise (· ≤ ·)) :
    granted rl calls ≤ capacity + (lastTime rl.lastRefill calls - rl.lastRefill) / rl.rateUsec := by
  have covered := granted_tokens_le calls small rl ordered
  have scaled : scale * granted rl calls ≤
      scale * (capacity + (lastTime rl.lastRefill calls - rl.lastRefill) / rl.rateUsec) := by
    rw [Nat.mul_add]
    omega
  exact Nat.le_of_mul_le_mul_left scaled (by decide)

lemma lastTime_append (start : Nat) (first second : List Call) :
    lastTime start (first ++ second) = lastTime (lastTime start first) second := by
  rw [lastTime, lastTime, lastTime, map_append, getLast?_append]
  cases (second.map Call.time).getLast? <;> rfl

lemma ordered_after {start : Nat} {first second : List Call}
    (ordered : (start :: (first ++ second).map Call.time).Pairwise (· ≤ ·)) :
    (lastTime start first :: second.map Call.time).Pairwise (· ≤ ·) := by
  rw [map_append, ← cons_append] at ordered
  obtain ⟨before, later, across⟩ := List.pairwise_append.mp ordered
  apply List.Pairwise.cons _ later
  intro t mem
  apply across _ _ t mem
  rw [lastTime]
  cases found : (first.map Call.time).getLast? with
  | none => exact mem_cons_self
  | some last => exact mem_cons_of_mem _ (mem_of_getLast? found)

theorem ratelimit_admits_at_most (capacity ratePerSec start : Nat) (first second : List Call)
    (burst : capacity ≤ 4294967) (positive : 1 ≤ ratePerSec) (rate : ratePerSec ≤ 1000000)
    (small : ∀ c ∈ first ++ second, c.amount ≤ 4294967)
    (ordered : (start :: (first ++ second).map Call.time).Pairwise (· ≤ ·)) :
    let rl := opRatelimitInit capacity ratePerSec start
    granted rl first ≤ capacity + (lastTime start first - start) / rl.rateUsec ∧ granted (after rl first) second ≤
        capacity + (lastTime start (first ++ second) - lastTime start first) / rl.rateUsec ∧
      (after rl (first ++ second)).tokens ≤ rl.capacity ∧ rl.capacity = capacity * scale ∧
      0 < rl.rateUsec := by
  intro rl
  obtain ⟨smallFirst, smallSecond⟩ := List.forall_mem_append.mp small
  have exactCapacity : rl.capacity = capacity * scale := by
    apply mod_eq_of_lt
    simp only [scale]
    omega
  obtain ⟨time, sameRate, sameCapacity⟩ := after_fields first rl
  have sound : rl.Sound := opRatelimitInit_sound capacity ratePerSec start
  have full : (after rl first).tokens ≤ scale * capacity := by
    have stored := (after_sound first sound).tokens_le
    rw [sameCapacity, exactCapacity, mul_comm] at stored
    exact stored
  have orderedFirst : (start :: first.map Call.time).Pairwise (· ≤ ·) := by
    rw [map_append, ← cons_append] at ordered
    exact (List.pairwise_append.mp ordered).1
  apply And.intro
  · exact granted_le capacity first smallFirst rl (le_of_eq (exactCapacity.trans (mul_comm _ _))) orderedFirst
  apply And.intro
  · have later := granted_le capacity second smallSecond (after rl first) full (by
      rw [time]
      exact ordered_after ordered)
    rw [time, sameRate] at later
    rw [lastTime_append]
    exact later
  apply And.intro
  · have stored := (after_sound (first ++ second) sound).tokens_le
    rw [(after_fields (first ++ second) rl).2.2] at stored
    exact stored
  apply And.intro exactCapacity
  rw [opRatelimitInit_rateUsec positive]
  exact div_pos rate positive

theorem ratelimit_admits_two_bursts :
    let rl := opRatelimitInit 2 4 100
    granted rl [.checkN 200 2, .check 300] = 2 ∧
      granted (after rl [.checkN 200 2, .check 300]) [.check 750300, .checkN 1000300 2] ≤
        2 + (1000300 - 300) / 250000 := by
  apply And.intro (by decide)
  exact (ratelimit_admits_at_most 2 4 100 [.checkN 200 2, .check 300] [.check 750300, .checkN 1000300 2] (by decide)
    (by decide) (by decide) (by decide) (by decide)).2.1

/-- The call divides by no zero and, where allowed, takes its tokens from as many whole ones. -/
def Exact (rl : Bucket) (c : Call) : Prop :=
  ¬(rl.rateUsec = 0 ∧ rl.lastRefill < c.time) ∧
    ((call rl c).2 = true → c.amount ≤ (refill rl c.time).tokens / scale ∧
      (call rl c).1.tokens + c.amount * scale = (refill rl c.time).tokens)

lemma spend_allowed : (spend rl nowUsec cost).2 = true ↔ cost ≤ (refill rl nowUsec).tokens := by
  unfold spend
  dsimp only
  split <;> simp <;> omega

theorem token_arithmetic_iff (capacity ratePerSec n : Nat) :
    (∀ start calls c, c.amount = 1 ∨ c.amount = n →
        (start :: (calls ++ [c]).map Call.time).Pairwise (· ≤ ·) →
      (opRatelimitInit capacity ratePerSec start).tokens = capacity * scale ∧
        Exact (after (opRatelimitInit capacity ratePerSec start) calls) c) ↔
    capacity * scale < 2 ^ 32 ∧ ratePerSec ≤ 1000000 ∧
      (n * scale < 2 ^ 32 ∨ capacity * scale < n * scale % 2 ^ 32) := by
  constructor
  · intro safe
    have fresh := safe 0 [] (.checkN 0 n) (by simp [Call.amount]) (by simp [Call.time])
    have full : capacity * scale % 2 ^ 32 = capacity * scale := fresh.1
    have fits : capacity * scale < 2 ^ 32 := by omega
    refine ⟨fits, ?_, ?_⟩
    · by_contra fast
      apply (safe 0 [] (.check 1) (by simp [Call.amount]) (by simp [Call.time])).2.1
      apply And.intro _ one_pos
      exact (opRatelimitInit_rateUsec (by omega)).trans (div_eq_of_lt (by omega))
    · by_contra wraps
      have held : (refill (opRatelimitInit capacity ratePerSec 0) 0).tokens = capacity * scale % 2 ^ 32 :=
        if_neg fun elapsed => absurd elapsed.2 (lt_irrefl 0)
      have allowed : n * scale % 2 ^ 32 ≤ (refill (opRatelimitInit capacity ratePerSec 0) 0).tokens := by omega
      have enough := Nat.mul_le_of_le_div _ _ _ (fresh.2.2 (spend_allowed.mpr allowed)).1
      change n * scale ≤ (refill (opRatelimitInit capacity ratePerSec 0) 0).tokens at enough
      omega
  · intro conditions start calls c amounts _
    obtain ⟨fits, slow, cost⟩ := conditions
    obtain ⟨-, rate, bound⟩ := after_fields calls (opRatelimitInit capacity ratePerSec start)
    have sound := refill_sound (after_sound calls (opRatelimitInit_sound capacity ratePerSec start)) c.time
    refine ⟨mod_eq_of_lt fits, ?_, ?_⟩
    · intro zero
      rw [rate, opRatelimitInit] at zero
      dsimp only at zero
      split at zero
      · exact absurd zero.1 (div_pos slow ‹_›).ne'
      · omega
    · have stored := sound.tokens_le.trans_eq (bound.trans (mod_eq_of_lt fits))
      have paid := spend_tokens (after (opRatelimitInit capacity ratePerSec start) calls) c.time
        (c.amount * scale % 2 ^ 32)
      intro allowed
      rw [call_eq] at allowed ⊢
      rw [if_pos allowed] at paid
      have covered := spend_allowed.mp allowed
      have exact : c.amount * scale % 2 ^ 32 = c.amount * scale := by
        rcases amounts with one | many
        · rw [one]
          rfl
        · rw [many] at covered ⊢
          exact mod_eq_of_lt (cost.resolve_right (by omega))
      rw [exact] at paid covered ⊢
      exact ⟨(le_div_iff_mul_le (by decide)).mpr covered, paid⟩

/-- A bucket of one token allows 4294968 at once, and a rate above 1000000 divides by zero in the next check. -/
theorem token_arithmetic_wraps :
    (opRatelimitCheckN (opRatelimitInit 1 1 0) 0 4294968).2 = true ∧ (opRatelimitInit 1 1000001 0).rateUsec = 0 ∧
      (opRatelimitInit 4294968 1 0).tokens = 704 := by
  decide

end LibOp.Ratelimit

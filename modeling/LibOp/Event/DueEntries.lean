import LibOp.Event.Invariants

namespace LibOp.Event

open Option List

variable {s s' : State} {now : Int} {ev top draw : Nat}

def State.Live (s : State) (ev : Nat) : Prop := s.Queued ev ∧ (s.entries ev).dead = false

def State.Due (s : State) (now : Int) (ev : Nat) : Prop := s.Live ev ∧ (s.entries ev).when ≤ now

structure Removed (s s' : State) (top : Nat) : Prop where
  inv : Inv s'
  entries : s'.entries = s.entries
  queued : ∀ ev, s'.Queued ev ↔ s.Queued ev ∧ ev ≠ top

structure Rescheduled (now : Int) (draw : Nat) (s s' : State) (top : Nat) : Prop where
  inv : Inv s'
  self : s'.entries top = reschedule now draw (s.entries top)
  other : ∀ ev, ev ≠ top → s'.entries ev = s.entries ev
  queued : ∀ ev, s'.Queued ev ↔ s.Queued ev

inductive Turn (now : Int) (draw : Nat) (s : State) : Option (State × Option Nat) → Prop where
  | stop (quiet : ∀ ev, s.Queued ev → now < (s.entries ev).when) : Turn now draw s none
  | reap {s' : State} {top : Nat} (queued : s.Queued top) (dead : (s.entries top).dead = true)
      (removed : Removed s s' top) : Turn now draw s (some (s', none))
  | once {s' : State} {top : Nat} (due : s.Due now top)
      (first : ∀ ev, s.Queued ev → (s.entries top).when ≤ (s.entries ev).when)
      (oneShot : (s.entries top).frequency = 0) (removed : Removed s s' top) : Turn now draw s (some (s', some top))
  | again {s' : State} {top : Nat} (due : s.Due now top)
      (first : ∀ ev, s.Queued ev → (s.entries top).when ≤ (s.entries ev).when)
      (periodic : (s.entries top).frequency ≠ 0) (rescheduled : Rescheduled now draw s s' top) :
      Turn now draw s (some (s', some top))

lemma heapRemove_removed (inv : Inv s) (below : i < s.heapLen) : Removed s (heapRemove s i) (s.heap i) := by
  obtain ⟨kept, entries, queued⟩ := heapRemove_spec inv below
  exact ⟨kept, entries, queued⟩

lemma runTurn_turn (inv : Inv s) (now : Int) (draw : Nat) : Turn now draw s (runTurn now draw s) := by
  unfold runTurn
  split
  next empty =>
    apply Turn.stop
    intro ev queued
    obtain ⟨i, below, -⟩ := queued
    omega
  next ne =>
    have pos := Nat.pos_of_ne_zero ne
    have queued : s.Queued (s.heap 0) := ⟨0, pos, rfl⟩
    have first : ∀ ev, s.Queued ev → (s.entries (s.heap 0)).when ≤ (s.entries ev).when := by
      intro ev mem
      obtain ⟨i, below, rfl⟩ := mem
      exact inv.ordered.root_le below
    dsimp only
    split
    next dead => exact Turn.reap queued dead (heapRemove_removed inv pos)
    next live =>
      split
      next later =>
        apply Turn.stop
        intro ev mem
        exact lt_of_lt_of_le later (first ev mem)
      next reached =>
        have due : s.Due now (s.heap 0) := ⟨⟨queued, Bool.eq_false_of_not_eq_true live⟩, le_of_not_gt reached⟩
        have ran : Inv { s with lastEventRan := opStrndup (s.entries (s.heap 0)).name evNameLen } := { inv with }
        split
        next oneShot =>
          apply Turn.once due first oneShot
          rw [inv.indexed 0 pos]
          obtain ⟨kept, entries, others⟩ := heapRemove_spec ran pos
          exact ⟨kept, entries, others⟩
        next periodic =>
          apply Turn.again due first periodic
          obtain ⟨arranged, kept⟩ := ran.resift (reschedule now draw) (fun _ => rfl) (fun _ => rfl) queued
          exact
            { inv := kept
              self := by
                rw [arranged.entries]
                exact setEntry_self _ _ _
              other := by
                intro ev differs
                rw [arranged.entries]
                exact setEntry_of_ne _ _ differs
              queued := arranged.queued }

/-- The calls of `op_event_run` and the entries it leaves, by those before. -/
structure RanDue (now : Int) (s s' : State) (calls : List Nat) : Prop where
  once : calls.Nodup
  called : ∀ ev, ev ∈ calls ↔ s.Due now ev
  order : calls.Pairwise fun first second => (s.entries first).when ≤ (s.entries second).when
  oneShot : ∀ ev, s.Due now ev → (s.entries ev).frequency = 0 → ¬s'.Queued ev
  periodic : ∀ ev, s.Due now ev → (s.entries ev).frequency ≠ 0 →
    s'.Queued ev ∧ ∃ when, now < when ∧ s'.entries ev = { s.entries ev with when := when }
  others : ∀ ev, s.Live ev → ¬s.Due now ev → s'.Queued ev ∧ s'.entries ev = s.entries ev
  queued : ∀ ev, s'.Queued ev → s.Queued ev
  ordered : HeapOrdered s'
  indexed : Indexed s'

lemma RanDue.stop (inv : Inv s) (quiet : ∀ ev, s.Queued ev → now < (s.entries ev).when) : RanDue now s s [] := by
  have nothing (ev : Nat) : ¬s.Due now ev := fun due => absurd (quiet ev due.1.1) (not_lt_of_ge due.2)
  exact
    { inv with
      once := nodup_nil
      called := fun ev => iff_of_false not_mem_nil (nothing ev)
      order := List.Pairwise.nil
      oneShot := fun ev due => absurd due (nothing ev)
      periodic := fun ev due => absurd due (nothing ev)
      others := fun ev live _ => ⟨live.1, rfl⟩
      queued := fun ev mem => mem }

lemma Removed.live (removed : Removed s s' top) : s'.Live ev ↔ s.Live ev ∧ ev ≠ top := by
  unfold State.Live
  rw [removed.queued, removed.entries, and_right_comm]

lemma Removed.due (removed : Removed s s' top) : s'.Due now ev ↔ s.Due now ev ∧ ev ≠ top := by
  unfold State.Due
  rw [removed.live, removed.entries, and_right_comm]

lemma Rescheduled.live (rescheduled : Rescheduled now draw s s' top) : s'.Live ev ↔ s.Live ev := by
  unfold State.Live
  rw [rescheduled.queued]
  by_cases self : ev = top
  · rw [self, rescheduled.self]
    exact Iff.rfl
  · rw [rescheduled.other ev self]

lemma Rescheduled.due (rescheduled : Rescheduled now draw s s' top)
    (later : now < timeT (now + opEventFrequency draw (s.entries top).frequency)) :
    s'.Due now ev ↔ s.Due now ev ∧ ev ≠ top := by
  unfold State.Due
  rw [rescheduled.live]
  by_cases self : ev = top
  · rw [self, rescheduled.self]
    exact iff_of_false (fun due => absurd later (not_lt_of_ge due.2)) fun due => due.2 rfl
  · rw [rescheduled.other ev self]
    exact (and_iff_left self).symm

structure Took (now : Int) (s t : State) (top : Nat) : Prop where
  inv : Inv t
  due : ∀ ev, t.Due now ev ↔ s.Due now ev ∧ ev ≠ top
  live : ∀ ev, ev ≠ top → (t.Live ev ↔ s.Live ev)
  other : ∀ ev, ev ≠ top → t.entries ev = s.entries ev
  queued : ∀ ev, t.Queued ev → s.Queued ev
  done : t.Queued top → ¬((t.entries top).dead = true ∨ (t.entries top).when ≤ now)

variable {t : State} {calls : List Nat}

lemma Removed.took (removed : Removed s t top) : Took now s t top where
  inv := removed.inv
  due _ := removed.due
  live ev other := by
    rw [removed.live]
    exact and_iff_left other
  other ev _ := congrFun removed.entries ev
  queued ev mem := ((removed.queued ev).mp mem).1
  done mem := absurd rfl ((removed.queued top).mp mem).2

lemma Rescheduled.took (rescheduled : Rescheduled now draw s t top) (live : s.Live top)
    (later : now < timeT (now + opEventFrequency draw (s.entries top).frequency)) : Took now s t top where
  inv := rescheduled.inv
  due _ := rescheduled.due later
  live _ _ := rescheduled.live
  other := rescheduled.other
  queued ev := (rescheduled.queued ev).mp
  done := by
    intro _ reason
    rw [rescheduled.self] at reason
    rcases reason with dead | early
    · exact absurd (live.2.symm.trans dead) Bool.false_ne_true
    · exact absurd later (not_lt_of_ge early)

lemma RanDue.after (ran : RanDue now t s' calls) (called : Option Nat) (took : Took now s t top)
    (who : ∀ ev, called = some ev ↔ ev = top ∧ s.Due now top)
    (first : s.Due now top → ∀ ev, s.Queued ev → (s.entries top).when ≤ (s.entries ev).when)
    (oneShot : s.Due now top → (s.entries top).frequency = 0 → ¬t.Queued top)
    (periodic : s.Due now top → (s.entries top).frequency ≠ 0 →
      t.Live top ∧ ∃ when, now < when ∧ t.entries top = { s.entries top with when := when })
    (rests : s.Live top → s.Due now top) : RanDue now s s' (called.toList ++ calls) := by
  have resting : ¬t.Due now top := fun isDue => ((took.due top).mp isDue).2 rfl
  have same {ev : Nat} (mem : ev ∈ calls) : s.Due now ev ∧ t.entries ev = s.entries ev := by
    obtain ⟨isDue, other⟩ := (took.due ev).mp ((ran.called ev).mp mem)
    exact ⟨isDue, took.other ev other⟩
  exact
    { ran with
      once := by
        apply nodup_append.mpr
        refine ⟨by cases called <;> simp, ran.once, ?_⟩
        rintro ev own other mem rfl
        rw [((who ev).mp (mem_toList.mp own)).1] at mem
        exact resting ((ran.called top).mp mem)
      called := by
        intro ev
        rw [mem_append, mem_toList, who, ran.called, took.due]
        by_cases self : ev = top
        · rw [self]
          exact ⟨fun mem => (mem.resolve_right fun other => other.2 rfl).2, fun isDue => .inl ⟨rfl, isDue⟩⟩
        · exact ⟨fun mem => (mem.resolve_left fun own => self own.1).1, fun isDue => .inr ⟨isDue, self⟩⟩
      order := by
        apply pairwise_append.mpr
        refine ⟨?_, ?_, ?_⟩
        · cases called <;> simp
        · apply ran.order.imp_of_mem
          intro one two left right earlier
          rw [(same left).2, (same right).2] at earlier
          exact earlier
        · intro ev own other mem
          obtain ⟨rfl, isDue⟩ := (who ev).mp (mem_toList.mp own)
          exact first isDue other (same mem).1.1.1
      oneShot := by
        intro ev isDue stops
        by_cases self : ev = top
        · subst self
          exact fun mem => oneShot isDue stops (ran.queued ev mem)
        · rw [← took.other ev self] at stops
          exact ran.oneShot ev ((took.due ev).mpr ⟨isDue, self⟩) stops
      periodic := by
        intro ev isDue repeats
        by_cases self : ev = top
        · subst self
          obtain ⟨live, when, later, entry⟩ := periodic isDue repeats
          obtain ⟨queued, kept⟩ := ran.others ev live resting
          exact ⟨queued, when, later, kept.trans entry⟩
        · rw [← took.other ev self] at repeats ⊢
          exact ran.periodic ev ((took.due ev).mpr ⟨isDue, self⟩) repeats
      others := by
        intro ev live notDue
        have other : ev ≠ top := by
          rintro rfl
          exact notDue (rests live)
        rw [← took.other ev other]
        exact ran.others ev ((took.live ev other).mpr live) fun isDue => notDue ((took.due ev).mp isDue).1
      queued := fun ev mem => took.queued ev (ran.queued ev mem) }

def LaterAgain (now : Int) (s : State) : Prop :=
  ∀ ev, s.Due now ev → (s.entries ev).frequency ≠ 0 →
    ∀ draw, now < timeT (now + opEventFrequency draw (s.entries ev).frequency)

lemma LaterAgain.of_due (later : LaterAgain now s) (due : ∀ ev, t.Due now ev → s.Due now ev)
    (same : ∀ ev, t.Due now ev → t.entries ev = s.entries ev) : LaterAgain now t := by
  intro ev isDue periodic draw
  rw [same ev isDue] at periodic ⊢
  exact later ev (due ev isDue) periodic draw

lemma opEventRun_ranDue {pending : List Nat} (inv : Inv s) (later : LaterAgain now s)
    (covers : ∀ ev, s.Queued ev → (s.entries ev).dead = true ∨ (s.entries ev).when ≤ now → ev ∈ pending)
    (enough : pending.length < turns) (draws : Nat → Nat) :
    ∃ s' calls, opEventRun now turns draws s = some (s', calls) ∧ RanDue now s s' calls := by
  induction turns generalizing s pending draws with
  | zero => exact absurd enough (Nat.not_lt_zero _)
  | succ turns ih =>
    have further {t : State} {top : Nat} (took : Took now s t top) (mem : top ∈ pending) :
        ∃ s' calls, opEventRun now turns (fun n => draws (n + 1)) t = some (s', calls) ∧ RanDue now t s' calls := by
      have shorter := length_erase_add_one mem
      have left : ∀ ev, t.Queued ev → (t.entries ev).dead = true ∨ (t.entries ev).when ≤ now →
          ev ∈ pending.erase top := by
        intro ev queued reason
        by_cases self : ev = top
        · rw [self] at queued reason
          exact absurd reason (took.done queued)
        · rw [took.other ev self] at reason
          exact (mem_erase_of_ne self).mpr (covers ev (took.queued ev queued) reason)
      apply ih took.inv _ left (by omega)
      exact later.of_due (fun ev isDue => ((took.due ev).mp isDue).1) fun ev isDue =>
        took.other ev ((took.due ev).mp isDue).2
    rw [opEventRun]
    have turn := runTurn_turn inv now (draws 0)
    generalize runTurn now (draws 0) s = outcome at turn
    cases turn with
    | stop quiet => exact ⟨s, [], rfl, RanDue.stop inv quiet⟩
    | @reap t top queued dead removed =>
      have dies (live : s.Live top) : False := absurd (live.2.symm.trans dead) Bool.false_ne_true
      obtain ⟨s', calls, result, ran⟩ := further removed.took (covers top queued (.inl dead))
      dsimp only
      rw [result]
      refine ⟨s', calls, rfl, ran.after none removed.took ?_ ?_ ?_ ?_ ?_⟩
      · exact fun ev => iff_of_false (some_ne_none ev).symm fun due => dies due.2.1
      all_goals exact fun due => (dies (by first | exact due | exact due.1)).elim
    | @once t top due first oneShot removed =>
      obtain ⟨s', calls, result, ran⟩ := further removed.took (covers top due.1.1 (.inr due.2))
      dsimp only
      rw [result]
      refine ⟨s', top :: calls, rfl, ran.after (some top) removed.took (fun ev => ?_) (fun _ => first)
        (fun _ _ mem => ?_) (fun _ repeats => absurd oneShot repeats) fun _ => due⟩
      · rw [some_inj, eq_comm, and_iff_left due]
      · exact ((removed.queued top).mp mem).2 rfl
    | @again t top due first periodic rescheduled =>
      have beyond := later top due periodic (draws 0)
      have took := rescheduled.took due.1 beyond
      obtain ⟨s', calls, result, ran⟩ := further took (covers top due.1.1 (.inr due.2))
      dsimp only
      rw [result]
      refine ⟨s', top :: calls, rfl, ran.after (some top) took (fun ev => ?_) (fun _ => first)
        (fun _ stops => absurd stops periodic) (fun _ _ => ?_) fun _ => due⟩
      · rw [some_inj, eq_comm, and_iff_left due]
      · exact ⟨rescheduled.live.mpr due.1, _, beyond, rescheduled.self⟩

variable {draws : Nat → Nat} {calls : List Nat}

/-- Nothing due is left in the heap. -/
lemma opEventRun_quiet (inv : Inv s) (returns : opEventRun now turns draws s = some (s', calls)) :
    Inv s' ∧ ∀ ev, s'.Queued ev → now < (s'.entries ev).when := by
  induction turns generalizing s draws calls with
  | zero => cases returns
  | succ turns ih =>
    rw [opEventRun] at returns
    have turn := runTurn_turn inv now (draws 0)
    generalize runTurn now (draws 0) s = outcome at turn returns
    cases turn with
    | stop quiet =>
      cases returns
      exact ⟨inv, quiet⟩
    | reap _ _ kept | once _ _ _ kept | again _ _ _ kept =>
      obtain ⟨result, rest, same⟩ := map_eq_some_iff.mp returns
      cases same
      exact ih kept.inv rest

lemma Reached.inv (reached : Reached s) : Inv s := by
  induction reached with
  | init => exact init_inv
  | call reached c ih => exact ih.call c
  | run reached returns ih => exact (opEventRun_quiet ih returns).1

lemma opEventRun_stuck (inv : Inv s) (due : s.Due now ev) (periodic : (s.entries ev).frequency ≠ 0)
    (early : timeT (now + opEventFrequency draw (s.entries ev).frequency) ≤ now) (turns : Nat) :
    opEventRun now turns (fun _ => draw) s = none := by
  induction turns generalizing s with
  | zero => rfl
  | succ turns ih =>
    rw [opEventRun]
    have turn := runTurn_turn inv now draw
    generalize runTurn now draw s = outcome at turn
    have removal {t : State} {top : Nat} (removed : Removed s t top) (other : ev ≠ top) :
        opEventRun now turns (fun _ => draw) t = none := by
      apply ih removed.inv (removed.due.mpr ⟨due, other⟩)
      · rw [removed.entries]
        exact periodic
      · rw [removed.entries]
        exact early
    cases turn with
    | stop quiet => exact absurd (quiet ev due.1.1) (not_lt_of_ge due.2)
    | @reap t top queued dead removed =>
      have other : ev ≠ top := by
        intro self
        rw [← self, due.1.2] at dead
        cases dead
      dsimp only
      rw [removal removed other]
      rfl
    | @once t top isDue first oneShot removed =>
      have other : ev ≠ top := by
        intro self
        rw [self] at periodic
        exact periodic oneShot
      dsimp only
      rw [removal removed other]
      rfl
    | @again t top isDue first repeats rescheduled =>
      have kept : (t.entries ev).frequency = (s.entries ev).frequency ∧ (t.entries ev).when ≤ now := by
        by_cases self : ev = top
        · rw [self, rescheduled.self, ← self]
          exact ⟨rfl, early⟩
        · rw [rescheduled.other ev self]
          exact ⟨rfl, due.2⟩
      have next : opEventRun now turns (fun _ => draw) t = none := by
        apply ih rescheduled.inv ⟨rescheduled.live.mpr due.1, kept.2⟩
        · rw [kept.1]
          exact periodic
        · rw [kept.1]
          exact early
      dsimp only
      rw [next]
      rfl

/-- Whatever `arc4random` gives, `op_event_run` returns and calls what is due. -/
def FiresDue (now : Int) (s : State) : Prop :=
  ∀ draws, ∃ turns s' calls, opEventRun now turns draws s = some (s', calls) ∧ RanDue now s s' calls

lemma timeT_of_fits (low : -2 ^ 63 ≤ x) (high : x < 2 ^ 63) : timeT x = x := by
  rw [timeT, Int.bmod_eq_of_le] <;> omega

lemma opEventFrequency_bounds
    (moderate : 0 < frequency ∧ frequency ≤ 2 ^ 53 ∨ -2 ^ 53 ≤ frequency ∧ frequency ≤ -2) (draw : Nat) :
    0 < opEventFrequency draw frequency ∧ opEventFrequency draw frequency ≤ 2 ^ 54 := by
  rcases moderate with exact | jittered
  · rw [opEventFrequency, if_neg (by omega)]
    omega
  · have magnitude : |frequency| = -frequency := abs_of_nonpos (by omega)
    have double : timeT (2 * llabs frequency) = 2 * -frequency := by
      have absolute : llabs frequency = -frequency := by rw [llabs, magnitude, timeT_of_fits (by omega) (by omega)]
      rw [absolute, timeT_of_fits (by omega) (by omega)]
    rw [opEventFrequency, if_pos (by omega), double, Int.tdiv_eq_ediv_of_nonneg (by omega)]
    dsimp only
    generalize third : 2 * -frequency / 3 = twoThird
    have least : (0 : Int) ≤ (draw % 1000 : Nat) * twoThird := Int.mul_nonneg (by omega) (by omega)
    have most : ((draw % 1000 : Nat) : Int) * twoThird ≤ 999 * twoThird :=
      Int.mul_le_mul_of_nonneg_right (by omega) (by omega)
    rw [timeT_of_fits (by omega) (by omega : ((draw % 1000 : Nat) : Int) * twoThird < 2 ^ 63),
      Int.tdiv_eq_ediv_of_nonneg least, timeT_of_fits (by omega) (by omega)]
    omega

section

variable (reached : Reached s)

include reached

lemma LaterAgain.fires (later : LaterAgain now s) : FiresDue now s := by
  intro draws
  have covers : ∀ ev, s.Queued ev → (s.entries ev).dead = true ∨ (s.entries ev).when ≤ now →
      ev ∈ (range s.heapLen).map s.heap := by
    intro ev queued _
    obtain ⟨i, below, rfl⟩ := queued
    exact mem_map_of_mem (mem_range.mpr below)
  exact ⟨_, opEventRun_ranDue reached.inv later covers (Nat.lt_succ_self _) draws⟩

lemma laterAgain_of_returns (returns : ∀ draws, ∃ turns, opEventRun now turns draws s ≠ none) : LaterAgain now s := by
  intro ev due periodic draw
  by_contra early
  obtain ⟨turns, returned⟩ := returns fun _ => draw
  exact returned (opEventRun_stuck reached.inv due periodic (le_of_not_gt early) turns)

end

lemma laterAgain_of_moderate (low : -2 ^ 63 ≤ now) (high : now < 2 ^ 63 - 2 ^ 54)
    (moderate : ∀ ev, s.Due now ev → (s.entries ev).frequency = 0 ∨
      (0 < (s.entries ev).frequency ∧ (s.entries ev).frequency ≤ 2 ^ 53 ∨
        -2 ^ 53 ≤ (s.entries ev).frequency ∧ (s.entries ev).frequency ≤ -2)) : LaterAgain now s := by
  intro ev due periodic draw
  have bounds := opEventFrequency_bounds ((moderate ev due).resolve_left periodic) draw
  rw [timeT_of_fits (by omega) (by omega)]
  omega

theorem fires_due_iff (s : State) (reached : Reached s) (now : Int) : (FiresDue now s ↔ LaterAgain now s) ∧
      (-2 ^ 63 ≤ now → now < 2 ^ 63 - 2 ^ 54 → (∀ ev, s.Due now ev → (s.entries ev).frequency = 0 ∨
          (0 < (s.entries ev).frequency ∧ (s.entries ev).frequency ≤ 2 ^ 53 ∨
            -2 ^ 53 ≤ (s.entries ev).frequency ∧ (s.entries ev).frequency ≤ -2)) → FiresDue now s) := by
  apply And.intro
  · apply Iff.intro _ (LaterAgain.fires reached)
    intro property
    apply laterAgain_of_returns reached
    intro draws
    obtain ⟨turns, s', calls, returns, -⟩ := property draws
    exact ⟨turns, returns ▸ some_ne_none _⟩
  · intro low high moderate
    exact (laterAgain_of_moderate low high moderate).fires reached

/-- A delay that overflows `time_t` is due at once, also when it is rescheduled. -/
theorem overflowing_event_never_rests :
    let s := State.init.call (.add 1 [] 0 0 (2 ^ 63 - 1))
    Reached s ∧ s.Due 1 0 ∧ (∀ turns, opEventRun 1 turns (fun _ => 0) s = none) ∧ ¬FiresDue 1 s := by
  intro s
  have reached : Reached s := Reached.init.call _
  have due : s.Due 1 0 := ⟨⟨⟨0, by decide, rfl⟩, rfl⟩, by decide⟩
  have never (turns : Nat) : opEventRun 1 turns (fun _ => 0) s = none :=
    opEventRun_stuck reached.inv due (by decide) (by decide) turns
  refine ⟨reached, due, never, ?_⟩
  intro property
  obtain ⟨turns, s', calls, returns, -⟩ := property fun _ => 0
  rw [never turns] at returns
  cases returns

theorem fires_due_five_seconds :
    let s := State.init.call (.add 100 [] 7 8 5)
    s.Due 105 0 ∧ FiresDue 105 s := by
  intro s
  apply And.intro ⟨⟨⟨0, by decide, rfl⟩, rfl⟩, by decide⟩
  apply (fires_due_iff s (Reached.init.call _) 105).2 (by decide) (by decide)
  intro ev due
  obtain ⟨i, below, rfl⟩ := due.1.1
  have only : i = 0 := Nat.lt_one_iff.mp below
  rw [only]
  exact .inr (.inl (by decide))

theorem event_run_returns_iff (s : State) (reached : Reached s) (now : Int) :
    ((∀ draws, ∃ turns, opEventRun now turns draws s ≠ none) ↔ LaterAgain now s) ∧
      (-2 ^ 63 ≤ now → now < 2 ^ 63 - 2 ^ 54 →
        (∀ ev, s.Due now ev → -2 ^ 53 ≤ (s.entries ev).frequency ∧ (s.entries ev).frequency ≤ 2 ^ 53) →
        (LaterAgain now s ↔ ∀ ev, s.Due now ev → (s.entries ev).frequency ≠ -1)) := by
  apply And.intro
  · apply Iff.intro (laterAgain_of_returns reached)
    intro later draws
    obtain ⟨turns, s', calls, returns, -⟩ := later.fires reached draws
    exact ⟨turns, returns ▸ some_ne_none _⟩
  · intro low high moderate
    constructor
    · intro later ev due minusOne
      have next := later ev due (by omega) 0
      rw [minusOne, show opEventFrequency 0 (-1) = 0 by decide, Int.add_zero, timeT_of_fits (by omega) (by omega)] at next
      exact absurd next (lt_irrefl _)
    · intro other
      apply laterAgain_of_moderate low high
      intro ev due
      have bounds := moderate ev due
      have differs := other ev due
      omega

/-- Two thirds of 1 are 0, so an entry updated to -1 is due again at once. -/
theorem updated_event_never_rests :
    let s := (State.init.call (.add 1 [] 0 0 5)).call (.update 1 0 0 (-1))
    Reached s ∧ ∀ turns, opEventRun 1 turns (fun _ => 0) s = none := by
  intro s
  have reached : Reached s := (Reached.init.call _).call _
  have due : s.Due 1 0 := ⟨⟨⟨0, by decide, rfl⟩, rfl⟩, by decide⟩
  exact ⟨reached, opEventRun_stuck reached.inv due (by decide) (by decide)⟩

theorem event_run_returns_periodic :
    let s := (State.init.call (.add 100 [] 7 8 5)).call (.addonce 100 [] 7 9 3)
    s.Due 105 0 ∧ ∃ turns, opEventRun 105 turns (fun _ => 0) s ≠ none := by
  intro s
  apply And.intro ⟨⟨⟨1, by decide, by decide⟩, by decide⟩, by decide⟩
  apply (event_run_returns_iff s ((Reached.init.call _).call _) 105).1.mpr
  intro ev due repeats draw
  obtain ⟨i, below, rfl⟩ := due.1.1
  rcases Nat.le_one_iff_eq_zero_or_eq_one.mp (Nat.le_of_lt_succ below) with rfl | rfl
  · exact absurd (by decide) repeats
  · change 105 < timeT (105 + opEventFrequency draw 5)
    rw [opEventFrequency, if_neg (by decide)]
    decide

def opEventNext (s : State) : Int := if s.heapLen > 0 then (s.entries (s.heap 0)).when else -1

/-- A loop that sleeps until `op_event_next` oversleeps no entry, and does not spin after `op_event_run`. -/
theorem event_next_earliest (s : State) (reached : Reached s) (pos : 0 < s.heapLen) :
    IsLeast {t | ∃ ev, s.Queued ev ∧ (s.entries ev).when = t} (opEventNext s) ∧
      ∀ before now turns draws calls, Reached before → opEventRun now turns draws before = some (s, calls) →
        now < opEventNext s := by
  rw [opEventNext, if_pos pos]
  have top : s.Queued (s.heap 0) := ⟨0, pos, rfl⟩
  refine ⟨⟨⟨_, top, rfl⟩, ?_⟩, ?_⟩
  · rintro t ⟨ev, ⟨i, below, rfl⟩, rfl⟩
    exact reached.inv.ordered.root_le below
  · intro before now turns draws calls earlier returns
    exact (opEventRun_quiet earlier.inv returns).2 _ top

theorem event_next_earliest_pair :
    let s := (State.init.call (.add 100 [] 7 8 9)).call (.addonce 100 [] 7 8 5)
    opEventNext s = 105 ∧ IsLeast {t | ∃ ev, s.Queued ev ∧ (s.entries ev).when = t} (opEventNext s) :=
  ⟨by decide, (event_next_earliest _ ((Reached.init.call _).call _) (by decide)).1⟩

end LibOp.Event

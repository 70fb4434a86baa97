import LibOp.Clock.Hlc
import LibOp.Foundation.Causality
import LibOp.Foundation.Runs

namespace LibOp.Clock

open LibOp.Foundation List

variable {ν : Type*}

/-- A receive names its send by the position in the log. -/
inductive HlcEvent (ν : Type*) where
  | tick (node : ν) (nowMs : UInt64)
  | recv (node : ν) (nowMs : UInt64) (sender : Nat)

def HlcEvent.node : HlcEvent ν → ν
  | .tick node _ => node
  | .recv node _ _ => node

def HlcEvent.sender : HlcEvent ν → Option Nat
  | .tick _ _ => none
  | .recv _ _ sender => some sender

def HlcEvent.nowMs : HlcEvent ν → UInt64
  | .tick _ nowMs => nowMs
  | .recv _ nowMs _ => nowMs

/-- The clock of each node, the events so far and their timestamps. -/
structure HlcWorld (ν : Type*) where
  clocks : ν → Hlc
  events : List (HlcEvent ν)
  stamps : List Hlc

def HlcWorld.init : HlcWorld ν := ⟨fun _ => hlcZero, [], []⟩

def HlcWorld.stamp (w : HlcWorld ν) (i : Nat) : Hlc := w.stamps.getD i hlcZero

def HlcWorld.returned (w : HlcWorld ν) : HlcEvent ν → Hlc
  | .tick node nowMs => hlcTick (w.clocks node) nowMs
  | .recv node nowMs sender => hlcRecv (w.clocks node) nowMs (w.stamp sender)

def HlcWorld.inputs (w : HlcWorld ν) : HlcEvent ν → List Hlc
  | .tick node _ => [w.clocks node]
  | .recv node _ sender => [w.clocks node, w.stamp sender]

def HlcWorld.Legal (w : HlcWorld ν) (e : HlcEvent ν) : Prop :=
  e.nowMs.toNat < 2 ^ 48 ∧ ∀ i ∈ e.sender, ∃ node nowMs, w.events[i]? = some (.tick node nowMs)

def HlcWorld.LogicalFits (w : HlcWorld ν) (e : HlcEvent ν) : Prop :=
  ∀ h ∈ w.inputs e, ¬ Exhausted e.nowMs (w.inputs e) h

def HlcWorld.step [DecidableEq ν] (w : HlcWorld ν) (e : HlcEvent ν) : HlcWorld ν where
  clocks := Function.update w.clocks e.node (w.returned e)
  events := w.events ++ [e]
  stamps := w.stamps ++ [w.returned e]

def hlcRun [DecidableEq ν] (events : List (HlcEvent ν)) : HlcWorld ν := events.foldl HlcWorld.step HlcWorld.init

open HlcWorld

lemma not_exhausted_of_lt (w : HlcWorld ν) (e : HlcEvent ν) (legal : w.Legal e) (mem : h ∈ w.inputs e)
    (increases : h.ts.toNat < (w.returned e).ts.toNat) : ¬ Exhausted e.nowMs (w.inputs e) h := by
  cases e with
  | tick node nowMs =>
    rw [List.mem_singleton.mp mem] at increases ⊢
    exact (hlcTick_increases_iff legal.1).mp increases
  | recv node nowMs sender => exact not_exhausted_of_lt_hlcRecv legal.1 mem increases

lemma returned_increases (w : HlcWorld ν) (e : HlcEvent ν) (legal : w.Legal e) (fits : w.LogicalFits e) :
    ∀ h ∈ w.inputs e, h.ts.toNat < (w.returned e).ts.toNat := by
  cases e with
  | tick node nowMs =>
    have grows : _ < (w.returned (.tick node nowMs)).ts.toNat :=
      (hlcTick_increases_iff legal.1).mpr (fits (w.clocks node) (by simp [inputs]))
    simpa [inputs] using grows
  | recv node nowMs sender =>
    have spare := fits (w.clocks node) (by simp [inputs])
    have remoteSpare := fits (w.stamp sender) (by simp [inputs])
    have grows : _ < (w.returned (.recv node nowMs sender)).ts.toNat ∧
        _ < (w.returned (.recv node nowMs sender)).ts.toNat := hlcRecv_increases legal.1 spare remoteSpare
    simpa [inputs] using grows

structure HlcWorld.Tracked (w : HlcWorld ν) : Prop where
  stamped : w.stamps.length = w.events.length
  origin : ∀ node, w.clocks node = hlcZero ∨
    ∃ (i : Nat) (e : HlcEvent ν), w.events[i]? = some e ∧ e.node = node ∧ w.clocks node = w.stamp i
  current : ∀ (j : Nat) (d : HlcEvent ν), w.events[j]? = some d →
    ∃ (i : Nat) (e : HlcEvent ν), w.events[i]? = some e ∧ e.node = d.node ∧ j ≤ i ∧ w.clocks d.node = w.stamp i

lemma init_tracked : (HlcWorld.init : HlcWorld ν).Tracked where
  stamped := rfl
  origin _ := .inl rfl
  current j d found := by simp [HlcWorld.init] at found

def HlcWorld.Increasing (w : HlcWorld ν) : Prop :=
  ∀ i j, DirectlyBefore HlcEvent.node HlcEvent.sender w.events i j → (w.stamp i).ts.toNat < (w.stamp j).ts.toNat

variable {w : HlcWorld ν}

lemma HlcWorld.Tracked.stamp_le_clock (tracked : w.Tracked) (increasing : w.Increasing)
    (found : w.events[j]? = some d) : (w.stamp j).ts.toNat ≤ (w.clocks d.node).ts.toNat := by
  obtain ⟨i, a, foundA, same, later, clock⟩ := tracked.current j d found
  rw [clock]
  rcases lt_or_eq_of_le later with earlier | rfl
  · exact le_of_lt (increasing j i ⟨earlier, d, a, found, foundA, .inl same.symm⟩)
  · exact le_rfl

variable [DecidableEq ν] {i : Nat}

lemma stamp_step_old (w : HlcWorld ν) (e : HlcEvent ν) (old : i < w.stamps.length) :
    (w.step e).stamp i = w.stamp i := by
  simp [stamp, step, getD_eq_getElem?_getD, getElem?_append_left old]

lemma stamp_step_new (w : HlcWorld ν) (e : HlcEvent ν) : (w.step e).stamp w.stamps.length = w.returned e := by
  simp [stamp, step, getD_eq_getElem?_getD]

lemma event_step_old (w : HlcWorld ν) (e : HlcEvent ν) (found : w.events[i]? = some a) :
    (w.step e).events[i]? = some a := by
  have bound := (List.getElem?_eq_some_iff.mp found).1
  simp [step, getElem?_append_left bound, found]

lemma event_step_new (w : HlcWorld ν) (e : HlcEvent ν) : (w.step e).events[w.events.length]? = some e :=
  getElem?_concat_length

lemma event_step_cases (found : (w.step e).events[j]? = some d) :
    w.events[j]? = some d ∨ (j = w.events.length ∧ d = e) := by
  have bound := (List.getElem?_eq_some_iff.mp found).1
  simp only [step, length_append, length_singleton] at bound
  rcases lt_or_ge j w.events.length with old | new
  · left
    simpa only [step, getElem?_append_left old] using found
  · right
    have here : j = w.events.length := by omega
    rw [here, event_step_new] at found
    exact ⟨here, (Option.some.inj found).symm⟩

lemma step_clock_here (w : HlcWorld ν) (e : HlcEvent ν) (stamped : w.stamps.length = w.events.length) :
    (w.step e).clocks e.node = (w.step e).stamp w.events.length := by
  rw [← stamped, stamp_step_new]
  exact Function.update_self e.node (w.returned e) w.clocks

lemma step_clock_elsewhere (w : HlcWorld ν) (e : HlcEvent ν) {node : ν} (elsewhere : node ≠ e.node) :
    (w.step e).clocks node = w.clocks node := by
  exact Function.update_of_ne elsewhere (w.returned e) w.clocks

lemma HlcWorld.Tracked.stamp_old (tracked : w.Tracked) (e : HlcEvent ν)
    (found : w.events[i]? = some a) : (w.step e).stamp i = w.stamp i := by
  apply stamp_step_old
  rw [tracked.stamped]
  exact (List.getElem?_eq_some_iff.mp found).1

lemma step_tracked (tracked : w.Tracked) (e : HlcEvent ν) : (w.step e).Tracked where
  stamped := by simp [step, tracked.stamped]
  origin node := by
    by_cases here : node = e.node
    · subst here
      exact .inr ⟨_, e, event_step_new w e, rfl, step_clock_here w e tracked.stamped⟩
    · rw [step_clock_elsewhere w e here]
      rcases tracked.origin node with zero | ⟨i, a, found, atNode, clock⟩
      · exact .inl zero
      · exact .inr ⟨i, a, event_step_old w e found, atNode, by rw [clock, tracked.stamp_old e found]⟩
  current j d found := by
    by_cases here : d.node = e.node
    · rw [here]
      refine ⟨_, e, event_step_new w e, rfl, ?_, step_clock_here w e tracked.stamped⟩
      rcases event_step_cases found with old | ⟨new, _⟩
      · exact le_of_lt (List.getElem?_eq_some_iff.mp old).1
      · exact le_of_eq new
    · rcases event_step_cases found with old | ⟨_, rfl⟩
      · obtain ⟨i, a, foundA, same, later, clock⟩ := tracked.current j d old
        refine ⟨i, a, event_step_old w e foundA, same, later, ?_⟩
        rw [step_clock_elsewhere w e here, clock, tracked.stamp_old e foundA]
      · exact absurd rfl here

lemma increasing_of_step (tracked : w.Tracked) (e : HlcEvent ν) (increasing : (w.step e).Increasing) :
    w.Increasing := by
  intro i j edge
  have bound : j < w.stamps.length := by
    rw [tracked.stamped]
    exact edge.bound
  have whole := increasing i j ((directlyBefore_snoc_old edge.bound).mpr edge)
  rw [stamp_step_old w e bound, stamp_step_old w e (lt_trans edge.1 bound)] at whole
  exact whole

lemma zero_not_exhausted (nowMs : UInt64) (inputs : List Hlc) : ¬ Exhausted nowMs inputs hlcZero := by
  intro spent
  cases spent.1

lemma mem_inputs (tracked : w.Tracked) (sent : ∀ i ∈ e.sender, i < w.events.length)
    (mem : h ∈ w.inputs e) : h = hlcZero ∨ ∃ i,
      DirectlyBefore HlcEvent.node HlcEvent.sender (w.step e).events i w.events.length ∧ h = (w.step e).stamp i := by
  have clock (isClock : h = w.clocks e.node) : h = hlcZero ∨ ∃ i,
      DirectlyBefore HlcEvent.node HlcEvent.sender (w.step e).events i w.events.length ∧ h = (w.step e).stamp i := by
    rcases tracked.origin e.node with zero | ⟨i, a, found, same, held⟩
    · exact .inl (isClock.trans zero)
    · refine .inr ⟨i, directlyBefore_snoc_new.mpr ⟨a, found, .inl same⟩, ?_⟩
      rw [isClock, held, tracked.stamp_old e found]
  cases e with
  | tick node nowMs => exact clock (List.mem_singleton.mp mem)
  | recv node nowMs sender =>
    rcases List.mem_cons.mp mem with isClock | isRemote
    · exact clock isClock
    · have found := getElem?_eq_getElem (sent sender rfl)
      refine .inr ⟨sender, directlyBefore_snoc_new.mpr ⟨_, found, .inr rfl⟩, ?_⟩
      rw [tracked.stamp_old _ found]
      exact List.mem_singleton.mp isRemote

lemma step_increasing_iff (tracked : w.Tracked) (e : HlcEvent ν) (legal : w.Legal e) (increasing : w.Increasing) :
    (w.step e).Increasing ↔ w.LogicalFits e := by
  constructor
  · intro whole h mem
    have sent : ∀ i ∈ e.sender, i < w.events.length := by
      intro i sender
      obtain ⟨node, nowMs, found⟩ := legal.2 i sender
      exact (List.getElem?_eq_some_iff.mp found).1
    rcases mem_inputs tracked sent mem with rfl | ⟨i, edge, rfl⟩
    · exact zero_not_exhausted _ _
    · apply not_exhausted_of_lt w e legal mem
      have grows := whole i _ edge
      rwa [← tracked.stamped, stamp_step_new] at grows
  · intro fits i j edge
    have exceeds := returned_increases w e legal fits
    rcases lt_or_ge j w.events.length with old | new
    · have before := (directlyBefore_snoc_old old).mp edge
      rw [← tracked.stamped] at old
      rw [stamp_step_old w e old, stamp_step_old w e (lt_trans edge.1 old)]
      exact increasing i j before
    · have bound := edge.bound
      have here : j = w.events.length := by
        simp only [step, length_append, length_singleton] at bound
        omega
      subst here
      obtain ⟨a, found, link⟩ := directlyBefore_snoc_new.mp edge
      rw [tracked.stamp_old e found, ← tracked.stamped, stamp_step_new]
      rcases link with same | sent
      · have clock : w.clocks e.node ∈ w.inputs e := by cases e <;> simp [inputs, HlcEvent.node]
        have held := tracked.stamp_le_clock increasing found
        rw [same] at held
        exact lt_of_le_of_lt held (exceeds _ clock)
      · cases e with
        | tick node nowMs => cases sent
        | recv node nowMs sender =>
          cases sent
          exact exceeds _ (by simp [inputs])

variable (events : List (HlcEvent ν))

lemma increasing_iff_fits (legal : Permitted HlcWorld.Legal step HlcWorld.init events) :
    (hlcRun events).Increasing ↔ Permitted HlcWorld.LogicalFits step HlcWorld.init events := by
  apply legal.final_iff (fun w e tracked _ => step_tracked tracked e)
    (fun w e tracked => increasing_of_step tracked e) (fun w e tracked => step_increasing_iff tracked e)
    init_tracked
  intro i j edge
  have bound := edge.bound
  simp [HlcWorld.init] at bound

lemma run_events : (hlcRun events).events = events := by
  have grown (w : HlcWorld ν) : (events.foldl step w).events = w.events ++ events := by
    induction events generalizing w with
    | nil => simp
    | cons e rest ih => simp [ih, step]
  exact grown HlcWorld.init

theorem timestamps_causal_iff (events : List (HlcEvent ν))
    (legal : Permitted HlcWorld.Legal HlcWorld.step HlcWorld.init events) :
    (∀ i j, HappensBefore HlcEvent.node HlcEvent.sender events i j →
        hlcCmp ((hlcRun events).stamp i) ((hlcRun events).stamp j) < 0) ↔
      Permitted HlcWorld.LogicalFits HlcWorld.step HlcWorld.init events := by
  rw [← increasing_iff_fits events legal]
  simp only [hlcCmp_neg_iff]
  rw [happensBefore_increasing_iff events (fun i => ((hlcRun events).stamp i).ts.toNat)]
  unfold HlcWorld.Increasing
  rw [run_events]

theorem timestamps_causal_exchange :
    (∀ i j, HappensBefore HlcEvent.node HlcEvent.sender [.tick true 5, .recv false 3 0, .tick false 9] i j →
      hlcCmp ((hlcRun [.tick true 5, .recv false 3 0, .tick false 9]).stamp i)
        ((hlcRun [.tick true 5, .recv false 3 0, .tick false 9]).stamp j) < 0) ↔
    Permitted HlcWorld.LogicalFits HlcWorld.step HlcWorld.init [.tick true 5, .recv false 3 0, .tick false 9] := by
  apply timestamps_causal_iff
  simp [HlcWorld.Legal, step, HlcWorld.init, HlcEvent.nowMs, HlcEvent.sender]

def idleTicks (count : Nat) : List (HlcEvent Unit) := List.replicate count (.tick () 0)

lemma idleTicks_event {count i : Nat} (bound : i < count) : (idleTicks count)[i]? = some (.tick () 0) := by
  simp [idleTicks, bound]

lemma idleTicks_run (count : Nat) : hlcRun (idleTicks (count + 1)) = (hlcRun (idleTicks count)).step (.tick () 0) := by
  unfold hlcRun idleTicks
  rw [replicate_succ', foldl_append]
  rfl

lemma idleTicks_clock (count : Nat) (few : count < 65536) :
    ((hlcRun (idleTicks count)).clocks ()).ts.toNat = count := by
  induction count with
  | zero => rfl
  | succ count ih =>
    have before := ih (by omega)
    have ticked := hlcTick_toNat ((hlcRun (idleTicks count)).clocks ()) 0 (by decide)
    rw [idleTicks_run]
    change (hlcTick ((hlcRun (idleTicks count)).clocks ()) 0).ts.toNat = count + 1
    rw [ticked, before, if_neg (by simp)]
    omega

lemma run_tracked : (hlcRun events).Tracked := by
  apply List.foldlRecOn (motive := HlcWorld.Tracked)
  · exact init_tracked
  · intro w tracked e _
    exact step_tracked tracked e

lemma idleTicks_stamp (count : Nat) :
    (hlcRun (idleTicks (count + 1))).stamp count = hlcTick ((hlcRun (idleTicks count)).clocks ()) 0 := by
  have length : (hlcRun (idleTicks count)).stamps.length = count := by
    rw [(run_tracked _).stamped, run_events, idleTicks, length_replicate]
  have stamped := stamp_step_new (hlcRun (idleTicks count)) (.tick () 0)
  rw [length] at stamped
  rw [idleTicks_run]
  exact stamped

theorem idle_ticks_wrap : HappensBefore HlcEvent.node HlcEvent.sender (idleTicks 65536) 65534 65535 ∧
      ¬ hlcCmp ((hlcRun (idleTicks 65536)).stamp 65534) ((hlcRun (idleTicks 65536)).stamp 65535) < 0 := by
  constructor
  · apply Relation.TransGen.single
    exact ⟨by omega, .tick () 0, .tick () 0, idleTicks_event (by omega), idleTicks_event (by omega), Or.inl rfl⟩
  · rw [idleTicks_stamp 65535, hlcCmp_neg_iff, hlcTick_toNat _ 0 (by decide), idleTicks_clock 65535 (by omega)]
    simp

end LibOp.Clock

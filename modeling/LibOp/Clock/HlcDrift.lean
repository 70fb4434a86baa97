import LibOp.Clock.HlcCausality

namespace LibOp.Clock

open Foundation HlcWorld

variable {ν : Type*}

/-- A message carries the timestamp of any earlier event. -/
def HlcWorld.Timely (w : HlcWorld ν) (e : HlcEvent ν) : Prop :=
  e.nowMs.toNat < 2 ^ 48 ∧ ∀ i ∈ e.sender, i < w.events.length

lemma hlcPack_wall (logical : UInt16) (bounded : wallMs.toNat < 2 ^ 48) :
    hlcWallMs (hlcPack wallMs logical) = wallMs := by
  have small := logical.toNat_lt
  rw [← UInt64.toNat_inj, hlcWallMs_toNat, hlcPack_toNat wallMs logical bounded]
  omega

lemma returned_wall (w : HlcWorld ν) (bounded : e.nowMs.toNat < 2 ^ 48) :
    e.nowMs ≤ hlcWallMs (w.returned e) ∧ (hlcWallMs (w.returned e) = e.nowMs ∨
      ∃ h ∈ w.inputs e, hlcWallMs h = hlcWallMs (w.returned e)) := by
  cases e with
  | tick node nowMs =>
    simp only [returned, hlcTick, HlcEvent.nowMs, inputs, List.mem_singleton, exists_eq_left]
    split
    · have packed : hlcWallMs (hlcPack nowMs 0) = nowMs := hlcPack_wall 0 bounded
      rw [packed]
      exact ⟨UInt64.le_refl _, .inl rfl⟩
    next behind =>
      rw [hlcPack_wall _ (hlcWallMs_lt _)]
      exact ⟨UInt64.not_lt.mp behind, .inr rfl⟩
  | recv node nowMs sender =>
    have largest := maxWall_toNat nowMs (hlcWallMs (w.clocks node)) (hlcWallMs (w.stamp sender))
    have lBound := hlcWallMs_lt (w.clocks node)
    have rBound := hlcWallMs_lt (w.stamp sender)
    simp only [HlcEvent.nowMs] at bounded
    simp only [returned, hlcRecv, HlcEvent.nowMs, inputs, List.mem_cons, List.not_mem_nil, or_false,
      exists_eq_or_imp, exists_eq_left]
    rw [hlcPack_wall _ (by omega), UInt64.le_iff_toNat_le, ← UInt64.toNat_inj, ← UInt64.toNat_inj, ← UInt64.toNat_inj]
    omega

def HlcWorld.WallsSupplied (w : HlcWorld ν) : Prop :=
  ∀ (i : Nat) (e : HlcEvent ν), w.events[i]? = some e → e.nowMs ≤ hlcWallMs (w.stamp i) ∧
    (hlcWallMs (w.stamp i) = e.nowMs ∨ ∃ k, DirectlyBefore HlcEvent.node HlcEvent.sender w.events k i ∧
      hlcWallMs (w.stamp k) = hlcWallMs (w.stamp i))

variable [DecidableEq ν]

lemma step_wallsSupplied {w : HlcWorld ν} (tracked : w.Tracked) {e : HlcEvent ν} (timely : w.Timely e)
    (supplied : w.WallsSupplied) : (w.step e).WallsSupplied := by
  intro i d found
  rcases event_step_cases found with old | ⟨rfl, rfl⟩
  · obtain ⟨lower, origin⟩ := supplied i d old
    rw [tracked.stamp_old e old]
    refine ⟨lower, origin.imp_right ?_⟩
    intro earlier
    obtain ⟨k, edge, same⟩ := earlier
    rcases edge.2 with ⟨a, _, first, _⟩
    exact ⟨k, (directlyBefore_snoc_old edge.bound).mpr edge, by rw [tracked.stamp_old e first, same]⟩
  · obtain ⟨lower, origin⟩ := returned_wall w timely.1
    rw [← tracked.stamped, stamp_step_new, tracked.stamped]
    refine ⟨lower, ?_⟩
    rcases origin with here | ⟨h, input, same⟩
    · exact Or.inl here
    · rcases mem_inputs tracked timely.2 input with rfl | ⟨k, edge, rfl⟩
      · left
        apply UInt64.le_antisymm _ lower
        rw [← same]
        exact UInt64.zero_le
      · exact Or.inr ⟨k, edge, same⟩

lemma run_wallsSupplied {events : List (HlcEvent ν)}
    (timely : Permitted HlcWorld.Timely step HlcWorld.init events) : (hlcRun events).WallsSupplied := by
  have keep (w : HlcWorld ν) (e : HlcEvent ν) (both : w.Tracked ∧ w.WallsSupplied) (allowed : w.Timely e) :
      (w.step e).Tracked ∧ (w.step e).WallsSupplied :=
    ⟨step_tracked both.1 e, step_wallsSupplied both.1 allowed both.2⟩
  have initial : (HlcWorld.init : HlcWorld ν).WallsSupplied := by
    intro i e found
    simp [HlcWorld.init] at found
  exact (Permitted.preserves keep ⟨init_tracked, initial⟩ timely).2

/-- The wall of a timestamp is the `now_ms` of its event or of an earlier one. -/
theorem wall_stays_near_now (events : List (HlcEvent ν))
    (timely : Permitted HlcWorld.Timely HlcWorld.step HlcWorld.init events) (i : Nat) (e : HlcEvent ν)
    (found : events[i]? = some e) : e.nowMs ≤ hlcWallMs ((hlcRun events).stamp i) ∧
      ∃ (k : Nat) (d : HlcEvent ν), events[k]? = some d ∧
        (k = i ∨ HappensBefore HlcEvent.node HlcEvent.sender events k i) ∧
        hlcWallMs ((hlcRun events).stamp i) = d.nowMs := by
  have supplied := run_wallsSupplied timely
  unfold HlcWorld.WallsSupplied at supplied
  rw [run_events] at supplied
  refine ⟨(supplied i e found).1, ?_⟩
  induction i using Nat.strong_induction_on generalizing e with
  | _ i ih =>
    rcases (supplied i e found).2 with here | ⟨k, edge, same⟩
    · exact ⟨i, e, found, .inl rfl, here⟩
    · rcases edge.2 with ⟨a, _, first, _⟩
      obtain ⟨j, d, source, before, wall⟩ := ih k edge.1 a first
      refine ⟨j, d, source, .inr ?_, same.symm.trans wall⟩
      rcases before with rfl | chain
      · exact Relation.TransGen.single edge
      · exact chain.tail edge

theorem wall_stays_near_now_exchange : ∃ k d,
    ([.tick true 5, .recv false 3 0, .tick false 4] : List (HlcEvent Bool))[k]? = some d ∧
      (k = 2 ∨ HappensBefore HlcEvent.node HlcEvent.sender [.tick true 5, .recv false 3 0, .tick false 4] k 2) ∧
      hlcWallMs ((hlcRun [.tick true 5, .recv false 3 0, .tick false 4]).stamp 2) = d.nowMs := by
  apply (wall_stays_near_now _ _ 2 (.tick false 4) rfl).2
  simp [HlcWorld.Timely, step, HlcWorld.init, HlcEvent.nowMs, HlcEvent.sender]

end LibOp.Clock

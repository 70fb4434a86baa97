import LibOp.Crdt.Lww

namespace LibOp.Crdt

open Clock Foundation List

variable {ι : Type*}

/-- The registers, the states sent so far, and the writes that each of them has merged. -/
structure LwwMesh (ι : Type*) where
  regs : ι → Lww
  seen : ι → List Write
  sent : List (Lww × List Write)

/-- A sent state may be delivered at any later time, to any replica, any number of times. -/
inductive LwwAction (ι : Type*) where
  | set (i : ι) (w : Write)
  | send (i : ι)
  | deliver (i : ι) (position : Nat)

def LwwAction.write? : LwwAction ι → Option Write
  | .set _ w => some w
  | .send _ => none
  | .deliver _ _ => none

def lwwWrites (actions : List (LwwAction ι)) : List Write := actions.filterMap LwwAction.write?

def LwwMesh.init : LwwMesh ι := ⟨fun _ => lwwZero, fun _ => [], []⟩

def LwwMesh.State (m : LwwMesh ι) (reg : Lww) (seen : List Write) : Prop :=
  (∃ i, reg = m.regs i ∧ seen = m.seen i) ∨ (reg, seen) ∈ m.sent

variable [DecidableEq ι]

def LwwMesh.step (m : LwwMesh ι) : LwwAction ι → LwwMesh ι
  | .set i w =>
    { m with
      regs := Function.update m.regs i (lwwSet (m.regs i) w.value w.hlc w.writer).1
      seen := Function.update m.seen i (m.seen i ++ [w]) }
  | .send i => { m with sent := m.sent ++ [(m.regs i, m.seen i)] }
  | .deliver i position =>
    match m.sent[position]? with
    | none => m
    | some (state, writes) =>
      { m with
        regs := Function.update m.regs i (lwwMerge (m.regs i) state).1
        seen := Function.update m.seen i (m.seen i ++ writes) }

def lwwRun (actions : List (LwwAction ι)) : LwwMesh ι := actions.foldl LwwMesh.step LwwMesh.init

structure LwwLegal (writes : List Write) : Prop where
  short : ∀ w ∈ writes, w.value.length ≤ lwwValueMax
  agree : ∀ a ∈ writes, ∀ b ∈ writes, a.hlc = b.hlc → a.writer = b.writer → a.value = b.value
  later : ∀ w ∈ writes, lwwRank lwwZero.content < lwwRank w

lemma lwwRank_inj (same : lwwRank a = lwwRank b) : a.hlc = b.hlc ∧ a.writer = b.writer := by
  have parts : (a.hlc.ts.toNat, a.writer.toList.map UInt8.toNat) = (b.hlc.ts.toNat, b.writer.toList.map UInt8.toNat) :=
    toLex.injective same
  rw [Prod.mk.injEq] at parts
  constructor
  · exact Hlc.ext (UInt64.toNat_inj.mp parts.1)
  · have bytes := map_injective_iff.mpr (fun x y h => UInt8.toNat_inj.mp h) parts.2
    exact Vector.toList_inj.mp bytes

variable {writes : List Write}

lemma LwwLegal.separated (legal : LwwLegal writes) : ∀ a ∈ writes, ∀ b ∈ writes, lwwRank a = lwwRank b → a = b := by
  intro a memberA b memberB same
  obtain ⟨hlc, writer⟩ := lwwRank_inj same
  have value := legal.agree a memberA b memberB hlc writer
  cases a
  cases b
  simp_all

def LwwMesh.Sound (writes : List Write) (m : LwwMesh ι) : Prop :=
  ∀ reg seen, m.State reg seen → HoldsLatest lwwRank lwwZero.content reg.content seen ∧ ∀ w ∈ seen, w ∈ writes

variable {m : LwwMesh ι}

lemma LwwMesh.Sound.update {writes seen : List Write} (sound : m.Sound writes) (i : ι) {reg : Lww}
    (holds : HoldsLatest lwwRank lwwZero.content reg.content seen) (within : ∀ w ∈ seen, w ∈ writes) :
    LwwMesh.Sound writes { m with regs := Function.update m.regs i reg, seen := Function.update m.seen i seen } := by
  intro other writesSeen state
  rcases state with ⟨j, rfl, rfl⟩ | earlier
  · by_cases here : j = i
    · subst here
      simpa using ⟨holds, within⟩
    · simpa [here] using sound _ _ (Or.inl ⟨j, rfl, rfl⟩)
  · exact sound _ _ (Or.inr earlier)

lemma LwwMesh.Sound.step (legal : LwwLegal writes) (sound : m.Sound writes) (action : LwwAction ι)
    (listed : ∀ w ∈ action.write?, w ∈ writes) : (m.step action).Sound writes := by
  cases action with
  | set i w =>
    have mem := listed w rfl
    obtain ⟨holds, within⟩ := sound _ _ (Or.inl ⟨i, rfl, rfl⟩)
    apply sound.update i
    · rw [lwwSet_content _ w (legal.short w mem)]
      exact holds.write lwwRank w
    · exact forall_mem_append.mpr ⟨within, forall_mem_singleton.mpr mem⟩
  | send i =>
    intro reg seen state
    rcases state with held | sent
    · exact sound _ _ (Or.inl held)
    · rcases mem_append.mp sent with old | new
      · exact sound _ _ (Or.inr old)
      · cases mem_singleton.mp new
        exact sound _ _ (Or.inl ⟨i, rfl, rfl⟩)
  | deliver i position =>
    cases found : m.sent[position]? with
    | none =>
      simp only [LwwMesh.step, found]
      exact sound
    | some message =>
      simp only [LwwMesh.step, found]
      obtain ⟨holds, within⟩ := sound _ _ (Or.inl ⟨i, rfl, rfl⟩)
      obtain ⟨remote, remoteWithin⟩ := sound message.1 message.2 (Or.inr (mem_of_getElem? found))
      apply sound.update i
      · rw [lwwMerge_content]
        exact holds.merge lwwRank remote
      · exact forall_mem_append.mpr ⟨within, remoteWithin⟩

lemma run_sound (actions : List (LwwAction ι)) (legal : LwwLegal (lwwWrites actions)) :
    (lwwRun actions).Sound (lwwWrites actions) := by
  apply foldlRecOn (motive := LwwMesh.Sound (lwwWrites actions))
  · intro reg seen state
    rcases state with ⟨i, rfl, rfl⟩ | sent
    · exact ⟨⟨.inl rfl, fun w mem => by cases mem⟩, fun w mem => by cases mem⟩
    · cases sent
  · intro m sound action mem
    apply sound.step legal
    intro w written
    exact mem_filterMap.mpr ⟨action, mem, written⟩

def LwwContent (writes : List Write) (w : Write) : Prop := w = lwwZero.content ∨ w ∈ writes

lemma LwwLegal.content_separated (legal : LwwLegal writes) (a b : Write) (first : LwwContent writes a)
    (second : LwwContent writes b) (same : lwwRank a = lwwRank b) : a = b := by
  rcases first with rfl | memberA
  · rcases second with rfl | memberB
    · rfl
    · exact absurd same (ne_of_lt (legal.later b memberB))
  · rcases second with rfl | memberB
    · exact absurd same.symm (ne_of_lt (legal.later a memberA))
    · exact legal.separated a memberA b memberB same

omit [DecidableEq ι] in
lemma LwwMesh.Sound.content (sound : m.Sound writes) {reg : Lww} {seen : List Write} (state : m.State reg seen) :
    LwwContent writes reg.content := by
  obtain ⟨holds, within⟩ := sound reg seen state
  exact holds.1.imp id (within reg.content)

omit [DecidableEq ι] in
lemma converged_content (legal : LwwLegal writes) (sound : m.Sound writes) (all : ∀ i, ∀ w ∈ writes, w ∈ m.seen i) :
    (writes = [] ∧ ∀ i, (m.regs i).content = lwwZero.content) ∨
      ∃ best ∈ writes, (∀ w ∈ writes, lwwRank w ≤ lwwRank best) ∧ ∀ i, (m.regs i).content = best := by
  rcases eq_nil_or_concat writes with none | some
  · left
    refine ⟨none, ?_⟩
    intro i
    rcases sound.content (Or.inl ⟨i, rfl, rfl⟩) with zero | mem
    · exact zero
    · rw [none] at mem
      cases mem
  · right
    have ne : writes.toFinset.Nonempty := by
      obtain ⟨before, last, rfl⟩ := some
      exact ⟨last, by simp⟩
    obtain ⟨best, mem, greatest⟩ := Finset.exists_max_image writes.toFinset lwwRank ne
    simp only [mem_toFinset] at mem greatest
    refine ⟨best, mem, greatest, ?_⟩
    intro i
    obtain ⟨holds, within⟩ := sound _ _ (Or.inl ⟨i, rfl, rfl⟩)
    exact holds.eq_greatest lwwRank within (all i) legal.separated legal.later mem greatest

theorem lww_registers_converge (actions : List (LwwAction ι)) (legal : LwwLegal (lwwWrites actions)) :
    ((∀ i, ∀ w ∈ lwwWrites actions, w ∈ (lwwRun actions).seen i) →
        (lwwWrites actions = [] ∧ ∀ i, ((lwwRun actions).regs i).content = lwwZero.content) ∨
          ∃ best ∈ lwwWrites actions, (∀ w ∈ lwwWrites actions, lwwRank w ≤ lwwRank best) ∧
            ∀ i, ((lwwRun actions).regs i).content = best) ∧
      ∀ a b c : Lww, (∃ seen, (lwwRun actions).State a seen) → (∃ seen, (lwwRun actions).State b seen) →
        (∃ seen, (lwwRun actions).State c seen) →
        (lwwMerge a b).1.content = (lwwMerge b a).1.content ∧
          (lwwMerge (lwwMerge a b).1 c).1.content = (lwwMerge a (lwwMerge b c).1).1.content ∧
          (lwwMerge a a).1.content = a.content := by
  have sound := run_sound actions legal
  constructor
  · intro all
    exact converged_content legal sound all
  · intro a b c stateA stateB stateC
    obtain ⟨_, stateA⟩ := stateA
    obtain ⟨_, stateB⟩ := stateB
    obtain ⟨_, stateC⟩ := stateC
    have separated := legal.content_separated
    simp only [lwwMerge_content]
    exact ⟨latest_comm lwwRank separated (sound.content stateA) (sound.content stateB),
      latest_assoc lwwRank separated (sound.content stateA) (sound.content stateB) (sound.content stateC),
      latest_self lwwRank a.content⟩

def crossingWrites : List (LwwAction Bool) :=
  [.set true ⟨[1], ⟨5⟩, Vector.replicate 8 1⟩, .send true, .set false ⟨[2, 3], ⟨5⟩, Vector.replicate 8 2⟩, .send false,
    .deliver true 1, .deliver false 0, .deliver false 0]

theorem lww_registers_converge_crossing :
    ∃ best ∈ lwwWrites crossingWrites, (∀ w ∈ lwwWrites crossingWrites, lwwRank w ≤ lwwRank best) ∧
      ∀ i, ((lwwRun crossingWrites).regs i).content = best := by
  have legal : LwwLegal (lwwWrites crossingWrites) := by
    refine ⟨by decide, by decide, ?_⟩
    intro w mem
    revert w
    decide
  rcases (lww_registers_converge crossingWrites legal).1 (by decide) with ⟨none, _⟩ | converged
  · cases none
  · exact converged

end LibOp.Crdt

import LibOp.Crdt.Redelivery
import LibOp.Crdt.MergeRoom

namespace LibOp.Crdt

open Foundation Function List

structure Tracked where
  set : Orset
  added : List Dot
  applied : List Cc

def Tracked.Observed (t : Tracked) (d : Dot) : Prop :=
  0 < d.counter ∧ (d ∈ t.added ∨ ∃ cc ∈ t.applied, ccContains cc d = true)

def Tracked.Remembers (t : Tracked) : Prop := ∀ d, t.Observed d → ccContains t.set.cc d = true

variable {ι π : Type*} [DecidableEq ι] [DecidableEq π]

/-- The sets, the `s_dot_counter` of each process and the deltas issued so far. -/
structure Fleet (ι π : Type*) where
  sets : ι → Tracked
  counters : π → Nat
  issued : List OrsetDelta

inductive FleetAction (ι : Type*) where
  | add (i : ι) (key : Key) (replica : Replica)
  | remove (i : ι) (key : Key)
  | apply (i : ι) (position : Nat)

def Fleet.init (caps : ι → Nat) : Fleet ι π := ⟨fun i => ⟨orsetInit (caps i), [], []⟩, fun _ => 0, []⟩

def Fleet.step (home : ι → π) (f : Fleet ι π) : FleetAction ι → Fleet ι π
  | .add i key replica =>
    let t := f.sets i
    let result := orsetAdd t.set (f.counters (home i)) key replica
    { sets := Function.update f.sets i
        { t with set := result.1, added := t.added ++ result.2.2.entry.dots }
      counters := Function.update f.counters (home i) result.2.1
      issued := f.issued ++ [result.2.2] }
  | .remove i key =>
    let t := f.sets i
    let result := orsetRemove t.set key
    { f with
      sets := Function.update f.sets i { t with set := result.1 }
      issued := f.issued ++ [result.2] }
  | .apply i position =>
    match f.issued[position]? with
    | none => f
    | some delta =>
      let t := f.sets i
      { f with
        sets := Function.update f.sets i
          { t with set := orsetApplyDelta t.set delta, applied := t.applied ++ [delta.cc] } }

def Fleet.Remembers (f : Fleet ι π) : Prop := ∀ i, (f.sets i).Remembers

def ContextKeeps (home : ι → π) (f : Fleet ι π) : FleetAction ι → Prop
  | .add i key replica => key.length ≤ orsetKeyMax → DotFits (f.sets i).set.cc ⟨replica, f.counters (home i) + 1⟩
  | .remove _ _ => True
  | .apply i position => ∀ delta ∈ f.issued[position]?, CcMergeKeeps (f.sets i).set.cc delta.cc

structure Orset.Tidy (set : Orset) : Prop extends Orset.WellFormed set where
  positive : ∀ key, ∀ d ∈ set.dots key, 0 < d.counter
  registered : set.cc.Registered

structure Fleet.Sound (f : Fleet ι π) : Prop where
  tidy : ∀ i, (f.sets i).set.Tidy
  shape : ∀ delta ∈ f.issued, Shape delta

lemma orsetInit_tidy (initialCap : Nat) : (orsetInit initialCap).Tidy where
  toWellFormed := orsetInit_wellFormed initialCap
  positive := (orsetInit_covered initialCap).positive
  registered := empty_registered

variable {set : Orset} {delta : OrsetDelta} {t : Tracked}

lemma orsetAdd_tidy (tidy : set.Tidy) (counter : Nat) (key : Key) (replica : Replica) :
    (orsetAdd set counter key replica).1.Tidy ∧ Shape (orsetAdd set counter key replica).2.2 := by
  by_cases short : key.length ≤ orsetKeyMax
  · obtain ⟨wf, cc, issued, _⟩ := orsetAdd_spec tidy.toWellFormed counter short replica
    refine ⟨⟨wf, ?_, ?_⟩, ?_⟩
    · intro other d mem
      rcases mem_orsetAdd_dots tidy.toWellFormed short mem with old | rfl
      · exact tidy.positive other d old
      · exact Nat.succ_pos counter
    · rw [cc]
      exact tidy.registered.add _
    · rw [issued]
      exact Shape.add key _ (Nat.succ_pos counter)
  · rw [orsetAdd_long set short]
    exact ⟨tidy, Shape.remove [] (Nat.zero_le _) (by simp)⟩

lemma orsetRemove_tidy (tidy : set.Tidy) (key : Key) :
    (orsetRemove set key).1.Tidy ∧ Shape (orsetRemove set key).2 := by
  obtain ⟨wf, cc, issued, _⟩ := orsetRemove_spec tidy.toWellFormed key
  refine ⟨⟨wf, ?_, ?_⟩, ?_⟩
  · intro other d mem
    exact tidy.positive other d (mem_orsetRemove_dots tidy.toWellFormed mem)
  · rw [cc]
    exact tidy.registered
  · rw [issued]
    exact Shape.remove _ (tidy.toWellFormed.dots_bounded key) (tidy.positive key)

lemma applyDelta_tidy (tidy : set.Tidy) (shape : Shape delta) : (orsetApplyDelta set delta).Tidy := by
  obtain ⟨wf, cc, origin⟩ := shape.apply_spec tidy.toWellFormed
  refine ⟨wf, ?_, ?_⟩
  · intro other d mem
    rcases origin other d mem with old | new
    · exact tidy.positive other d old
    · exact new.1
  · exact tidy.registered.merge delta.cc

lemma Shape.overflow_positive (shape : Shape delta) : ∀ d ∈ delta.cc.overflow, 0 < d.counter := by
  intro d mem
  cases shape with
  | add key dot positive =>
    have stored := removeDelta_overflow [dot] d mem
    rw [mem_singleton.mp stored]
    exact positive
  | remove dots few positive => exact positive d (removeDelta_overflow dots d mem)

omit [DecidableEq ι] [DecidableEq π] in
lemma Fleet.init_sound (caps : ι → Nat) : (Fleet.init caps : Fleet ι π).Sound where
  tidy i := orsetInit_tidy (caps i)
  shape delta mem := by cases mem

omit [DecidableEq ι] [DecidableEq π] in
lemma Fleet.init_remembers (caps : ι → Nat) : (Fleet.init caps : Fleet ι π).Remembers := by
  intro i d observed
  simp [Fleet.init, Tracked.Observed] at observed

lemma Fleet.step_sound (home : ι → π) (f : Fleet ι π) (a : FleetAction ι) (sound : f.Sound) :
    (f.step home a).Sound := by
  have placed (i : ι) (t : Tracked) (tidy : t.set.Tidy) : ∀ j, (update f.sets i t j).set.Tidy := by
    rw [forall_update_iff f.sets (fun _ t => t.set.Tidy)]
    exact ⟨tidy, fun j _ => sound.tidy j⟩
  have extended (delta : OrsetDelta) (shape : Shape delta) : ∀ d ∈ f.issued ++ [delta], Shape d := by
    exact forall_mem_append.mpr ⟨sound.shape, forall_mem_singleton.mpr shape⟩
  cases a with
  | add i key replica =>
    obtain ⟨tidy, shape⟩ := orsetAdd_tidy (sound.tidy i) (f.counters (home i)) key replica
    exact ⟨placed i _ tidy, extended _ shape⟩
  | remove i key =>
    obtain ⟨tidy, shape⟩ := orsetRemove_tidy (sound.tidy i) key
    exact ⟨placed i _ tidy, extended _ shape⟩
  | apply i position =>
    cases found : f.issued[position]? with
    | none =>
      simp only [Fleet.step, found]
      exact sound
    | some delta =>
      simp only [Fleet.step, found]
      have shape := sound.shape delta (mem_of_getElem? found)
      exact ⟨placed i _ (applyDelta_tidy (sound.tidy i) shape), sound.shape⟩

section

variable (remembers : t.Remembers)

include remembers

lemma Tracked.Remembers.learn {t' : Tracked} (New : Dot → Prop)
    (grows : ∀ d, 0 < d.counter → ccContains t.set.cc d = true → ccContains t'.set.cc d = true)
    (observed : ∀ d, t'.Observed d ↔ t.Observed d ∨ (0 < d.counter ∧ New d)) :
    t'.Remembers ↔ ∀ d, 0 < d.counter → New d → ccContains t'.set.cc d = true := by
  constructor
  · intro kept d positive new
    exact kept d ((observed d).mpr (Or.inr ⟨positive, new⟩))
  · intro kept d seen
    rcases (observed d).mp seen with old | ⟨positive, new⟩
    · exact grows d old.1 (remembers d old)
    · exact kept d positive new

lemma Tracked.Remembers.add (tidy : t.set.Tidy) (counter : Nat) (key : Key) (replica : Replica) :
    let result := orsetAdd t.set counter key replica
    ({ t with set := result.1, added := t.added ++ result.2.2.entry.dots } : Tracked).Remembers ↔
      (key.length ≤ orsetKeyMax → DotFits t.set.cc ⟨replica, counter + 1⟩) := by
  intro result
  by_cases short : key.length ≤ orsetKeyMax
  · obtain ⟨_, cc, issued, _⟩ := orsetAdd_spec tidy.toWellFormed counter short replica
    have dots : result.2.2.entry.dots = [⟨replica, counter + 1⟩] := by
      simp [result, issued, addDelta]
    rw [remembers.learn fun d => d = ⟨replica, counter + 1⟩]
    · simp only [result, cc, short, forall_const]
      have kept := ccAdd_contains t.set.cc ⟨replica, counter + 1⟩ ⟨replica, counter + 1⟩ (Nat.succ_pos counter)
      rw [DotFits, ← true_and (CcFits _ _), ← eq_self (⟨replica, counter + 1⟩ : Dot), ← kept]
      constructor
      · intro all
        exact all _ (Nat.succ_pos counter) rfl
      · intro here d _ same
        rw [same]
        exact here
    · intro d positive held
      simp only [result, cc]
      exact (ccAdd_contains _ _ _ positive).mpr (.inl held)
    · intro d
      simp only [Tracked.Observed, dots, mem_append, mem_singleton, ← and_or_left, or_right_comm]
  · have same : result = (t.set, counter, removeDelta []) := orsetAdd_long t.set short counter replica
    simp only [same, short, false_implies, iff_true]
    simpa [removeDelta, OrsetDelta.zero] using remembers

lemma Tracked.Remembers.remove (tidy : t.set.Tidy) (key : Key) :
    ({ t with set := (orsetRemove t.set key).1 } : Tracked).Remembers := by
  intro d observed
  rw [(orsetRemove_spec tidy.toWellFormed key).2.1]
  exact remembers d observed

lemma Tracked.Remembers.apply (tidy : t.set.Tidy) (shape : Shape delta) :
    ({ t with set := orsetApplyDelta t.set delta, applied := t.applied ++ [delta.cc] } : Tracked).Remembers ↔
      CcMergeKeeps t.set.cc delta.cc := by
  rw [← ccMerge_keeps_iff tidy.registered shape.keyed shape.overflow_positive]
  have cc := (shape.apply_spec tidy.toWellFormed).2.1
  apply remembers.learn fun d => ccContains delta.cc d = true
  · intro d positive held
    exact ccMerge_grows positive held
  · intro d
    simp only [Tracked.Observed, mem_append, mem_singleton, or_and_right, exists_or, exists_eq_left,
      ← and_or_left, or_assoc]

end

lemma Fleet.step_remembers (home : ι → π) (f : Fleet ι π) (a : FleetAction ι) (sound : f.Sound)
    (remembers : f.Remembers) : (f.step home a).Remembers ↔ ContextKeeps home f a := by
  have placed (i : ι) (t : Tracked) : (∀ j, (update f.sets i t j).Remembers) ↔ t.Remembers := by
    rw [forall_update_iff f.sets (fun _ t => t.Remembers)]
    exact ⟨And.left, fun here => ⟨here, fun j _ => remembers j⟩⟩
  cases a with
  | add i key replica =>
    apply (placed i _).trans
    exact (remembers i).add (sound.tidy i) (f.counters (home i)) key replica
  | remove i key =>
    apply (placed i _).trans
    exact iff_of_true ((remembers i).remove (sound.tidy i) key) trivial
  | apply i position =>
    cases found : f.issued[position]? with
    | none => simpa [Fleet.step, ContextKeeps, found] using remembers
    | some delta =>
      simp only [Fleet.step, ContextKeeps, found, Option.mem_some_iff, forall_eq']
      apply (placed i _).trans
      exact (remembers i).apply (sound.tidy i) (sound.shape delta (mem_of_getElem? found))

/-- No set forgets an observed dot as long as each add and each delta finds room in the 32 replica slots and 64 overflow
slots. -/
theorem dots_remembered_iff (home : ι → π) (caps : ι → Nat) (actions : List (FleetAction ι)) :
    (∀ before, before <+: actions → (before.foldl (Fleet.step home) (Fleet.init caps)).Remembers) ↔
      Permitted (ContextKeeps home) (Fleet.step home) (Fleet.init caps) actions :=
  throughout_iff_permitted (Fleet.step_sound home) (Fleet.step_remembers home) (Fleet.init_sound caps)
    (Fleet.init_remembers caps) actions

/-- The second set of the process takes counter 1, so no later dot of the first is contiguous: its 65th finds no
overflow slot. -/
theorem shared_counter_forgets :
    let actions : List (FleetAction Bool) :=
      .add true [98] replicaA :: replicate 65 (.add false [97] replicaA)
    let final : Fleet Bool Unit := actions.foldl (Fleet.step (fun _ => ())) (Fleet.init (fun _ => 16))
    (final.sets false).Observed ⟨replicaA, 66⟩ ∧ ccContains (final.sets false).set.cc ⟨replicaA, 66⟩ = false := by
  refine ⟨⟨by decide, Or.inl ?_⟩, ?_⟩
  · decide +kernel
  · decide +kernel

def orsetSize (set : Orset) : Nat := set.entries.length

/-- An element counts once, with one to four dots, whatever is added, removed and applied in any order. -/
theorem orset_size_counts_members (home : ι → π) (caps : ι → Nat) (actions : List (FleetAction ι)) (i : ι) :
    let set := ((actions.foldl (Fleet.step home) (Fleet.init caps)).sets i).set
    ∃ members : List Key, members.Nodup ∧ orsetSize set = members.length ∧ ∀ key, (set.dots key).length ≤ 4 ∧
      (key ∈ members ↔ orsetContains set key = true) ∧ (orsetContains set key = true ↔ set.dots key ≠ []) := by
  intro set
  have sound := actions.foldlRecOn _ (Fleet.init_sound caps) fun f sound a _ => Fleet.step_sound home f a sound
  have wf : set.WellFormed := (sound.tidy i).toWellFormed
  refine ⟨_, wf.distinct, (length_map _).symm, fun key => ⟨wf.dots_bounded key, ?_, orsetContains_iff set wf key⟩⟩
  simp [orsetContains, orsetFind]

end LibOp.Crdt

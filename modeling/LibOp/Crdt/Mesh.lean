import LibOp.Crdt.OrSetSteps

namespace LibOp.Crdt

open Foundation List Nat Function

variable {ι : Type*} [DecidableEq ι]

structure Node where
  set : Orset
  counter : Nat

/-- The replicas, the deltas with their issuers, and the deliveries as receiver and position of the delta. -/
structure Mesh (ι : Type*) where
  nodes : ι → Node
  issued : List (ι × OrsetDelta)
  delivered : List (ι × Nat)

/-- A tick is an add to another set of the process, which shares the counter. -/
inductive Action (ι : Type*) where
  | add (i : ι) (key : Key)
  | remove (i : ι) (key : Key)
  | deliver (i : ι) (position : Nat)
  | tick (i : ι)

def Mesh.set (m : Mesh ι) (i : ι) : Orset := (m.nodes i).set

def Mesh.init (caps : ι → Nat) : Mesh ι := ⟨fun i => ⟨orsetInit (caps i), 0⟩, [], []⟩

def Mesh.step (ids : ι → Replica) (m : Mesh ι) : Action ι → Mesh ι
  | .add i key =>
    let result := orsetAdd (m.set i) (m.nodes i).counter key (ids i)
    { m with
      nodes := update m.nodes i ⟨result.1, result.2.1⟩
      issued := m.issued ++ [(i, result.2.2)] }
  | .remove i key =>
    let result := orsetRemove (m.set i) key
    { m with
      nodes := update m.nodes i { m.nodes i with set := result.1 }
      issued := m.issued ++ [(i, result.2)] }
  | .deliver i position =>
    match m.issued[position]? with
    | none => m
    | some (_, delta) =>
      { m with
        nodes := update m.nodes i { m.nodes i with set := orsetApplyDelta (m.set i) delta }
        delivered := m.delivered ++ [(i, position)] }
  | .tick i =>
    { m with nodes := update m.nodes i { m.nodes i with counter := (m.nodes i).counter + 1 } }

/-- No context drops a dot in this step. Deliveries may repeat, and may go back to the issuer. -/
def ContextFits (ids : ι → Replica) (m : Mesh ι) : Action ι → Prop
  | .add i key => key.length ≤ orsetKeyMax → CcFits (m.set i).cc ⟨ids i, (m.nodes i).counter + 1⟩
  | .deliver i position => ∀ p ∈ m.issued[position]?, CcMergeFits (m.set i).cc p.2.cc
  | .remove _ _ | .tick _ => True

instance (ids : ι → Replica) (m : Mesh ι) (a : Action ι) : Decidable (ContextFits ids m a) :=
  match a with
  | .add i key => inferInstanceAs (Decidable (key.length ≤ orsetKeyMax → CcFits (m.set i).cc _))
  | .deliver i position =>
    inferInstanceAs (Decidable (∀ p ∈ m.issued[position]?, CcMergeFits (m.set i).cc p.2.cc))
  | .remove _ _ | .tick _ => inferInstanceAs (Decidable True)

inductive Shape : OrsetDelta → Prop
  | add (key : Key) (dot : Dot) (positive : 0 < dot.counter) : Shape (addDelta key dot)
  | remove (dots : List Dot) (few : dots.length ≤ orsetMaxDots)
      (positive : ∀ d ∈ dots, 0 < d.counter) : Shape (removeDelta dots)

variable {delta : OrsetDelta}

lemma Shape.keyed (shape : Shape delta) : delta.cc.Keyed := by
  cases shape with
  | add key dot _ => exact addDelta_keyed key dot
  | remove dots _ _ => exact removeDelta_keyed dots

structure Orset.Covered (set : Orset) : Prop extends Orset.WellFormed set where
  positive : ∀ key, ∀ d ∈ set.dots key, 0 < d.counter
  observed : ∀ key, ∀ d ∈ set.dots key, ccContains set.cc d = true

lemma orsetInit_dots (initialCap : Nat) (key : Key) : (orsetInit initialCap).dots key = [] := rfl

lemma orsetInit_covered (initialCap : Nat) : (orsetInit initialCap).Covered where
  toWellFormed := orsetInit_wellFormed initialCap
  positive key d mem := by rw [orsetInit_dots] at mem; cases mem
  observed key d mem := by rw [orsetInit_dots] at mem; cases mem

variable {dot d : Dot} {key : Key}

lemma mem_orsetPushDot {dots : List Dot} (mem : d ∈ orsetPushDot dots dot) : d ∈ dots ∨ d = dot := by
  unfold orsetPushDot at mem
  split at mem
  · simpa using mem
  · rcases mem_append.mp mem with old | new
    · exact .inl (mem_of_mem_drop old)
    · exact .inr (mem_singleton.mp new)

lemma orsetAdd_long (set : Orset) (long : ¬ key.length ≤ orsetKeyMax) (counter : Nat) (replica : Replica) :
    orsetAdd set counter key replica = (set, counter, removeDelta []) := by
  unfold orsetAdd
  rw [if_pos (by omega)]
  rfl

lemma orsetAdd_counter_le (set : Orset) (counter : Nat) (key : Key) (replica : Replica) :
    counter ≤ (orsetAdd set counter key replica).2.1 := by
  unfold orsetAdd
  split
  · exact Nat.le_refl counter
  · exact le_succ counter

variable {set : Orset} {other : Key}

lemma mem_orsetAdd_dots (wf : set.WellFormed) (short : key.length ≤ orsetKeyMax)
    (mem : d ∈ (orsetAdd set counter key replica).1.dots other) : d ∈ set.dots other ∨ d = ⟨replica, counter + 1⟩ := by
  rw [(orsetAdd_spec wf counter short replica).2.2.2] at mem
  split at mem
  next same =>
    rw [same]
    exact mem_orsetPushDot mem
  · exact .inl mem

lemma orsetAdd_covered (covered : set.Covered) (counter : Nat) (short : key.length ≤ orsetKeyMax)
    (replica : Replica) (fits : CcFits set.cc ⟨replica, counter + 1⟩) : (orsetAdd set counter key replica).1.Covered ∧
      ccContains (orsetAdd set counter key replica).1.cc ⟨replica, counter + 1⟩ = true := by
  obtain ⟨wf, cc, _, _⟩ := orsetAdd_spec covered.toWellFormed counter short replica
  refine ⟨⟨wf, ?_, ?_⟩, ?_⟩
  · intro other d mem
    rcases mem_orsetAdd_dots covered.toWellFormed short mem with old | rfl
    · exact covered.positive other d old
    · exact succ_pos counter
  · intro other d mem
    rw [cc]
    rcases mem_orsetAdd_dots covered.toWellFormed short mem with old | rfl
    · rw [ccAdd_contains _ _ _ (covered.positive other d old)]
      exact .inl (covered.observed other d old)
    · rw [ccAdd_contains _ _ _ (succ_pos counter)]
      exact .inr ⟨rfl, fits⟩
  · rw [cc, ccAdd_contains _ _ _ (succ_pos counter)]
    exact .inr ⟨rfl, fits⟩

lemma mem_orsetRemove_dots (wf : set.WellFormed) (mem : d ∈ (orsetRemove set key).1.dots other) :
    d ∈ set.dots other := by
  rw [(orsetRemove_spec wf key).2.2.2] at mem
  split at mem
  · cases mem
  · exact mem

lemma orsetRemove_covered (covered : set.Covered) (key : Key) : (orsetRemove set key).1.Covered := by
  obtain ⟨wf, cc, _, _⟩ := orsetRemove_spec covered.toWellFormed key
  refine ⟨wf, ?_, ?_⟩
  · intro other d mem
    exact covered.positive other d (mem_orsetRemove_dots covered.toWellFormed mem)
  · intro other d mem
    rw [cc]
    exact covered.observed other d (mem_orsetRemove_dots covered.toWellFormed mem)

lemma mem_orsetMergeDots {dots deltaDots : List Dot}
    (mem : d ∈ orsetMergeDots setCc deltaCc dots deltaDots) : d ∈ dots ∨ d ∈ deltaDots := by
  revert mem
  apply foldlRecOn (motive := fun merged : List Dot => d ∈ merged → d ∈ dots ∨ d ∈ deltaDots)
  · intro mem
    exact .inl (mem_filter.mp (mem_of_mem_take mem)).1
  · intro merged inner new added
    split
    · intro mem
      rcases mem_append.mp mem with old | last
      · exact inner old
      · exact .inr (mem_singleton.mp last ▸ added)
    · exact inner

lemma Shape.apply_spec (shape : Shape delta) (wf : set.WellFormed) : (orsetApplyDelta set delta).WellFormed ∧
      (orsetApplyDelta set delta).cc = ccMerge set.cc delta.cc ∧
      ∀ other, ∀ d ∈ (orsetApplyDelta set delta).dots other, d ∈ set.dots other ∨
        (0 < d.counter ∧ ccContains delta.cc d = true) := by
  cases shape with
  | add key dot positive =>
    obtain ⟨applied, cc, dots⟩ := applyDelta_add_spec wf key dot
    refine ⟨applied, cc, fun other d mem => ?_⟩
    rw [dots] at mem
    split at mem
    next same =>
      rw [same]
      rcases mem_orsetMergeDots mem with old | new
      · exact .inl old
      · obtain rfl := mem_singleton.mp new
        exact .inr ⟨positive, (addDelta_contains key d d positive).mpr rfl⟩
    · exact .inl mem
  | remove removed few positive =>
    obtain ⟨applied, cc, dots⟩ := applyDelta_remove_spec wf removed
    refine ⟨applied, cc, fun other d mem => ?_⟩
    rw [dots] at mem
    exact .inl (mem_filter.mp mem).1

lemma applyDelta_covered (covered : set.Covered) (shape : Shape delta) (fits : CcMergeFits set.cc delta.cc) :
    (orsetApplyDelta set delta).Covered := by
  obtain ⟨wf, cc, origin⟩ := shape.apply_spec covered.toWellFormed
  have merged (d : Dot) (positive : 0 < d.counter) :=
    ccMerge_contains set.cc delta.cc d positive shape.keyed fits
  refine ⟨wf, ?_, ?_⟩
  · intro other d mem
    rcases origin other d mem with old | new
    · exact covered.positive other d old
    · exact new.1
  · intro other d mem
    rw [cc]
    rcases origin other d mem with old | new
    · rw [merged d (covered.positive other d old)]
      exact .inl (covered.observed other d old)
    · rw [merged d new.1]
      exact .inr new.2

structure Mesh.Sound (m : Mesh ι) : Prop where
  covered : ∀ i, (m.set i).Covered
  shape : ∀ p ∈ m.issued, Shape p.2
  own : ∀ p ∈ m.issued, ∀ key dot, p.2 = addDelta key dot → ccContains (m.set p.1).cc dot = true

omit [DecidableEq ι] in
lemma Mesh.init_sound (caps : ι → Nat) : (Mesh.init caps).Sound where
  covered i := orsetInit_covered (caps i)
  shape p mem := by cases mem
  own p mem := by cases mem

lemma addDelta_injective (same : addDelta key dot = addDelta key' dot') : key = key' ∧ dot = dot' := by
  simpa [addDelta] using congrArg OrsetDelta.entry same

lemma addDelta_ne_removeDelta (key : Key) (dot : Dot) (dots : List Dot) : addDelta key dot ≠ removeDelta dots := by
  intro same
  have entries := congrArg OrsetDelta.hasEntry same
  simp [addDelta, removeDelta, OrsetDelta.zero] at entries

lemma Shape.dot_positive (shape : Shape (addDelta key dot)) : 0 < dot.counter := by
  generalize issued : addDelta key dot = delta at shape
  cases shape with
  | add key' dot' positive =>
    rw [(addDelta_injective issued).2]
    exact positive
  | remove dots => exact absurd issued (addDelta_ne_removeDelta _ _ _)

lemma update_set (nodes : ι → Node) (i j : ι) (node : Node) :
    (update nodes i node j).set = if j = i then node.set else (nodes j).set := by
  by_cases same : j = i
  · subst same
    simp
  · simp [same]

lemma update_counter_le (nodes : ι → Node) (i j : ι) {node : Node} (grows : (nodes i).counter ≤ node.counter) :
    (nodes j).counter ≤ (update nodes i node j).counter := by
  by_cases same : j = i
  · subst same
    rwa [update_self]
  · exact Nat.le_of_eq (congrArg Node.counter (update_of_ne same node nodes)).symm

section

variable (ids : ι → Replica) (m : Mesh ι)

include ids m

lemma Mesh.step_counter_le (a : Action ι) (j : ι) : (m.nodes j).counter ≤ ((m.step ids a).nodes j).counter := by
  cases a with
  | add i key => exact update_counter_le _ i j (orsetAdd_counter_le _ _ _ _)
  | remove i key => exact update_counter_le _ i j le_rfl
  | deliver i position =>
    simp only [Mesh.step]
    split
    · exact le_rfl
    · exact update_counter_le _ i j le_rfl
  | tick i => exact update_counter_le _ i j (le_succ _)

@[simp] lemma Mesh.step_add_set (i j : ι) (key : Key) : (m.step ids (.add i key)).set j =
      if j = i then (orsetAdd (m.set i) (m.nodes i).counter key (ids i)).1 else m.set j :=
  update_set _ _ _ _

@[simp] lemma Mesh.step_remove_set (i j : ι) (key : Key) : (m.step ids (.remove i key)).set j =
      if j = i then (orsetRemove (m.set i) key).1 else m.set j :=
  update_set _ _ _ _

@[simp] lemma Mesh.step_tick_set (i j : ι) : (m.step ids (.tick i)).set j = m.set j := by
  apply (update_set _ _ _ _).trans
  split
  next same =>
    rw [same]
    rfl
  · rfl

lemma Mesh.step_deliver (i origin : ι) (position : Nat) (delta : OrsetDelta)
    (found : m.issued[position]? = some (origin, delta)) :
    (∀ j, (m.step ids (.deliver i position)).set j = if j = i then orsetApplyDelta (m.set i) delta else m.set j) ∧
    (m.step ids (.deliver i position)).issued = m.issued ∧
    (m.step ids (.deliver i position)).delivered = m.delivered ++ [(i, position)] := by
  simp only [Mesh.step, found]
  exact ⟨fun j => update_set _ _ _ _, trivial, trivial⟩

end

lemma Mesh.Sound.extend {m m' : Mesh ι} (sound : m.Sound) (i : ι) (set' : Orset) (covered : set'.Covered)
    (grows : ∀ d, 0 < d.counter → ccContains (m.set i).cc d = true → ccContains set'.cc d = true)
    (sets : ∀ j, m'.set j = if j = i then set' else m.set j) (new : List OrsetDelta)
    (issued : m'.issued = m.issued ++ new.map (fun delta => (i, delta))) (shape : ∀ delta ∈ new, Shape delta)
    (own : ∀ delta ∈ new, ∀ key dot, delta = addDelta key dot → ccContains set'.cc dot = true) : m'.Sound := by
  refine ⟨fun j => ?_, fun p mem => ?_, fun p mem key dot form => ?_⟩
  · rw [sets]
    split
    · exact covered
    · exact sound.covered j
  · rw [issued, mem_append, mem_map] at mem
    rcases mem with old | ⟨delta, fresh, rfl⟩
    · exact sound.shape p old
    · exact shape delta fresh
  · rw [issued, mem_append, mem_map] at mem
    rw [sets]
    rcases mem with old | ⟨delta, fresh, rfl⟩
    · have known := sound.own p old key dot form
      split
      next here =>
        rw [here] at known
        exact grows dot (form ▸ sound.shape p old).dot_positive known
      · exact known
    · rw [if_pos rfl]
      exact own delta fresh key dot form

variable {ids : ι → Replica} {m : Mesh ι}

lemma Mesh.Sound.step_add (sound : m.Sound) (i : ι) (key : Key)
    (fits : key.length ≤ orsetKeyMax → CcFits (m.set i).cc ⟨ids i, (m.nodes i).counter + 1⟩) :
    (m.step ids (.add i key)).Sound := by
  by_cases short : key.length ≤ orsetKeyMax
  · obtain ⟨covered, self⟩ := orsetAdd_covered (sound.covered i) (m.nodes i).counter short (ids i) (fits short)
    obtain ⟨_, cc, delta, _⟩ := orsetAdd_spec (sound.covered i).toWellFormed (m.nodes i).counter short (ids i)
    refine sound.extend i _ covered ?_ (m.step_add_set ids i · key)
      [addDelta key ⟨ids i, (m.nodes i).counter + 1⟩] (by simp [Mesh.step, delta]) ?_ ?_
    · intro d positive known
      rw [cc, ccAdd_contains _ _ _ positive]
      exact .inl known
    · simpa using Shape.add key _ (succ_pos _)
    · intro issued mem key' dot form
      rw [mem_singleton.mp mem] at form
      rw [← (addDelta_injective form).2]
      exact self
  · have unchanged := orsetAdd_long (m.set i) short (m.nodes i).counter (ids i)
    refine sound.extend i _ (sound.covered i) (fun _ _ known => known) ?_ [removeDelta []]
      (by simp [Mesh.step, unchanged]) ?_ ?_
    · intro j
      rw [m.step_add_set ids i j key, unchanged]
    · simpa using Shape.remove [] (by simp) (by simp)
    · intro issued mem key' dot form
      exact absurd (form.symm.trans (mem_singleton.mp mem)) (addDelta_ne_removeDelta _ _ _)

lemma Mesh.Sound.step_remove (sound : m.Sound) (i : ι) (key : Key) : (m.step ids (.remove i key)).Sound := by
  obtain ⟨_, cc, delta, _⟩ := orsetRemove_spec (sound.covered i).toWellFormed key
  refine sound.extend i _ (orsetRemove_covered (sound.covered i) key) ?_
    (m.step_remove_set ids i · key) [removeDelta ((m.set i).dots key)] (by simp [Mesh.step, delta]) ?_ ?_
  · intro d positive known
    rw [cc]
    exact known
  · simpa using Shape.remove _ ((sound.covered i).dots_bounded key) ((sound.covered i).positive key)
  · intro issued mem key' dot form
    exact absurd (form.symm.trans (mem_singleton.mp mem)) (addDelta_ne_removeDelta _ _ _)

lemma Mesh.Sound.step_deliver (sound : m.Sound) (i : ι) (position : Nat)
    (fits : ∀ p ∈ m.issued[position]?, CcMergeFits (m.set i).cc p.2.cc) : (m.step ids (.deliver i position)).Sound := by
  cases found : m.issued[position]? with
  | none =>
    simp only [Mesh.step, found]
    exact sound
  | some p =>
    obtain ⟨origin, delta⟩ := p
    obtain ⟨sets, issued, _⟩ := m.step_deliver ids i origin position delta found
    have shape := sound.shape _ (mem_of_getElem? found)
    have room := fits (origin, delta) (by simp [found])
    have merged : (orsetApplyDelta (m.set i) delta).cc = ccMerge (m.set i).cc delta.cc := rfl
    refine sound.extend i _ (applyDelta_covered (sound.covered i) shape room) ?_ sets []
      (by simpa using issued) (by simp) (by simp)
    intro d positive known
    rw [merged, ccMerge_contains _ _ _ positive shape.keyed room]
    exact .inl known

lemma Mesh.Sound.step_tick (sound : m.Sound) (i : ι) : (m.step ids (.tick i)).Sound := by
  refine ⟨fun j => ?_, sound.shape, fun p mem => ?_⟩
  · rw [m.step_tick_set]
    exact sound.covered j
  · rw [m.step_tick_set]
    exact sound.own p mem

lemma Mesh.step_sound (ids : ι → Replica) (m : Mesh ι) (a : Action ι) (sound : m.Sound)
    (fits : ContextFits ids m a) : (m.step ids a).Sound := by
  cases a with
  | add i key => exact sound.step_add i key fits
  | remove i key => exact sound.step_remove i key
  | deliver i position => exact sound.step_deliver i position fits
  | tick i => exact sound.step_tick i

lemma Mesh.run_sound (ids : ι → Replica) (caps : ι → Nat) (actions : List (Action ι))
    (run : Permitted (ContextFits ids) (Mesh.step ids) (Mesh.init caps) actions) :
    (actions.foldl (Mesh.step ids) (Mesh.init caps)).Sound :=
  run.preserves (Mesh.step_sound ids) (Mesh.init_sound caps)

end LibOp.Crdt

import LibOp.Crdt.Redelivery

namespace LibOp.Crdt

def Added (known : Set OrsetDelta) (key : Key) (d : Dot) : Prop :=
  ∃ delta ∈ known, delta.hasEntry = true ∧ delta.entry.key = key ∧ d ∈ delta.entry.dots

def Removed (known : Set OrsetDelta) (d : Dot) : Prop :=
  ∃ delta ∈ known, delta.hasEntry = false ∧ ccContains delta.cc d = true

def Observed (known : Set OrsetDelta) (d : Dot) : Prop := (∃ key, Added known key d) ∨ Removed known d

/-- The added dots that no known remove delta covers, and all known dots in the context. -/
structure Reflects (set : Orset) (known : Set OrsetDelta) : Prop extends Orset.WellFormed set where
  shaped : ∀ delta ∈ known, Shape delta
  live : ∀ key d, d ∈ set.dots key ↔ Added known key d ∧ ¬ Removed known d
  context : ∀ d, 0 < d.counter → (ccContains set.cc d = true ↔ Observed known d)

section

variable (known : Set OrsetDelta)

lemma added_insert_add (key other : Key) (dot d : Dot) :
    Added (insert (addDelta key dot) known) other d ↔ Added known other d ∨ (other = key ∧ d = dot) := by
  have here : ((addDelta key dot).hasEntry = true ∧ (addDelta key dot).entry.key = other ∧
      d ∈ (addDelta key dot).entry.dots) ↔ other = key ∧ d = dot := by
    rw [show (addDelta key dot).entry = ⟨key, [dot]⟩ from rfl, List.mem_singleton]
    exact ⟨fun h => ⟨h.2.1.symm, h.2.2⟩, fun h => ⟨rfl, h.1.symm, h.2⟩⟩
  unfold Added
  simp only [Set.mem_insert_iff, exists_eq_or_imp]
  rw [or_comm, here]

lemma removed_insert_add (key : Key) (dot d : Dot) : Removed (insert (addDelta key dot) known) d ↔ Removed known d := by
  unfold Removed
  simp [addDelta]

lemma added_insert_remove (dots : List Dot) (key : Key) (d : Dot) :
    Added (insert (removeDelta dots) known) key d ↔ Added known key d := by
  unfold Added
  simp [removeDelta, OrsetDelta.zero]

lemma removed_insert_remove (dots : List Dot) (few : dots.length ≤ orsetMaxDots) (d : Dot) (pos : 0 < d.counter) :
    Removed (insert (removeDelta dots) known) d ↔ Removed known d ∨ d ∈ dots := by
  have covers := removeDelta_contains dots few d pos
  unfold Removed
  simp only [Set.mem_insert_iff, exists_eq_or_imp, covers]
  rw [or_comm]
  simp [removeDelta, OrsetDelta.zero]

end

variable {set : Orset} {known : Set OrsetDelta} {key : Key}

lemma Reflects.added_positive (r : Reflects set known) (added : Added known key d) : 0 < d.counter := by
  obtain ⟨delta, mem, entry, _, stored⟩ := added
  have shape := r.shaped delta mem
  cases shape with
  | add key' dot pos =>
    have same : d = dot := by simpa [addDelta] using stored
    rw [same]
    exact pos
  | remove dots => cases entry

lemma Reflects.covered (r : Reflects set known) : set.Covered where
  toWellFormed := r.toWellFormed
  positive key d mem := r.added_positive ((r.live key d).mp mem).1
  observed key d mem := by
    have added := ((r.live key d).mp mem).1
    exact (r.context d (r.added_positive added)).mpr (.inl ⟨key, added⟩)

lemma reflects_init (initialCap : Nat) : Reflects (orsetInit initialCap) ∅ where
  toWellFormed := orsetInit_wellFormed initialCap
  shaped delta mem := by cases mem
  live key d := by simp [orsetInit_dots, Added]
  context d _ := by simp [orsetInit, empty_contains, Observed, Added, Removed]

lemma observed_insert_add (known : Set OrsetDelta) (key : Key) (dot d : Dot) :
    Observed (insert (addDelta key dot) known) d ↔ Observed known d ∨ d = dot := by
  unfold Observed
  simp only [added_insert_add, removed_insert_add, exists_or, exists_eq_left]
  tauto

variable {dot : Dot}

variable (r : Reflects set known)

include r

lemma Reflects.shaped_insert (shape : Shape delta) : ∀ other ∈ insert delta known, Shape other := by
  rintro other (rfl | mem)
  · exact shape
  · exact r.shaped other mem

lemma Reflects.live_append (notRemoved : ¬ Removed known dot) (other : Key) (d : Dot) :
    d ∈ (if other = key then set.dots key ++ [dot] else set.dots other) ↔
      Added (insert (addDelta key dot) known) other d ∧ ¬ Removed (insert (addDelta key dot) known) d := by
  rw [added_insert_add, removed_insert_add]
  by_cases same : other = key
  · subst same
    rw [if_pos rfl, List.mem_append, List.mem_singleton, r.live]
    constructor
    · rintro (⟨added, live⟩ | rfl)
      · exact ⟨.inl added, live⟩
      · exact ⟨.inr ⟨rfl, rfl⟩, notRemoved⟩
    · rintro ⟨added | ⟨_, rfl⟩, live⟩
      · exact .inl ⟨added, live⟩
      · exact .inr rfl
  · rw [if_neg same, r.live]
    simp [same]

lemma Reflects.live_overtaken (observed : ccContains set.cc dot = true) (removed : Removed known dot) (other : Key)
    (d : Dot) : d ∈ (orsetApplyDelta set (addDelta key dot)).dots other ↔
      Added (insert (addDelta key dot) known) other d ∧ ¬ Removed (insert (addDelta key dot) known) d := by
  have kept : d ∈ (orsetApplyDelta set (addDelta key dot)).dots other ↔ d ∈ set.dots other := by
    rw [applyDelta_add_observed r.covered observed]
    split
    next same =>
      rw [same, List.mem_filter]
      have apart : d ∈ set.dots key → d ≠ dot := by
        rintro mem rfl
        exact ((r.live key d).mp mem).2 removed
      simpa using apart
    · exact Iff.rfl
  rw [kept, r.live, added_insert_add, removed_insert_add]
  constructor
  · rintro ⟨added, notRemoved⟩
    exact ⟨.inl added, notRemoved⟩
  · rintro ⟨added | ⟨_, rfl⟩, notRemoved⟩
    · exact ⟨added, notRemoved⟩
    · exact absurd removed notRemoved

lemma Reflects.learn_add (pos : 0 < dot.counter) (fresh : ∀ other, ¬ Added known other dot)
    (room : ccContains set.cc dot = true ∨ (set.dots key).length < orsetMaxDots)
    (fits : CcMergeFits set.cc (addDelta key dot).cc) :
    Reflects (orsetApplyDelta set (addDelta key dot)) (insert (addDelta key dot) known) := by
  have shape := Shape.add key dot pos
  have context := r.context dot pos
  obtain ⟨wf, cc, _⟩ := applyDelta_add_spec r.toWellFormed key dot
  refine ⟨wf, r.shaped_insert shape, ?_, ?_⟩
  · intro other d
    cases observed : ccContains set.cc dot with
    | true =>
      -- The context has the dot although the add is new, so a remove delta has brought it in.
      rcases context.mp observed with ⟨key', added⟩ | removed
      · exact absurd added (fresh key')
      · exact r.live_overtaken observed removed other d
    | false =>
      rw [observed] at context room
      have space := room.resolve_left (by decide)
      rw [applyDelta_add_unobserved r.covered observed, if_pos space]
      refine r.live_append (fun removed => ?_) other d
      cases context.mpr (.inr removed)
  · intro d dPositive
    rw [cc, ccMerge_contains _ _ _ dPositive shape.keyed fits, addDelta_contains _ _ _ dPositive,
      r.context d dPositive, observed_insert_add]

lemma Reflects.learn_remove {dots : List Dot} (few : dots.length ≤ orsetMaxDots)
    (pos : ∀ d ∈ dots, 0 < d.counter) (fits : CcMergeFits set.cc (removeDelta dots).cc) :
    Reflects (orsetApplyDelta set (removeDelta dots)) (insert (removeDelta dots) known) := by
  have shape := Shape.remove dots few pos
  obtain ⟨wf, cc, dotsOf⟩ := applyDelta_remove_spec r.toWellFormed dots
  refine ⟨wf, r.shaped_insert shape, ?_, ?_⟩
  · intro key d
    rw [dotsOf, List.mem_filter, r.live, added_insert_remove]
    constructor
    · rintro ⟨⟨added, live⟩, kept⟩
      refine ⟨added, fun removed => ?_⟩
      rcases (removed_insert_remove known dots few d (r.added_positive added)).mp removed with old | new
      · exact live old
      · have covered := (removeDelta_contains dots few d (r.added_positive added)).mpr new
        rw [covered] at kept
        cases kept
    · rintro ⟨added, live⟩
      rw [removed_insert_remove known dots few d (r.added_positive added)] at live
      have kept : ¬ ccContains (removeDelta dots).cc d = true := fun covered =>
        live (.inr ((removeDelta_contains dots few d (r.added_positive added)).mp covered))
      exact ⟨⟨added, fun removed => live (.inl removed)⟩, by simpa using kept⟩
  · intro d dPositive
    rw [cc, ccMerge_contains _ _ _ dPositive shape.keyed fits, r.context d dPositive]
    unfold Observed
    simp only [added_insert_remove, removed_insert_remove known dots few d dPositive,
      removeDelta_contains dots few d dPositive, or_assoc]

lemma Reflects.local_add (short : key.length ≤ orsetKeyMax) (counter : Nat) (replica : Replica)
    (fresh : ¬ Observed known ⟨replica, counter + 1⟩) (room : (set.dots key).length < orsetMaxDots)
    (fits : CcFits set.cc ⟨replica, counter + 1⟩) : Reflects (orsetAdd set counter key replica).1
      (insert (addDelta key ⟨replica, counter + 1⟩) known) := by
  obtain ⟨wf, cc, _, dots⟩ := orsetAdd_spec r.toWellFormed counter short replica
  refine ⟨wf, r.shaped_insert (Shape.add key _ (Nat.succ_pos counter)), ?_, ?_⟩
  · intro other d
    rw [dots, orsetPushDot, if_pos room]
    exact r.live_append (fun removed => fresh (.inr removed)) other d
  · intro d pos
    rw [cc, ccAdd_contains _ _ _ pos, r.context d pos, observed_insert_add]
    simp [fits]

lemma Reflects.local_remove (key : Key) (unique : ∀ k k' d, Added known k d → Added known k' d → k = k') :
    Reflects (orsetRemove set key).1 (insert (removeDelta (set.dots key)) known) := by
  obtain ⟨wf, cc, _, dots⟩ := orsetRemove_spec r.toWellFormed key
  have few := r.toWellFormed.dots_bounded key
  refine ⟨wf, r.shaped_insert (Shape.remove _ few (r.covered.positive key)), ?_, ?_⟩
  · intro other d
    rw [dots, added_insert_remove]
    by_cases same : other = key
    · subst same
      rw [if_pos rfl]
      constructor
      · intro mem
        cases mem
      · rintro ⟨added, live⟩
        rw [removed_insert_remove known _ few d (r.added_positive added)] at live
        exact absurd ((r.live other d).mpr ⟨added, fun removed => live (.inl removed)⟩) (fun mem => live (.inr mem))
    · rw [if_neg same, r.live]
      constructor
      · rintro ⟨added, live⟩
        refine ⟨added, ?_⟩
        rw [removed_insert_remove known _ few d (r.added_positive added)]
        rintro (removed | mem)
        · exact live removed
        · exact same (unique other key d added ((r.live key d).mp mem).1)
      · rintro ⟨added, live⟩
        rw [removed_insert_remove known _ few d (r.added_positive added)] at live
        exact ⟨added, fun removed => live (.inl removed)⟩
  · intro d pos
    rw [cc, r.context d pos]
    unfold Observed
    simp only [added_insert_remove, removed_insert_remove known _ few d pos]
    constructor
    · rintro (added | removed)
      · exact .inl added
      · exact .inr (.inl removed)
    · rintro (added | removed | mem)
      · exact .inl added
      · exact .inr removed
      · exact .inl ⟨key, ((r.live key d).mp mem).1⟩

lemma Reflects.contains (key : Key) : orsetContains set key = true ↔ ∃ d, Added known key d ∧ ¬ Removed known d := by
  rw [orsetContains_iff set r.toWellFormed, ← List.length_pos_iff, List.length_pos_iff_exists_mem]
  simp [r.live]

end LibOp.Crdt

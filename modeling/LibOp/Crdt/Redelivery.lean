import LibOp.Crdt.Mesh

namespace LibOp.Crdt

open Foundation Mesh

variable {ι : Type*} [DecidableEq ι]

def SameMembers (a b : Orset) : Prop := ∀ key, orsetContains a key = orsetContains b key

lemma sameMembers_iff (wa : a.WellFormed) (wb : b.WellFormed) :
    SameMembers a b ↔ ∀ key, a.dots key = [] ↔ b.dots key = [] := by
  have point (key : Key) : orsetContains a key = orsetContains b key ↔
      (a.dots key = [] ↔ b.dots key = []) := by
    rw [Bool.eq_iff_iff, orsetContains_iff a wa, orsetContains_iff b wb, not_iff_not]
  exact forall_congr' point

def FirstSight (set : Orset) (delta : OrsetDelta) : Prop :=
  delta.hasEntry = true ∧ orsetContains set delta.entry.key = false ∧
    ∀ dot ∈ delta.entry.dots, ccContains set.cc dot = false

def SoleSupport (set : Orset) (delta : OrsetDelta) : Prop :=
  set.dots delta.entry.key ≠ [] ∧ ∀ d ∈ set.dots delta.entry.key, d ∈ delta.entry.dots

variable {set : Orset} {key : Key} {dot : Dot}

lemma applyDelta_add_observed (covered : set.Covered) (known : ccContains set.cc dot = true) (other : Key) :
    (orsetApplyDelta set (addDelta key dot)).dots other =
      if other = key then (set.dots key).filter (· ≠ dot) else set.dots other := by
  rw [(applyDelta_add_spec covered.toWellFormed key dot).2.2 other,
    orsetMergeDots_single _ _ _ _ (covered.dots_bounded key) (covered.positive key)]
  simp [known]

lemma applyDelta_add_new (wf : set.WellFormed) (positive : ∀ d ∈ set.dots key, 0 < d.counter)
    (absent : dot ∉ set.dots key) (unknown : ccContains set.cc dot = false) (other : Key) :
    (orsetApplyDelta set (addDelta key dot)).dots other = if other = key then
        if (set.dots key).length < orsetMaxDots then set.dots key ++ [dot] else set.dots key else set.dots other := by
  have apart : (set.dots key).filter (· ≠ dot) = set.dots key := by
    rw [List.filter_eq_self]
    intro d mem
    have ne : d ≠ dot := fun same => absent (same ▸ mem)
    simpa using ne
  rw [(applyDelta_add_spec wf key dot).2.2 other, orsetMergeDots_single _ _ _ _ (wf.dots_bounded key) positive, apart]
  simp [unknown]

lemma applyDelta_add_unobserved (covered : set.Covered) (unknown : ccContains set.cc dot = false) (other : Key) :
    (orsetApplyDelta set (addDelta key dot)).dots other = if other = key then
        if (set.dots key).length < orsetMaxDots then set.dots key ++ [dot] else set.dots key else set.dots other := by
  refine applyDelta_add_new covered.toWellFormed (covered.positive key) ?_ unknown other
  intro mem
  have observed := covered.observed key dot mem
  rw [unknown] at observed
  cases observed

lemma sameMembers_add_observed (covered : set.Covered) (positive : 0 < dot.counter)
    (fits : CcMergeFits set.cc (addDelta key dot).cc) (known : ccContains set.cc dot = true) :
    SameMembers (orsetApplyDelta set (addDelta key dot)) set ↔ ¬ SoleSupport set (addDelta key dot) := by
  have after := applyDelta_covered covered (Shape.add key dot positive) fits
  rw [sameMembers_iff after.toWellFormed covered.toWellFormed]
  have sole : SoleSupport set (addDelta key dot) ↔
      set.dots key ≠ [] ∧ ∀ d ∈ set.dots key, d = dot := by
    simp [SoleSupport, addDelta]
  have emptied : (set.dots key).filter (· ≠ dot) = [] ↔ ∀ d ∈ set.dots key, d = dot := by simp [List.filter_eq_nil_iff]
  rw [sole]
  constructor
  · rintro same ⟨some_, only⟩
    have here := same key
    rw [applyDelta_add_observed covered known, if_pos rfl, emptied] at here
    exact some_ (here.mp only)
  · intro several other
    rw [applyDelta_add_observed covered known]
    split
    next here =>
      rw [here, emptied]
      constructor
      · intro only
        by_contra some_
        exact several ⟨some_, only⟩
      · intro none d mem
        rw [none] at mem
        cases mem
    · exact Iff.rfl

lemma firstSight_addDelta (wf : set.WellFormed) (key : Key) (dot : Dot) :
    FirstSight set (addDelta key dot) ↔ set.dots key = [] ∧ ccContains set.cc dot = false := by
  have absent : orsetContains set key = false ↔ set.dots key = [] := by
    rw [← Bool.not_eq_true, orsetContains_iff set wf, not_not]
  simp [FirstSight, addDelta, absent]

lemma applyDelta_add_contains (wf : set.WellFormed) (positive : 0 < dot.counter)
    (fits : CcMergeFits set.cc (addDelta key dot).cc) :
    ccContains (orsetApplyDelta set (addDelta key dot)).cc dot = true := by
  rw [(applyDelta_add_spec wf key dot).2.1, ccMerge_contains _ _ _ positive (Shape.add key dot positive).keyed fits]
  exact .inr ((addDelta_contains key dot dot positive).mpr rfl)

section

variable (covered : set.Covered) (positive : 0 < dot.counter) (fits : CcMergeFits set.cc (addDelta key dot).cc)

include covered positive fits

lemma applyDelta_add_twice (other : Key) :
    (orsetApplyDelta (orsetApplyDelta set (addDelta key dot)) (addDelta key dot)).dots other =
      if other = key then (set.dots key).filter (· ≠ dot) else set.dots other := by
  have first := applyDelta_covered covered (Shape.add key dot positive) fits
  rw [applyDelta_add_observed first (applyDelta_add_contains covered.toWellFormed positive fits)]
  split
  · cases observed : ccContains set.cc dot with
    | true =>
      rw [applyDelta_add_observed covered observed, if_pos rfl, List.filter_filter]
      simp
    | false =>
      rw [applyDelta_add_unobserved covered observed, if_pos rfl]
      split <;> simp
  · cases observed : ccContains set.cc dot with
    | true => rw [applyDelta_add_observed covered observed, if_neg ‹_›]
    | false => rw [applyDelta_add_unobserved covered observed, if_neg ‹_›]

lemma redelivered_add : SameMembers (orsetApplyDelta (orsetApplyDelta set (addDelta key dot)) (addDelta key dot))
        (orsetApplyDelta set (addDelta key dot)) ↔ ¬ FirstSight set (addDelta key dot) := by
  have first := applyDelta_covered covered (Shape.add key dot positive) fits
  have wf := (applyDelta_add_spec first.toWellFormed key dot).1
  have second := applyDelta_add_twice covered positive fits
  rw [sameMembers_iff wf first.toWellFormed, firstSight_addDelta covered.toWellFormed]
  cases observed : ccContains set.cc dot with
  | true =>
    simp only [Bool.true_eq_false, and_false, not_false_eq_true, iff_true]
    intro other
    rw [second, applyDelta_add_observed covered observed]
  | false =>
    constructor
    · rintro same ⟨absent, -⟩
      have here := same key
      rw [second, applyDelta_add_unobserved covered observed] at here
      simp [absent, orsetMaxDots] at here
    · intro present other
      have some_ : set.dots key ≠ [] := fun absent => present ⟨absent, rfl⟩
      have apart : (set.dots key).filter (· ≠ dot) ≠ [] := by
        intro emptied
        rw [List.filter_eq_nil_iff] at emptied
        obtain ⟨d, mem⟩ := List.exists_mem_of_ne_nil _ some_
        have same : d = dot := by simpa using emptied d mem
        have contradiction_ := covered.observed key d mem
        rw [same, observed] at contradiction_
        cases contradiction_
      rw [second, applyDelta_add_unobserved covered observed]
      split
      · split
        · exact iff_of_false apart (by simp)
        · exact iff_of_false apart some_
      · exact Iff.rfl

end

lemma redelivered_remove (covered : set.Covered) {dots : List Dot} (few : dots.length ≤ orsetMaxDots)
    (positive : ∀ d ∈ dots, 0 < d.counter) (fits : CcMergeFits set.cc (removeDelta dots).cc) :
    SameMembers (orsetApplyDelta (orsetApplyDelta set (removeDelta dots)) (removeDelta dots))
      (orsetApplyDelta set (removeDelta dots)) := by
  have first := applyDelta_covered covered (Shape.remove dots few positive) fits
  obtain ⟨wf, _, second⟩ := applyDelta_remove_spec first.toWellFormed dots
  rw [sameMembers_iff wf first.toWellFormed]
  intro key
  rw [second, (applyDelta_remove_spec covered.toWellFormed dots).2.2, List.filter_filter]
  simp

/-- A second delivery keeps the members exactly when the first did not bring in an absent key by an unobserved dot, and
one to its issuer exactly when the key does not rest on that dot alone. -/
theorem redelivery_members_iff (ids : ι → Replica) (caps : ι → Nat) (actions : List (Action ι))
    (run : Permitted (ContextFits ids) (step ids) (init caps) actions) (i origin : ι) (delta : OrsetDelta)
    (issued : (origin, delta) ∈ (actions.foldl (step ids) (init caps)).issued)
    (fits : CcMergeFits ((actions.foldl (step ids) (init caps)).set i).cc delta.cc) :
    let set := (actions.foldl (step ids) (init caps)).set i
    (SameMembers (orsetApplyDelta (orsetApplyDelta set delta) delta) (orsetApplyDelta set delta) ↔
      ¬ FirstSight set delta) ∧
    (origin = i → delta.hasEntry = true →
      (SameMembers (orsetApplyDelta set delta) set ↔ ¬ SoleSupport set delta)) := by
  have sound := Mesh.run_sound ids caps actions run
  have own := sound.own _ issued
  have shape := sound.shape _ issued
  cases shape with
  | add key dot positive =>
    refine ⟨redelivered_add (sound.covered i) positive fits, ?_⟩
    rintro rfl -
    exact sameMembers_add_observed (sound.covered origin) positive fits (own key dot rfl)
  | remove dots few positive =>
    refine ⟨iff_of_true (redelivered_remove (sound.covered i) few positive fits) ?_, ?_⟩
    · rintro ⟨entry, -⟩
      cases entry
    · rintro - entry
      cases entry

def replicaA : Replica := #v[1, 0, 0, 0, 0, 0, 0, 0]
def replicaB : Replica := #v[2, 0, 0, 0, 0, 0, 0, 0]

def pairIds (i : Fin 2) : Replica := if i = 0 then replicaA else replicaB

theorem redelivery_members_iff_pair :
    let set := ([Action.add 0 [120], .add 1 [120]].foldl (step pairIds) (init fun _ => 0)).set 1
    (SameMembers (orsetApplyDelta (orsetApplyDelta set (addDelta [120] ⟨replicaA, 1⟩))
        (addDelta [120] ⟨replicaA, 1⟩)) (orsetApplyDelta set (addDelta [120] ⟨replicaA, 1⟩)) ↔
      ¬ FirstSight set (addDelta [120] ⟨replicaA, 1⟩)) ∧
    ((0 : Fin 2) = 1 → (addDelta [120] ⟨replicaA, 1⟩).hasEntry = true →
      (SameMembers (orsetApplyDelta set (addDelta [120] ⟨replicaA, 1⟩)) set ↔
        ¬ SoleSupport set (addDelta [120] ⟨replicaA, 1⟩))) :=
  redelivery_members_iff pairIds (fun _ => 0) [.add 0 [120], .add 1 [120]] (by decide) 1 0
    (addDelta [120] ⟨replicaA, 1⟩) (by decide) (by decide)

/-- Delivered twice to replica 1, or back to replica 0, the delta removes the key it added. -/
theorem redelivery_drops_member :
    let m := [Action.add 0 [120]].foldl (step pairIds) (init fun _ => 0)
    let delta := addDelta [120] ⟨replicaA, 1⟩
    Permitted (ContextFits pairIds) (step pairIds) (init fun _ => 0) [Action.add 0 [120]] ∧
      (0, delta) ∈ m.issued ∧ CcMergeFits (m.set 1).cc delta.cc ∧ CcMergeFits (m.set 0).cc delta.cc ∧
      ¬ SameMembers (orsetApplyDelta (orsetApplyDelta (m.set 1) delta) delta)
        (orsetApplyDelta (m.set 1) delta) ∧
      ¬ SameMembers (orsetApplyDelta (m.set 0) delta) (m.set 0) := by
  refine ⟨by decide, by decide, by decide, by decide, fun same => ?_, fun same => ?_⟩
  · exact absurd (same [120]) (by decide)
  · exact absurd (same [120]) (by decide)

end LibOp.Crdt

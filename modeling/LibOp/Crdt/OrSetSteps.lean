import LibOp.Crdt.OrSet

namespace LibOp.Crdt

open Foundation List

def prune (deltaCc : Cc) (e : OrsetEntry) : Option OrsetEntry :=
  let surviving := e.dots.filter (fun d => !ccContains deltaCc d)
  if surviving.length = 0 then none else some { e with dots := surviving }

lemma prune_some (h : prune deltaCc e = some pruned) :
    pruned.key = e.key ∧ pruned.dots = e.dots.filter (fun d => !ccContains deltaCc d) ∧ pruned.dots ≠ [] := by
  simp only [prune] at h
  split at h
  · cases h
  next some_ =>
    cases h
    exact ⟨rfl, rfl, fun empty => some_ (List.length_eq_zero_iff.mpr empty)⟩

lemma orsetSweep_perm (deltaCc : Cc) (rounds i : Nat) (entries : List OrsetEntry)
    (enough : entries.length ≤ i + rounds) :
    (orsetSweep deltaCc rounds i entries).Perm (entries.take i ++ (entries.drop i).filterMap (prune deltaCc)) := by
  induction rounds generalizing i entries with
  | zero =>
    rw [drop_of_length_le (by omega), take_of_length_le (by omega)]
    simp [orsetSweep]
  | succ rounds ih =>
    unfold orsetSweep
    cases stored : entries[i]? with
    | none =>
      have past := List.getElem?_eq_none_iff.mp stored
      rw [drop_of_length_le past, take_of_length_le past]
      simp
    | some e =>
      obtain ⟨bound, here⟩ := List.getElem?_eq_some_iff.mp stored
      have next : entries.drop i = e :: entries.drop (i + 1) := by rw [← here, getElem_cons_drop]
      rw [next, filterMap_cons]
      simp only [prune]
      split
      · obtain ⟨rest, shape, p⟩ := swapRemove_split entries i bound
        have length := length_swapRemove entries i bound
        apply (ih i (swapRemove entries i) (by omega)).trans
        have front : (entries.take i ++ rest).take i = entries.take i := by
          rw [take_append_of_le_length (by simp; omega), take_take, Nat.min_self]
        have back : (entries.take i ++ rest).drop i = rest := by
          rw [drop_append_of_le_length (by simp; omega), drop_take]
          simp
        rw [shape, front, back]
        exact (p.filterMap _).append_left _
      · have length : (entries.set i { e with
            dots := e.dots.filter (fun d => !ccContains deltaCc d) }).length = entries.length := by simp
        apply (ih (i + 1) _ (by omega)).trans
        rw [drop_set_of_lt (by omega), take_succ_eq_append_getElem (by omega),
          take_set_of_le (Nat.le_refl i), getElem_set_self]
        simp

variable {set : Orset}

lemma orsetSweep_spec (wf : set.WellFormed) (deltaCc : Cc) :
    let swept : Orset := { set with entries := orsetSweep deltaCc set.entries.length 0 set.entries }
    swept.WellFormed ∧ ∀ key, swept.dots key = (set.dots key).filter (fun d => !ccContains deltaCc d) := by
  have p := orsetSweep_perm deltaCc set.entries.length 0 set.entries (by omega)
  have keeps : ∀ e pruned, prune deltaCc e = some pruned → pruned.key = e.key :=
    fun _ _ h => (prune_some h).1
  have distinct := wf.distinct.sublist (map_key_filterMap OrsetEntry.key set.entries _ keeps)
  have origin : ∀ e ∈ orsetSweep deltaCc set.entries.length 0 set.entries,
      ∃ old ∈ set.entries, prune deltaCc old = some e := by
    intro e mem
    exact List.mem_filterMap.mp (p.mem_iff.mp mem)
  refine ⟨⟨(p.map _).nodup_iff.mpr distinct, ?_, ?_, wf.keyed⟩, ?_⟩
  · intro e mem
    obtain ⟨_, _, kept⟩ := origin e mem
    exact (prune_some kept).2.2
  · intro e mem
    obtain ⟨old, stored, kept⟩ := origin e mem
    rw [(prune_some kept).2.1]
    exact Nat.le_trans (length_filter_le _ _) (wf.bounded old stored)
  · intro key
    unfold Orset.dots
    rw [lookup_congr OrsetEntry.key distinct p.symm, lookup_filterMap OrsetEntry.key _ wf.distinct _ keeps]
    cases lookup OrsetEntry.key set.entries key with
    | none => rfl
    | some e =>
      simp only [Option.bind_some, prune, Option.map_some, Option.getD_some]
      split
      next empty => exact (List.length_eq_zero_iff.mp empty).symm
      · rfl

def addDelta (key : Key) (dot : Dot) : OrsetDelta := ⟨⟨key, [dot]⟩, true, ccAdd Cc.empty dot⟩

def removeDelta (dots : List Dot) : OrsetDelta :=
  { OrsetDelta.zero with cc := dots.foldl ccAdd Cc.empty }

variable (dots : List Dot)

lemma orsetPushDot_length (few : dots.length ≤ orsetMaxDots) (dot : Dot) :
    (orsetPushDot dots dot).length ≤ orsetMaxDots := by
  unfold orsetPushDot
  split
  next room =>
    rw [length_append, length_singleton]
    exact room
  · have filled : 0 < orsetMaxDots := by decide
    simp only [length_append, length_drop, length_singleton]
    omega

lemma orsetPushDot_ne_nil (dot : Dot) : orsetPushDot dots dot ≠ [] := by
  unfold orsetPushDot
  split <;> simp

lemma orsetAdd_spec (wf : set.WellFormed) (counter : Nat) {key : Key} (short : key.length ≤ orsetKeyMax)
    (replica : Replica) : let dot : Dot := ⟨replica, counter + 1⟩
    let result := orsetAdd set counter key replica
    result.1.WellFormed ∧ result.1.cc = ccAdd set.cc dot ∧ result.2 = (counter + 1, addDelta key dot) ∧
      ∀ other, result.1.dots other = if other = key then orsetPushDot (set.dots key) dot else set.dots other := by
  have recc {placed : Orset} (wf : placed.WellFormed) (dot : Dot) :
      ({ placed with cc := ccAdd placed.cc dot } : Orset).WellFormed :=
    ⟨wf.distinct, wf.inhabited, wf.bounded, (ccAdd_replicas _ _).nodup wf.keyed⟩
  have long : ¬ key.length > orsetKeyMax := by omega
  simp only [orsetAdd, long, ↓reduceIte]
  cases found : orsetFind set key with
  | some idx =>
    simp only [orsetFind_some found]
    refine ⟨recc (orsetSetDots_wellFormed wf idx (orsetPushDot_ne_nil _ _)
      (orsetPushDot_length _ (wf.dots_bounded key) _)) _, rfl, rfl, fun other => ?_⟩
    exact orsetSetDots_dots found _ other
  | none =>
    refine ⟨recc (orsetAppend_wellFormed wf found (by simp) (by simp [orsetMaxDots])) _, ?_, rfl, fun other => ?_⟩
    · simp
    · rw [orsetFind_none found]
      exact orsetAppend_dots found _ other

lemma orsetRemove_spec (wf : set.WellFormed) (key : Key) :
    (orsetRemove set key).1.WellFormed ∧ (orsetRemove set key).1.cc = set.cc ∧
      (orsetRemove set key).2 = removeDelta (set.dots key) ∧
      ∀ other, (orsetRemove set key).1.dots other = if other = key then [] else set.dots other := by
  unfold orsetRemove
  cases found : orsetFind set key with
  | none =>
    have empty := orsetFind_none found
    refine ⟨wf, rfl, by rw [empty]; rfl, fun other => ?_⟩
    by_cases same : other = key
    · simp [same, empty]
    · simp [same]
  | some idx =>
    refine ⟨orsetDrop_wellFormed wf found, rfl, ?_, orsetDrop_dots wf found⟩
    simp only [orsetFind_some found]
    rfl

lemma orsetMergeDots_length (setCc deltaCc : Cc) (dots deltaDots : List Dot) :
    (orsetMergeDots setCc deltaCc dots deltaDots).length ≤ orsetMaxDots := by
  apply List.foldlRecOn (motive := fun merged : List Dot => merged.length ≤ orsetMaxDots)
  · exact (length_take_le _ _)
  · intro merged bound d _
    split
    next room =>
      simp only [Bool.and_eq_true, decide_eq_true_eq] at room
      simp only [length_append, length_singleton]
      omega
    · exact bound

lemma applyDelta_remove_spec (wf : set.WellFormed) (dots : List Dot) :
    let result := orsetApplyDelta set (removeDelta dots)
    result.WellFormed ∧ result.cc = ccMerge set.cc (removeDelta dots).cc ∧ ∀ key, result.dots key =
        (set.dots key).filter (fun d => !ccContains (removeDelta dots).cc d) := by
  obtain ⟨swept, dotsOf⟩ := orsetSweep_spec wf (removeDelta dots).cc
  refine ⟨⟨swept.distinct, swept.inhabited, swept.bounded, ccMerge_keyed _ _ wf.keyed⟩, rfl, ?_⟩
  exact dotsOf

section

variable (wf : set.WellFormed) (key : Key) (dot : Dot)

include wf key dot

lemma applyDelta_add_wellFormed : (orsetApplyDelta set (addDelta key dot)).WellFormed := by
  have recc {merged : Orset} (inner : merged.WellFormed) :
      ({ merged with cc := ccMerge set.cc (addDelta key dot).cc } : Orset).WellFormed :=
    ⟨inner.distinct, inner.inhabited, inner.bounded, ccMerge_keyed _ _ wf.keyed⟩
  have few := orsetMergeDots_length set.cc (addDelta key dot).cc (set.dots key) [dot]
  apply recc
  simp only [show (addDelta key dot).hasEntry = true from rfl, ↓reduceIte,
    show (addDelta key dot).entry = ⟨key, [dot]⟩ from rfl]
  cases found : orsetFind set key with
  | some idx =>
    simp only [orsetFind_some found]
    split
    next some_ =>
      rw [take_of_length_le few]
      exact orsetSetDots_wellFormed wf idx (List.length_pos_iff.mp some_) few
    · exact orsetDrop_wellFormed wf found
  | none =>
    simp only
    split
    next some_ =>
      apply orsetAppend_wellFormed wf found (List.length_pos_iff.mp some_)
      exact length_take_le _ _
    · exact wf

lemma applyDelta_add_dots (other : Key) : (orsetApplyDelta set (addDelta key dot)).dots other = if other = key
      then orsetMergeDots set.cc (addDelta key dot).cc (set.dots key) [dot] else set.dots other := by
  have few := orsetMergeDots_length set.cc (addDelta key dot).cc (set.dots key) [dot]
  simp only [orsetApplyDelta, show (addDelta key dot).hasEntry = true from rfl, ↓reduceIte,
    show (addDelta key dot).entry = ⟨key, [dot]⟩ from rfl]
  cases found : orsetFind set key with
  | some idx =>
    simp only [orsetFind_some found]
    split
    · rw [take_of_length_le few]
      exact orsetSetDots_dots found _ other
    next none_ =>
      have empty : orsetMergeDots set.cc (addDelta key dot).cc (set.dots key) [dot] = [] :=
        List.length_eq_zero_iff.mp (by omega)
      rw [empty]
      exact orsetDrop_dots wf found other
  | none =>
    have absent := orsetFind_none found
    have live : orsetMergeDots set.cc (addDelta key dot).cc (set.dots key) [dot] =
        ([dot].filter (fun d => !ccContains set.cc d)).take orsetMaxDots := by
      rw [absent]
      cases known : ccContains set.cc dot <;> simp [orsetMergeDots, orsetMaxDots, known]
    rw [live]
    simp only
    split
    · exact orsetAppend_dots found _ other
    next none_ =>
      have empty := List.length_eq_zero_iff.mp (Nat.eq_zero_of_not_pos none_)
      rw [empty]
      split
      next same =>
        rw [same]
        exact absent
      · rfl

lemma applyDelta_add_spec :
    let result := orsetApplyDelta set (addDelta key dot)
    result.WellFormed ∧ result.cc = ccMerge set.cc (addDelta key dot).cc ∧
      ∀ other, result.dots other = if other = key
        then orsetMergeDots set.cc (addDelta key dot).cc (set.dots key) [dot] else set.dots other :=
  ⟨applyDelta_add_wellFormed wf key dot, rfl, applyDelta_add_dots wf key dot⟩

end

lemma ccCompact_subperm (replica : Replica) (rounds m : Nat) (overflow : List Dot) :
    (ccCompact replica rounds m overflow).2.Subperm overflow := by
  induction rounds generalizing m overflow with
  | zero => exact List.Subperm.refl overflow
  | succ rounds ih =>
    unfold ccCompact
    cases found : overflow.findIdx? (fun d => decide (d.replica = replica ∧ d.counter = m + 1)) with
    | none => exact List.Subperm.refl overflow
    | some i =>
      obtain ⟨bound, _⟩ := List.findIdx?_eq_some_iff_getElem.mp found
      have rest := ih (m + 1) (swapRemove overflow i)
      exact rest.trans ((sublist_cons_self _ _).subperm.trans (swapRemove_perm overflow i bound).symm.subperm)

lemma ccAdd_overflow (cc : Cc) (dot : Dot) : (ccAdd cc dot).overflow.Subperm (cc.overflow ++ [dot]) := by
  have old : cc.overflow.Subperm (cc.overflow ++ [dot]) := (sublist_append_left _ _).subperm
  unfold ccAdd
  cases registered : ccRegister cc dot.replica with
  | none => exact old
  | some pair =>
    obtain ⟨ridx, cc'⟩ := pair
    have overflow := (ccRegister_spec _ _ _ _ registered).2.1
    have compacted := ccCompact_subperm dot.replica cc'.overflow.length dot.counter cc'.overflow
    rw [← overflow] at old ⊢
    simp only [ccAddAt]
    split
    · exact compacted.trans old
    · split
      · split
        · exact List.Subperm.refl _
        · exact old
      · exact old

lemma ccAdd_sizes (cc : Cc) (dot : Dot) : (ccAdd cc dot).entries.length ≤ cc.entries.length + 1 ∧
      (ccAdd cc dot).overflow.length ≤ cc.overflow.length + 1 := by
  constructor
  · have lengths : (ccAdd cc dot).replicas.length ≤ cc.replicas.length + 1 := by
      rcases ccAdd_replicas cc dot with same | ⟨_, one⟩
      · rw [same]; omega
      · rw [one]; simp
    simpa [Cc.replicas] using lengths
  · simpa using (ccAdd_overflow cc dot).length_le

lemma ccAdd_permitted (cc : Cc) (dots : List Dot) (entries : cc.entries.length + dots.length ≤ ccMaxReplicas)
    (overflow : cc.overflow.length + dots.length ≤ ccMaxOverflow) : Permitted CcFits ccAdd cc dots := by
  induction dots generalizing cc with
  | nil => exact trivial
  | cons d rest ih =>
    have sizes := ccAdd_sizes cc d
    simp only [length_cons] at entries overflow
    exact ⟨⟨.inr (by omega), .inr (by omega)⟩, ih _ (by omega) (by omega)⟩

lemma empty_contains (dot : Dot) : ccContains Cc.empty dot = false := rfl

lemma removeDelta_contains (few : dots.length ≤ orsetMaxDots) (dot : Dot)
    (pos : 0 < dot.counter) : ccContains (removeDelta dots).cc dot = true ↔ dot ∈ dots := by
  have run := ccAdd_permitted Cc.empty dots (Nat.le_trans (by simpa [Cc.empty] using few) (by decide))
    (Nat.le_trans (by simpa [Cc.empty] using few) (by decide))
  have all := run.accumulates (P := fun cc => ccContains cc dot = true) (Q := fun d => dot = d)
    (fun cc d fits => by rw [ccAdd_contains _ _ _ pos]; simp [fits])
  simpa [empty_contains, removeDelta] using all

lemma addDelta_contains (key : Key) (dot other : Dot) (pos : 0 < other.counter) :
    ccContains (addDelta key dot).cc other = true ↔ other = dot := by
  have single := removeDelta_contains [dot] (by simp [orsetMaxDots]) other pos
  rw [mem_singleton] at single
  exact single

lemma removeDelta_keyed : (removeDelta dots).cc.Keyed := by
  apply List.foldlRecOn (motive := Cc.Keyed) dots ccAdd
  · simp [Cc.Keyed, Cc.replicas, Cc.empty]
  · intro cc inner d _
    exact (ccAdd_replicas cc d).nodup inner

lemma removeDelta_overflow : ∀ d ∈ (removeDelta dots).cc.overflow, d ∈ dots := by
  apply List.foldlRecOn (motive := fun cc : Cc => ∀ d ∈ cc.overflow, d ∈ dots) dots ccAdd
  · intro d mem
    cases mem
  · intro cc inner dot added d mem
    rcases List.mem_append.mp ((ccAdd_overflow cc dot).subset mem) with old | new
    · exact inner d old
    · rw [List.mem_singleton.mp new]
      exact added

lemma addDelta_keyed (key : Key) (dot : Dot) : (addDelta key dot).cc.Keyed := removeDelta_keyed [dot]

lemma orsetMergeDots_single (setCc : Cc) (key : Key) (dot : Dot) (dots : List Dot)
    (few : dots.length ≤ orsetMaxDots) (pos : ∀ d ∈ dots, 0 < d.counter) :
    orsetMergeDots setCc (addDelta key dot).cc dots [dot] =
      if (dots.filter (· ≠ dot)).length < orsetMaxDots ∧ ccContains setCc dot = false
      then dots.filter (· ≠ dot) ++ [dot] else dots.filter (· ≠ dot) := by
  have kept : dots.filter (fun d => !ccContains (addDelta key dot).cc d) = dots.filter (· ≠ dot) := by
    apply filter_congr
    intro d mem
    have covered := addDelta_contains key dot d (pos d mem)
    by_cases same : d = dot
    · simpa [same] using covered.mpr same
    · simpa [same] using fun h => same (covered.mp h)
  have short : (dots.filter (· ≠ dot)).length ≤ orsetMaxDots :=
    Nat.le_trans (length_filter_le _ _) few
  have absent : (dots.filter (· ≠ dot)).any (fun m => dotEq m dot) = false := by
    simp only [any_eq_false, dotEq_iff, mem_filter, decide_eq_true_eq]
    exact fun d mem => mem.2
  unfold orsetMergeDots
  rw [kept, take_of_length_le short, foldl_cons, foldl_nil, absent]
  cases ccContains setCc dot <;> simp

end LibOp.Crdt

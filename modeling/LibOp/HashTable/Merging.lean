import LibOp.Foundation.KeyedList
import LibOp.HashTable.Filtering

namespace LibOp.HashTable

open List hiding lookup

open Foundation

variable {K V : Type}

/-- The arguments of one call of `conflict_cb`. -/
structure Conflict (K V : Type) where
  dstKey : K
  dstVal : V
  srcKey : K
  srcVal : V
deriving DecidableEq

section

variable [Inhabited K] [Inhabited V]

/-- A round of `op_htab_merge`; `conflictCb` tells of a callback. -/
def mergeSlot (conflictCb : Bool) (state : Htab K V × List (Conflict K V)) (s : HtabSlot K V) :
    Option (Htab K V × List (Conflict K V)) :=
  if s.hash = 0 then some state
  else do
    let (updated, rc, oldVal) ← htabSet state.1 s.key s.val
    if rc = 0 ∧ conflictCb = true then do
      let (restored, _, _) ← htabSet updated s.key oldVal
      some (restored, state.2 ++ [⟨s.key, oldVal, s.key, s.val⟩])
    else some (updated, state.2)

/-- Returns `dst` and the calls of `conflict_cb`; `src` is only read. -/
def htabMerge (conflictCb : Bool) (dst src : Htab K V) : Option (Htab K V × List (Conflict K V)) :=
  (List.range (src.mask + 1)).foldlM (fun state i => mergeSlot conflictCb state (src.slots i)) (dst, [])

end

def heldEntry (ht : Htab K V) (key : K) : Option (K × V) := do
  let s ← (← htabLookup ht key (fixHash (ht.hashFn key)))
  some (s.key, s.val)

variable {hashFn : K → UInt64} {eqFn : K → K → Bool} {laws : KeyLaws hashFn eqFn}

lemma Represents.held (rep : Represents laws ht m) (key : K) : heldEntry ht key = m.lookup (keyClass laws key) := by
  have slot := rep.slot key
  unfold heldEntry
  cases found : htabLookup ht key (fixHash (ht.hashFn key)) with
  | none =>
    rw [found] at slot
    cases slot
  | some result =>
    rw [found, Option.map_some, Option.some.injEq] at slot
    rw [← slot]
    cases result <;> rfl

def liveSlots (ht : Htab K V) : List (HtabSlot K V) :=
  ((List.range (ht.mask + 1)).map ht.slots).filter (fun s => decide (s.hash ≠ 0))

lemma stored_eq_liveSlots (ht : Htab K V) : stored ht.mask ht.slots = liveSlots ht := by
  have upTo (n : Nat) : bag cell (Finset.range n) ht.slots =
      (((List.range n).map ht.slots).filter (fun s => decide (s.hash ≠ 0)) : List (HtabSlot K V)) := by
    induction n with
    | zero => rfl
    | succ n ih =>
      have next : bag cell (Finset.range (n + 1)) ht.slots = bag cell (Finset.range n) ht.slots + cell (ht.slots n) :=
        Finset.sum_range_succ _ n
      rw [next, ih, List.range_succ, map_append, filter_append, ← Multiset.coe_add]
      congr 1
      by_cases empty : (ht.slots n).hash = 0
      · simp [cell_of_empty empty, empty]
      · simp [cell_of_live empty, empty]
  exact upTo (ht.mask + 1)

section

variable [Inhabited K] [Inhabited V]

def slotClass (laws : KeyLaws hashFn eqFn) (s : HtabSlot K V) : KeyClass laws := keyClass laws s.key

def mergedAt (conflictCb : Bool) : Option (K × V) → Option (K × V) → Option (K × V)
  | some p, some q => some (p.1, if conflictCb then p.2 else q.2)
  | some p, none => some p
  | none, q => q

noncomputable def conflictOf (m : KeyMap laws V) (s : HtabSlot K V) : Option (Conflict K V) :=
  (m.lookup (slotClass laws s)).map (fun p => ⟨s.key, p.2, s.key, s.val⟩)

noncomputable def conflictsOf (conflictCb : Bool) (m : KeyMap laws V) (slots : List (HtabSlot K V)) :
    List (Conflict K V) := if conflictCb then slots.filterMap (conflictOf m) else []

omit [Inhabited K] [Inhabited V] in
lemma merged_of_changed_at {m m' : KeyMap laws V} {conflictCb : Bool} {s : HtabSlot K V}
    (here : m'.lookup (slotClass laws s) = mergedAt conflictCb (m.lookup (slotClass laws s)) (some (s.key, s.val)))
    (elsewhere : ∀ c, c ≠ slotClass laws s → m'.lookup c = m.lookup c) (c : KeyClass laws) :
    m'.lookup c = if c = slotClass laws s then mergedAt conflictCb (m.lookup c) (some (s.key, s.val))
      else m.lookup c := by
  split
  next same =>
    rw [same]
    exact here
  next other => exact elsewhere c other

variable {m : KeyMap laws V} {dst : Htab K V}

lemma mergeSlot_spec (rep : Represents laws dst m) (few : m.keys.card < 2 ^ 61) (conflictCb : Bool)
    (calls : List (Conflict K V)) {s : HtabSlot K V} (live : s.hash ≠ 0) :
    ∃ dst' m', mergeSlot conflictCb (dst, calls) s = some (dst', calls ++ conflictsOf conflictCb m [s]) ∧
      Represents laws dst' m' ∧ m'.keys.card ≤ m.keys.card + 1 ∧
      ∀ c, m'.lookup c = if c = slotClass laws s then mergedAt conflictCb (m.lookup c) (some (s.key, s.val))
        else m.lookup c := by
  cases present : m.lookup (slotClass laws s) with
  | none =>
    rw [rep.card] at few
    obtain ⟨dst', inserted, rep'⟩ := rep.set_new few s.val present
    refine ⟨dst', _, ?_, rep', keys_card_insert laws m _ _, ?_⟩
    · simp [mergeSlot, live, inserted, conflictsOf, conflictOf, present]
    · apply merged_of_changed_at _ fun c other => Finmap.lookup_insert_of_ne m other
      rw [present]
      exact Finmap.lookup_insert m
  | some pair =>
    obtain ⟨kept, old⟩ := pair
    obtain ⟨updated, written, rep'⟩ := rep.set_found s.val present
    cases conflictCb with
    | false =>
      refine ⟨updated, _, ?_, rep', keys_card_insert laws m _ _, ?_⟩
      · simp [mergeSlot, live, written, conflictsOf]
      · apply merged_of_changed_at _ fun c other => Finmap.lookup_insert_of_ne m other
        rw [present]
        exact Finmap.lookup_insert m
    | true =>
      obtain ⟨restored, rewritten, rep''⟩ := rep'.set_found old (Finmap.lookup_insert m)
      have back : (m.insert (keyClass laws s.key) (kept, s.val)).insert (keyClass laws s.key) (kept, old) = m := by
        rw [Finmap.insert_insert]
        apply Finmap.ext_lookup
        intro c
        by_cases same : c = keyClass laws s.key
        · rw [same, Finmap.lookup_insert]
          exact present.symm
        · rw [Finmap.lookup_insert_of_ne m same]
      rw [back] at rep''
      refine ⟨restored, m, ?_, rep'', Nat.le_succ _, ?_⟩
      · simp [mergeSlot, live, written, rewritten, conflictsOf, conflictOf, present]
      · apply merged_of_changed_at _ fun c _ => rfl
        rw [present]
        rfl

noncomputable def slotAt (laws : KeyLaws hashFn eqFn) (slots : List (HtabSlot K V)) (c : KeyClass laws) :
    Option (K × V) :=
  (lookup (slotClass laws) slots c).map pairOf

omit [Inhabited K] [Inhabited V] in
lemma slotAt_cons (s : HtabSlot K V) (slots : List (HtabSlot K V)) (c : KeyClass laws) :
    slotAt laws (s :: slots) c = if c = slotClass laws s then some (s.key, s.val) else slotAt laws slots c := by
  unfold slotAt lookup
  by_cases same : c = slotClass laws s
  · simp [same, pairOf]
  · have apart : ¬ slotClass laws s = c := fun h => same h.symm
    simp [same, apart]

omit [Inhabited K] [Inhabited V] in
lemma slotAt_absent (absent : c ∉ slots.map (slotClass laws)) : slotAt laws slots c = none := by
  rw [slotAt, (lookup_eq_none (slotClass laws) slots c).mpr absent]
  rfl

lemma mergeSlots_spec (conflictCb : Bool) (slots : List (HtabSlot K V)) (live : ∀ s ∈ slots, s.hash ≠ 0)
    (distinct : (slots.map (slotClass laws)).Nodup) (rep : Represents laws dst m)
    (few : m.keys.card + slots.length < 2 ^ 61) (calls : List (Conflict K V)) :
    ∃ dst' m', slots.foldlM (mergeSlot conflictCb) (dst, calls) =
        some (dst', calls ++ conflictsOf conflictCb m slots) ∧ Represents laws dst' m' ∧
      ∀ c, m'.lookup c = mergedAt conflictCb (m.lookup c) (slotAt laws slots c) := by
  induction slots generalizing dst m calls with
  | nil =>
    refine ⟨dst, m, by simp [conflictsOf], rep, ?_⟩
    intro c
    cases held : m.lookup c <;> simp [mergedAt, slotAt, lookup]
  | cons s slots ih =>
    rw [length_cons] at few
    rw [map_cons, nodup_cons] at distinct
    obtain ⟨next, between, stepped, rep', grown, changed⟩ :=
      mergeSlot_spec rep (by omega) conflictCb calls (live s mem_cons_self)
    obtain ⟨dst', m', ran, rep'', merged⟩ := ih (forall_mem_cons.mp live).2 distinct.2 rep'
      (by omega) (calls ++ conflictsOf conflictCb m [s])
    have others : ∀ t ∈ slots, conflictOf between t = conflictOf m t := by
      intro t mem
      have apart : slotClass laws t ≠ slotClass laws s := fun same => distinct.1 (same ▸ mem_map_of_mem mem)
      rw [conflictOf, conflictOf, changed, if_neg apart]
    have split : conflictsOf conflictCb m (s :: slots) =
        conflictsOf conflictCb m [s] ++ conflictsOf conflictCb between slots := by
      cases conflictCb with
      | false => rfl
      | true =>
        simp only [conflictsOf, if_true]
        rw [filterMap_congr others, ← filterMap_append, singleton_append]
    refine ⟨dst', m', ?_, rep'', ?_⟩
    · rw [foldlM_cons, stepped, split, ← append_assoc]
      exact ran
    · intro c
      rw [merged, changed, slotAt_cons]
      by_cases same : c = slotClass laws s
      · have absent := slotAt_absent distinct.1
        rw [if_pos same, if_pos same, same, absent]
        cases m.lookup (slotClass laws s) <;> rfl
      · rw [if_neg same, if_neg same]

lemma foldlM_liveSlots (conflictCb : Bool) (src : Htab K V) (state : Htab K V × List (Conflict K V)) :
    (List.range (src.mask + 1)).foldlM (fun state i => mergeSlot conflictCb state (src.slots i)) state =
      (liveSlots src).foldlM (mergeSlot conflictCb) state := by
  unfold liveSlots
  generalize List.range (src.mask + 1) = indices
  induction indices generalizing state with
  | nil => rfl
  | cons i indices ih =>
    rw [map_cons, filter_cons, foldlM_cons]
    by_cases empty : (src.slots i).hash = 0
    · have skipped : mergeSlot conflictCb state (src.slots i) = some state := if_pos empty
      simp only [skipped, empty, ne_eq, not_true_eq_false, decide_false, Bool.false_eq_true, if_false]
      exact ih state
    · simp only [empty, ne_eq, not_false_eq_true, decide_true, if_true]
      rw [foldlM_cons]
      congr 1
      funext next
      exact ih next

/-- The destination wins for shared keys, other entries are added, and the callback sees each shared key once with both
keys and values. -/
def MergeKeeps (conflictCb : Bool) (dst src dst' : Htab K V) (calls : List (Conflict K V)) : Prop :=
  (∀ key p, heldEntry dst key = some p → heldEntry dst' key = some p) ∧
    (∀ key p, heldEntry dst key = none → heldEntry src key = some p → heldEntry dst' key = some p) ∧
    (conflictCb = true → (calls : Multiset (Conflict K V)) = (htabEntries src).filterMap
      (fun q => (heldEntry dst q.1).map (fun p => ⟨p.1, p.2, q.1, q.2⟩)))

variable {ht : Htab K V}

section

variable (rep : Represents laws ht m)

include rep

omit [Inhabited K] [Inhabited V] in
lemma Represents.liveSlots_distinct : ((liveSlots ht).map (slotClass laws)).Nodup := by
  have nodup := m.nodupKeys.nodup_keys
  rw [rep.content, stored_eq_liveSlots, Multiset.map_coe, Multiset.coe_keys] at nodup
  rw [List.keys, map_map] at nodup
  exact Multiset.coe_nodup.mp nodup

omit [Inhabited K] [Inhabited V] in
lemma Represents.slotAt_liveSlots (c : KeyClass laws) : slotAt laws (liveSlots ht) c = m.lookup c := by
  apply Option.ext
  intro p
  rw [slotAt, Option.map_eq_some_iff, Finmap.lookup_eq_some_iff, rep.content, Multiset.mem_map, stored_eq_liveSlots]
  constructor
  · intro found
    obtain ⟨s, located, rfl⟩ := found
    obtain ⟨mem, rfl⟩ := (lookup_eq_some (slotClass laws) _ rep.liveSlots_distinct c s).mp located
    exact ⟨s, mem, rfl⟩
  · intro found
    obtain ⟨s, mem, same⟩ := found
    cases same
    exact ⟨s, (lookup_eq_some (slotClass laws) _ rep.liveSlots_distinct _ s).mpr ⟨mem, rfl⟩, rfl⟩

omit rep in
lemma htabMerge_spec (rep : Represents laws dst m)
    (srcRep : Represents laws src n) (few : dst.count + src.count < 2 ^ 61) (conflictCb : Bool) :
    ∃ dst', htabMerge conflictCb dst src = some (dst', conflictsOf conflictCb m (liveSlots src)) ∧
      ∀ key, heldEntry dst' key = mergedAt conflictCb (heldEntry dst key) (heldEntry src key) := by
  have live : ∀ s ∈ liveSlots src, s.hash ≠ 0 := by
    intro s mem
    exact of_decide_eq_true (List.mem_filter.mp mem).2
  have size : m.keys.card + (liveSlots src).length < 2 ^ 61 := by
    have counted := srcRep.counted
    rw [stored_eq_liveSlots, Multiset.coe_card] at counted
    rw [rep.card, ← counted]
    exact few
  obtain ⟨dst', m', ran, rep', merged⟩ :=
    mergeSlots_spec conflictCb (liveSlots src) live srcRep.liveSlots_distinct rep size []
  refine ⟨dst', ?_, ?_⟩
  · rw [htabMerge, foldlM_liveSlots, ran, nil_append]
  · intro key
    rw [rep'.held, merged, srcRep.slotAt_liveSlots, rep.held, srcRep.held]

omit [Inhabited K] [Inhabited V] in
lemma Represents.held_entry (mem : q ∈ htabEntries ht) : heldEntry ht q.1 = some q := by
  obtain ⟨s, held, rfl⟩ := mem_htabEntries.mp mem
  rw [rep.held, rep.found_entry held]

omit [Inhabited K] [Inhabited V] in
lemma Represents.entry_of_held (held : heldEntry ht key = some q) :
    q ∈ htabEntries ht ∧ keyClass laws q.1 = keyClass laws key := by
  rw [rep.held, Finmap.lookup_eq_some_iff, rep.content, Multiset.mem_map] at held
  obtain ⟨s, mem, same⟩ := held
  obtain ⟨sameClass, samePair⟩ := Sigma.mk.inj_iff.mp same
  rw [← eq_of_heq samePair]
  exact ⟨mem_htabEntries.mpr ⟨s, mem, rfl⟩, sameClass⟩

end

omit [Inhabited K] [Inhabited V] in
lemma conflicts_right_iff (rep : Represents laws dst m) :
    ((conflictsOf true m (liveSlots src) : List (Conflict K V)) : Multiset (Conflict K V)) = (htabEntries src).filterMap
        (fun q => (heldEntry dst q.1).map (fun p => ⟨p.1, p.2, q.1, q.2⟩)) ↔
      ∀ q ∈ htabEntries src, ∀ p, heldEntry dst q.1 = some p → p.1 = q.1 := by
  constructor
  · intro same q mem p held
    have expected : (⟨p.1, p.2, q.1, q.2⟩ : Conflict K V) ∈ (htabEntries src).filterMap
        (fun q => (heldEntry dst q.1).map (fun p => (⟨p.1, p.2, q.1, q.2⟩ : Conflict K V))) := by
      rw [Multiset.mem_filterMap]
      exact ⟨q, mem, by rw [held]; rfl⟩
    rw [← same] at expected
    obtain ⟨s, _, call⟩ := List.mem_filterMap.mp (Multiset.mem_coe.mp expected)
    obtain ⟨_, _, made⟩ := Option.map_eq_some_iff.mp call
    rw [Conflict.mk.injEq] at made
    exact made.1.symm.trans made.2.2.1
  · intro pointers
    rw [htabEntries, stored_eq_liveSlots, Multiset.map_coe, Multiset.filterMap_coe, filterMap_map]
    apply congrArg
    apply filterMap_congr
    intro s mem
    have entry : (s.key, s.val) ∈ htabEntries src :=
      mem_htabEntries.mpr ⟨s, by rw [stored_eq_liveSlots]; exact mem, rfl⟩
    rw [conflictOf, slotClass, ← rep.held, Function.comp_apply, pairOf]
    cases held : heldEntry dst s.key with
    | none => rfl
    | some p =>
      have pointer := pointers _ entry p held
      simp only [Option.map_some, Option.some.injEq, Conflict.mk.injEq, and_true]
      exact pointer.symm

theorem htab_merge_keeps_dst_iff (laws : KeyLaws hashFn eqFn) (dst src : Htab K V)
    (dstReached : HtabReachable hashFn eqFn dst) (srcReached : HtabReachable hashFn eqFn src)
    (few : dst.count + src.count < 2 ^ 61) (conflictCb : Bool) :
    ∃ dst' calls, htabMerge conflictCb dst src = some (dst', calls) ∧ (MergeKeeps conflictCb dst src dst' calls ↔
        ∀ q ∈ htabEntries src, ∀ p, heldEntry dst q.1 = some p → if conflictCb then p.1 = q.1 else p.2 = q.2) := by
  obtain ⟨m, rep⟩ := dstReached.represents laws
  obtain ⟨n, srcRep⟩ := srcReached.represents laws
  obtain ⟨dst', merged, held⟩ := htabMerge_spec rep srcRep few conflictCb
  refine ⟨dst', _, merged, ?_⟩
  have added (key : K) (p : K × V) (absent : heldEntry dst key = none) (present : heldEntry src key = some p) :
      heldEntry dst' key = some p := by
    rw [held, absent, present]
    rfl
  cases conflictCb with
  | true =>
    simp only [if_true]
    rw [← conflicts_right_iff rep]
    constructor
    · intro keeps
      exact keeps.2.2 rfl
    · intro right
      refine ⟨?_, added, fun _ => right⟩
      intro key p present
      rw [held, present]
      cases heldEntry src key <;> rfl
  | false =>
    simp only [Bool.false_eq_true, if_false]
    constructor
    · intro keeps q mem p present
      have after := keeps.1 q.1 p present
      rw [held, present, srcRep.held_entry mem] at after
      have overwritten : some (p.1, q.2) = some p := after
      rw [← Option.some.inj overwritten]
    · intro values
      refine ⟨?_, added, fun bad => by cases bad⟩
      intro key p present
      rw [held, present]
      cases other : heldEntry src key with
      | none => rfl
      | some q =>
        obtain ⟨mem, sameClass⟩ := srcRep.entry_of_held other
        have shared : heldEntry dst q.1 = some p := by rw [rep.held, sameClass, ← rep.held, present]
        have value := values q mem p shared
        simp [mergedAt, ← value]

end

lemma set_reachable (key val : Nat) :
    ∃ ht replies, htabRun (htabCreate lastDigitHash lastDigitEq 0) [.set key val] = some (ht, replies) ∧
      HtabReachable lastDigitHash lastDigitEq ht ∧ ht.count ≤ 1 := by
  have created : Represents lastDigit_laws (htabCreate lastDigitHash lastDigitEq 0 : Htab Nat Nat) ∅ :=
    create_represents lastDigit_laws (Nat.zero_le (2 ^ 62))
  have short := addressable_of_short lastDigit_laws ∅ [.set key val] (by simp)
  obtain ⟨ht, ran, rep⟩ := created.run short
  have reached := HtabReachable.run lastDigit_laws created (.create 0 (Nat.zero_le _)) short ran
  have grown := mapStep_card lastDigit_laws ∅ (.set key val)
  refine ⟨ht, _, ran, reached, ?_⟩
  rw [← rep.card]
  exact grown

theorem htab_merge_keeps_dst_digits : ∃ dst src dst' calls, htabMerge true dst src = some (dst', calls) ∧
      (MergeKeeps true dst src dst' calls ↔ ∀ q ∈ htabEntries src, ∀ p : Nat × Nat, heldEntry dst q.1 = some p →
          if true then p.1 = q.1 else p.2 = q.2) := by
  obtain ⟨dst, _, _, dstReached, dstCount⟩ := set_reachable 13 7
  obtain ⟨src, _, _, srcReached, srcCount⟩ := set_reachable 23 8
  have few : dst.count + src.count < 2 ^ 61 := by omega
  exact ⟨dst, src, htab_merge_keeps_dst_iff lastDigit_laws dst src dstReached srcReached few true⟩

/-- What `dst` holds for key 13 after the merge, and the calls. -/
def digitMerge (conflictCb : Bool) : Option (Option (Nat × Nat) × List (Conflict Nat Nat)) := do
  let (dst, _) ← htabRun (htabCreate lastDigitHash lastDigitEq 0) [.set 13 7]
  let (src, _) ← htabRun (htabCreate lastDigitHash lastDigitEq 0) [.set 23 8]
  let (merged, calls) ← htabMerge conflictCb dst src
  some (heldEntry merged 13, calls)

/-- Keys 13 and 23 are equal. Without a callback the value 7 of `dst` is lost; with one the call names the key of `src`
for that of `dst`. -/
theorem merge_loses_destination :
    digitMerge false = some (some (13, 8), []) ∧ digitMerge true = some (some (13, 7), [⟨23, 7, 23, 8⟩]) := by
  decide

end LibOp.HashTable

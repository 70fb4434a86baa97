import LibOp.Event.DueEntries

namespace LibOp.Event

open List

variable {s : State} {func arg i : Nat}

def State.liveFor (s : State) (func arg : Nat) : Nat :=
  ((List.range s.heapLen).filter fun i =>
    (s.entries (s.heap i)).isFor func arg && !(s.entries (s.heap i)).dead).length

def DeletesOne (s : State) (func arg : Nat) : Prop :=
  (∃ ev, s.Live ev ∧ (s.entries ev).isFor func arg = true ∧ opEventFindDelete s func arg = opEventDelete s ev) ∧
    (opEventFindDelete s func arg).liveFor func arg + 1 = s.liveFor func arg

def FirstFor (s : State) (func arg i : Nat) : Prop :=
  i < s.heapLen ∧ (s.entries (s.heap i)).isFor func arg = true ∧
    ∀ j, j < i → (s.entries (s.heap j)).isFor func arg = false

lemma FirstFor.findDelete (first : FirstFor s func arg i) :
    opEventFindDelete s func arg = opEventDelete s (s.heap i) := by
  obtain ⟨below, named, before⟩ := first
  have found : (List.range s.heapLen).find? (fun i => (s.entries (s.heap i)).isFor func arg) = some i := by
    rw [find?_range_eq_some]
    refine ⟨named, List.mem_range.mpr below, ?_⟩
    intro j earlier
    rw [before j earlier]
    rfl
  unfold opEventFindDelete
  rw [found]

lemma exists_firstFor (queued : s.Queued ev) (isFor : (s.entries ev).isFor func arg = true) :
    ∃ i, FirstFor s func arg i := by
  obtain ⟨k, below, rfl⟩ := queued
  have some : ∃ i, i < s.heapLen ∧ (s.entries (s.heap i)).isFor func arg = true := ⟨k, below, isFor⟩
  refine ⟨Nat.find some, (Nat.find_spec some).1, (Nat.find_spec some).2, ?_⟩
  intro j earlier
  apply Bool.eq_false_of_not_eq_true
  intro another
  exact Nat.find_min some earlier ⟨Nat.lt_trans earlier (Nat.find_spec some).1, another⟩

lemma liveFor_delete_dead (dead : (s.entries (s.heap i)).dead = true) :
    (opEventDelete s (s.heap i)).liveFor func arg = s.liveFor func arg := by
  have same : (opEventDelete s (s.heap i)).entries = s.entries := by
    unfold opEventDelete State.setEntry
    rw [← dead]
    exact Function.update_eq_self _ _
  unfold State.liveFor
  rw [same]
  rfl

lemma liveFor_delete_live (indexed : Indexed s) (below : i < s.heapLen)
    (isFor : (s.entries (s.heap i)).isFor func arg = true) (live : (s.entries (s.heap i)).dead = false) :
    (opEventDelete s (s.heap i)).liveFor func arg + 1 = s.liveFor func arg := by
  let alive (i : Nat) : Bool := (s.entries (s.heap i)).isFor func arg && !(s.entries (s.heap i)).dead
  have remaining : (opEventDelete s (s.heap i)).liveFor func arg =
      (((List.range s.heapLen).filter alive).erase i).length := by
    rw [List.Nodup.erase_eq_filter (List.nodup_range.filter _), filter_filter]
    apply congrArg List.length
    apply filter_congr
    intro j mem
    have inside := List.mem_range.mp mem
    by_cases self : j = i
    · rw [self]
      change (((opEventDelete s (s.heap i)).entries (s.heap i)).isFor func arg &&
        !((opEventDelete s (s.heap i)).entries (s.heap i)).dead) = _
      rw [opEventDelete, setEntry_self, bne_self_eq_false]
      exact Bool.and_false _
    · have other : s.heap j ≠ s.heap i := fun same => self (indexed.inj inside below same)
      change (((opEventDelete s (s.heap i)).entries (s.heap j)).isFor func arg &&
        !((opEventDelete s (s.heap i)).entries (s.heap j)).dead) = _
      rw [opEventDelete, setEntry_of_ne s _ other, bne_iff_ne.mpr self, Bool.true_and]
  have mem : i ∈ (List.range s.heapLen).filter alive := by
    apply List.mem_filter.mpr
    apply And.intro (List.mem_range.mpr below)
    change ((s.entries (s.heap i)).isFor func arg && !(s.entries (s.heap i)).dead) = true
    rw [isFor, live]
    rfl
  rw [remaining]
  exact length_erase_add_one mem

theorem find_delete_iff (s : State) (reached : Reached s) (func arg : Nat)
    (some : ∃ ev, s.Live ev ∧ (s.entries ev).isFor func arg = true) :
    DeletesOne s func arg ↔ ∃ i, FirstFor s func arg i ∧ (s.entries (s.heap i)).dead = false := by
  obtain ⟨ev, live, isFor⟩ := some
  obtain ⟨i, first⟩ := exists_firstFor live.1 isFor
  constructor
  · intro deletes
    refine ⟨i, first, ?_⟩
    apply Bool.eq_false_of_not_eq_true
    intro dead
    have count := deletes.2
    rw [first.findDelete, liveFor_delete_dead dead] at count
    omega
  · intro condition
    obtain ⟨k, atFirst, alive⟩ := condition
    unfold DeletesOne
    rw [atFirst.findDelete]
    exact ⟨⟨_, ⟨⟨k, atFirst.1, rfl⟩, alive⟩, atFirst.2.1, rfl⟩,
      liveFor_delete_live reached.inv.indexed atFirst.1 atFirst.2.1 alive⟩

/-- A deleted entry stays in front of its successor and stops the scan. -/
theorem find_delete_hits_dead_twin :
    let s := ((State.init.call (.add 0 [] 7 8 1)).call (.findDelete 7 8)).call (.add 0 [] 7 8 5)
    Reached s ∧ s.Live 1 ∧ (s.entries 1).isFor 7 8 = true ∧ s.liveFor 7 8 = 1 ∧
      (opEventFindDelete s 7 8).liveFor 7 8 = 1 := by
  intro s
  refine ⟨?_, ⟨⟨1, by decide, by decide⟩, by decide⟩, by decide, by decide, by decide⟩
  exact ((Reached.init.call _).call _).call _

theorem find_delete_twin :
    let s := (State.init.call (.add 0 [] 7 8 5)).call (.add 0 [] 7 8 1)
    s.liveFor 7 8 = 2 ∧ DeletesOne s 7 8 := by
  intro s
  have live : s.Live 1 ∧ (s.entries 1).isFor 7 8 = true := ⟨⟨⟨0, by decide, by decide⟩, by decide⟩, by decide⟩
  apply And.intro (by decide)
  apply (find_delete_iff s ((Reached.init.call _).call _) 7 8 ⟨1, live⟩).mpr
  exact ⟨0, ⟨by decide, by decide, fun j before => absurd before (Nat.not_lt_zero j)⟩, by decide⟩

/-- No entry of the module is left, and every other one is there once and unchanged. -/
structure Purged (modName : Name) (s s' : State) : Prop where
  gone : ∀ ev, s'.Queued ev → (s'.entries ev).owner ≠ some modName
  others : ∀ ev, s.Queued ev → (s.entries ev).owner ≠ some modName →
    (∀ i, i < s'.heapLen ∧ s'.heap i = ev ↔ i = s'.hidx ev) ∧ s'.entries ev = s.entries ev
  queued : ∀ ev, s'.Queued ev → s.Queued ev
  ordered : HeapOrdered s'

lemma opStrndup_eq_iff : (opStrndup owner evNameLen = modName ↔ owner = modName) ↔
      (owner = modName → modName.length ≤ 32) ∧ (modName.length = 32 → modName <+: owner → owner = modName) := by
  change (owner.take 32 = modName ↔ owner = modName) ↔ _
  constructor
  · intro same
    apply And.intro
    · intro own
      rw [← same.mpr own]
      exact length_take_le _ _
    · intro full starts
      apply same.mp
      rw [← full]
      exact (List.prefix_iff_eq_take.mp starts).symm
  · intro condition
    constructor
    · intro cut
      by_cases long : owner.length ≤ 32
      · rw [← cut, take_of_length_le long]
      · have length : modName.length = 32 := by
          rw [← cut, length_take]
          omega
        apply condition.2 length
        rw [← cut]
        exact take_prefix _ _
    · intro own
      rw [own]
      exact take_of_length_le (condition.1 own)

theorem purge_module_iff (s : State) (reached : Reached s) (modName : Name) :
    Purged modName s (opEventPurgeModule s (some modName)) ↔
      ∀ ev, s.Queued ev → ∀ owner, (s.entries ev).owner = some owner →
        (owner = modName → modName.length ≤ 32) ∧ (modName.length = 32 → modName <+: owner → owner = modName) := by
  obtain ⟨inv, entries, queued⟩ := purge_spec reached.inv.toStored modName
  have tagged {ev : Nat} (mem : s.Queued ev) {owner : Name} (owned : (s.entries ev).owner = some owner) :
      (s.entries ev).modName = some modName ↔ opStrndup owner evNameLen = modName := by
    rw [reached.inv.tagged ev mem, owned, Option.map_some, Option.some_inj]
  constructor
  · intro purged ev mem owner owned
    apply opStrndup_eq_iff.mp
    rw [← tagged mem owned]
    constructor
    · intro cut
      by_contra other
      have apart : (s.entries ev).owner ≠ some modName := by
        rw [owned]
        exact fun same => other (Option.some_inj.mp same)
      have place := ((purged.others ev mem apart).1 _).mpr rfl
      exact ((queued ev).mp ⟨_, place⟩).2 cut
    · intro own
      by_contra other
      have left := (queued ev).mpr ⟨mem, other⟩
      apply purged.gone ev left
      rw [entries, owned, own]
  · intro condition
    have named {ev : Nat} (mem : s.Queued ev) :
        (s.entries ev).modName = some modName ↔ (s.entries ev).owner = some modName := by
      cases owned : (s.entries ev).owner with
      | none =>
        rw [reached.inv.tagged ev mem, owned]
        exact iff_of_false (Option.some_ne_none modName).symm (Option.some_ne_none modName).symm
      | some owner => rw [tagged mem owned, opStrndup_eq_iff.mpr (condition ev mem owner owned), Option.some_inj]
    exact
      { gone := by
          intro ev left
          obtain ⟨mem, stays⟩ := (queued ev).mp left
          rw [entries]
          exact fun own => stays ((named mem).mpr own)
        others := by
          intro ev mem apart
          have left := (queued ev).mpr ⟨mem, fun cut => apart ((named mem).mp cut)⟩
          have place := inv.indexed.place left
          apply And.intro _ (congrFun entries ev)
          intro i
          constructor
          · intro found
            rw [← found.2]
            exact (inv.indexed i found.1).symm
          · intro same
            rw [same]
            exact place
        queued := fun ev left => ((queued ev).mp left).1
        ordered := inv.ordered }

/-- A module whose name has 33 bytes keeps its entry. -/
theorem purge_misses_long_name :
    let modName : Name := List.replicate 33 97
    let s := (State.init.call (.load (some modName))).call (.add 0 [] 7 8 1)
    let s' := opEventPurgeModule s (some modName)
    Reached s ∧ (s.entries 0).owner = some modName ∧ s'.Queued 0 ∧ ¬Purged modName s s' := by
  intro modName s s'
  have owner : (s'.entries 0).owner = some modName := by decide
  have left : s'.Queued 0 := by decide
  exact ⟨(Reached.init.call _).call _, by decide, left, fun purged => purged.gone 0 left owner⟩

theorem purge_short_name :
    let own := (State.init.call (.load (some [109]))).call (.add 0 [] 7 8 1)
    let s := (own.call (.load (some [110]))).call (.add 0 [] 7 8 2)
    s.heapLen = 2 ∧ Purged [109] s (opEventPurgeModule s (some [109])) := by
  intro own s
  apply And.intro (by decide)
  apply (purge_module_iff s ((((Reached.init.call _).call _).call _).call _) [109]).mpr
  intro ev queued owner owned
  exact ⟨fun _ => by decide, fun bad => absurd bad (by decide)⟩

end LibOp.Event

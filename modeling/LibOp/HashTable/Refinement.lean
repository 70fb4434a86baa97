import LibOp.HashTable.FiniteMap

namespace LibOp.HashTable

open Foundation Multiset Nat

variable {K V : Type} {hashFn : K → UInt64} {eqFn : K → K → Bool} {laws : KeyLaws hashFn eqFn}
  {ht : Htab K V} {m : KeyMap laws V}

section

variable (rep : Represents laws ht m)

include rep

lemma Represents.slot (key : K) :
    (htabLookup ht key (fixHash (ht.hashFn key))).map (Option.map fun s => (s.key, s.val)) =
      some (m.lookup (keyClass laws key)) := by
  rcases rep.find key with ⟨i, position, live, same, found⟩ | ⟨missing, absent⟩
  · rw [rep.lookup_found position live same]
    simp only [htabFindIdx] at found
    simp [htabLookup, found]
  · rw [absent]
    simp only [htabFindIdx] at missing
    simp [htabLookup, missing]

lemma Represents.get [Inhabited V] (key : K) :
    htabGet ht key = some (((m.lookup (keyClass laws key)).map Prod.snd).getD default) := by
  obtain ⟨s, looked, same⟩ := Option.map_eq_some_iff.mp (rep.slot key)
  rw [← same, htabGet, looked]
  cases s <;> rfl

lemma Represents.has (key : K) : htabHas ht key = some (m.lookup (keyClass laws key)).isSome := by
  obtain ⟨s, looked, same⟩ := Option.map_eq_some_iff.mp (rep.slot key)
  rw [← same, htabHas, looked]
  cases s <;> rfl

lemma Represents.write_val (position : i < ht.mask + 1) (live : (ht.slots i).hash ≠ 0) (val : V) :
    Represents laws { ht with slots := Function.update ht.slots i { ht.slots i with val := val } }
      (m.insert (keyClass laws (ht.slots i).key) ((ht.slots i).key, val)) := by
  obtain ⟨rest, split⟩ := exists_cons_of_mem (mem_stored.mpr ⟨⟨i, position, rfl⟩, live⟩)
  have written := stored_update ht.slots position { ht.slots i with val := val }
  rw [cell_of_live live, cell_of_live (s := { ht.slots i with val := val }) live, split, add_comm,
    singleton_add, cons_add, cons_inj_right, add_comm, singleton_add] at written
  have sameReach : reachAt ht.mask (Function.update ht.slots i { ht.slots i with val := val }) =
      reachAt ht.mask ht.slots := by
    rw [reachAt_update]
    exact Function.update_eq_self i (reachAt ht.mask ht.slots)
  have content : m.entries = ⟨keyClass laws (ht.slots i).key, (ht.slots i).key, (ht.slots i).val⟩ ::ₘ
      rest.map (entryOf laws) := by
    rw [rep.content, split, map_cons, entryOf]
  refine ⟨rep.hashFn_eq, rep.eqFn_eq, rep.ok, ?_, ?_, ?_, rep.room, ?_⟩
  · rw [sameReach]
    exact rep.ordered
  · intro s mem
    have old := rep.hashed
    simp only [split, forall_mem_cons] at old
    rw [written, mem_cons] at mem
    rcases mem with rfl | other
    · exact old.1
    · exact old.2 s other
  · rw [written, card_cons]
    have old := rep.counted
    rwa [split, card_cons] at old
  · rw [written, map_cons, finmap_insert_entries content]
    rfl

end

variable [Inhabited K] [Inhabited V]

lemma Represents.delAt (rep : Represents laws ht m) (position : i < ht.mask + 1) (live : (ht.slots i).hash ≠ 0) :
    ∃ ht', htabDelAt ht i = some ht' ∧ Represents laws ht' (m.erase (keyClass laws (ht.slots i).key)) := by
  obtain ⟨vacant, vacantLt, empty⟩ := exists_empty (rep.counted ▸ rep.room)
  obtain ⟨slots', result, order, removed⟩ := shiftLoop_spec rep.ok vacantLt (ht.mask + 1) ht.slots i
    position live rep.ordered empty (le_of_lt (displacement_lt vacantLt))
  have content : m.entries = ⟨keyClass laws (ht.slots i).key, (ht.slots i).key, (ht.slots i).val⟩ ::ₘ
      (stored ht.mask slots').map (entryOf laws) := by
    rw [rep.content, ← removed, map_cons, entryOf]
  have counted := rep.counted
  rw [← removed, card_cons] at counted
  have room := rep.room
  refine ⟨{ ht with slots := slots', count := ht.count - 1 }, by simp [htabDelAt, result],
    rep.hashFn_eq, rep.eqFn_eq, rep.ok, order, fun s mem => rep.hashed s ?_, ?_, ?_, ?_⟩
  · rw [← removed]
    exact mem_cons_of_mem mem
  · show ht.count - 1 = (stored ht.mask slots').card
    omega
  · show ht.count - 1 < ht.mask + 1
    omega
  · exact finmap_erase_entries content

lemma rehash_spec (ok : MaskOk newMask) (old : Nat → HtabSlot K V) (n : Nat)
    (room : (bag cell (Finset.range n) old).card < newMask + 1) :
    ∃ slots', (List.range n).foldlM (rehash old newMask) (fun _ => emptySlot) = some slots' ∧
      Ordered (newMask + 1) (reachAt newMask slots') ∧
      stored newMask slots' = bag cell (Finset.range n) old := by
  induction n with
  | zero =>
    refine ⟨fun _ => emptySlot, rfl, ?_, stored_empty newMask⟩
    exact fun _ _ => zero_le _
  | succ n ih =>
    have next : bag cell (Finset.range (n + 1)) old = bag cell (Finset.range n) old + cell (old n) :=
      Finset.sum_range_succ _ n
    rw [next, card_add] at room
    obtain ⟨slots', result, order, content⟩ := ih (by omega)
    rw [List.range_succ, List.foldlM_append, result, next]
    by_cases empty : (old n).hash = 0
    · refine ⟨slots', by simp [rehash, empty], order, ?_⟩
      rw [content, cell_of_empty empty, add_zero]
    · obtain ⟨inserted, done, keptOrder, added⟩ := htabInsertSlot_spec ok order
        (by rw [content]; omega) (old n).key (old n).val empty
      refine ⟨inserted, by simp [rehash, empty, done], keptOrder, ?_⟩
      rw [added, content, cell_of_live empty, add_comm, singleton_add]

section

variable (rep : Represents laws ht m)

include rep

lemma Represents.resize (ok : MaskOk (newCap - 1)) (larger : ht.count < newCap) :
    ∃ ht', htabResize ht newCap = some ht' ∧ Represents laws ht' m ∧ ht'.mask = newCap - 1 ∧
      ht'.count = ht.count := by
  have counted := rep.counted
  obtain ⟨slots', result, order, content⟩ := rehash_spec ok ht.slots (ht.mask + 1) (by
    rw [stored] at counted
    omega)
  refine ⟨{ ht with slots := slots', mask := newCap - 1 }, by simp [htabResize, result],
    ⟨rep.hashFn_eq, rep.eqFn_eq, ok, order, ?_, ?_, ?_, ?_⟩, rfl, rfl⟩
  · rw [content]
    exact rep.hashed
  · rw [content]
    exact rep.counted
  · show ht.count < newCap - 1 + 1
    omega
  · rw [content]
    exact rep.content

lemma Represents.maybeGrow (few : ht.count < 2 ^ 61) :
    ∃ ht', htabMaybeGrow ht = some ht' ∧ Represents laws ht' m ∧ ht'.count = ht.count ∧
      ht'.count + 1 < ht'.mask + 1 := by
  have large := rep.ok.large
  have bound := rep.ok.bound
  have room := rep.room
  have count4 : ht.count * 4 % 2 ^ 64 = ht.count * 4 := mod_eq_of_lt (by omega)
  have cap3 : (ht.mask + 1) * 3 % 2 ^ 64 = (ht.mask + 1) * 3 := mod_eq_of_lt (by omega)
  have cap2 : (ht.mask + 1) * 2 % 2 ^ 64 = (ht.mask + 1) * 2 := mod_eq_of_lt (by omega)
  simp only [htabMaybeGrow]
  rw [count4, cap3, cap2]
  split
  next loaded =>
    have doubled : MaskOk ((ht.mask + 1) * 2 - 1) := by
      obtain ⟨k, low, high, pow⟩ := rep.ok
      have below : k < 62 := by
        by_contra above
        rw [show k = 62 by omega] at pow
        omega
      exact ⟨k + 1, by omega, by omega, by rw [pow, pow_succ]; omega⟩
    obtain ⟨ht', result, rep', mask, count⟩ := rep.resize doubled (by omega)
    exact ⟨ht', result, rep', count, by omega⟩
  next light => exact ⟨ht, rfl, rep, rfl, by omega⟩

variable {key : K}

lemma Represents.insertNew (few : ht.count < 2 ^ 61) (val : V) (absent : m.lookup (keyClass laws key) = none) :
    ∃ ht', htabInsertNew ht key val (fixHash (ht.hashFn key)) = some ht' ∧
      Represents laws ht' (m.insert (keyClass laws key) (key, val)) := by
  obtain ⟨grown, growth, rep', same, room⟩ := rep.maybeGrow few
  obtain ⟨slots', result, order, added⟩ := htabInsertSlot_spec rep'.ok rep'.ordered
    (rep'.counted ▸ rep'.room) key val (fixHash_ne_zero (ht.hashFn key))
  refine ⟨{ grown with slots := slots', count := grown.count + 1 },
    by simp [htabInsertNew, growth, result], rep'.hashFn_eq, rep'.eqFn_eq, rep'.ok, order, ?_, ?_,
    room, ?_⟩
  · intro s mem
    rw [added, mem_cons] at mem
    rcases mem with rfl | old
    · rw [rep.hashFn_eq]
    · exact rep'.hashed s old
  · rw [added, card_cons, ← rep'.counted]
  · rw [added, map_cons, ← rep'.content, Finmap.entries_insert_of_notMem (Finmap.lookup_eq_none.mp absent), entryOf]

lemma Represents.set_found {key kept : K} (val : V) (present : m.lookup (keyClass laws key) = some (kept, old)) :
    ∃ ht', htabSet ht key val = some (ht', 0, old) ∧
      Represents laws ht' (m.insert (keyClass laws key) (kept, val)) := by
  rcases rep.find key with ⟨i, position, live, same, found⟩ | ⟨-, absent⟩
  · rw [rep.lookup_found position live same] at present
    cases present
    have written := rep.write_val position live val
    rw [same] at written
    exact ⟨_, by simp [htabSet, found], written⟩
  · rw [absent] at present
    cases present

lemma Represents.set_new (few : ht.count < 2 ^ 61) (val : V) (absent : m.lookup (keyClass laws key) = none) :
    ∃ ht', htabSet ht key val = some (ht', 1, default) ∧
      Represents laws ht' (m.insert (keyClass laws key) (key, val)) := by
  rcases rep.find key with ⟨i, position, live, same, found⟩ | ⟨missing, -⟩
  · rw [rep.lookup_found position live same] at absent
    cases absent
  · obtain ⟨ht', inserted, rep'⟩ := rep.insertNew few val absent
    exact ⟨ht', by simp [htabSet, missing, inserted], rep'⟩

lemma Represents.del_found {key kept : K} {val : V} (present : m.lookup (keyClass laws key) = some (kept, val)) :
    ∃ ht', htabDel ht key = some (ht', val) ∧ Represents laws ht' (m.erase (keyClass laws key)) := by
  rcases rep.find key with ⟨i, position, live, same, found⟩ | ⟨-, absent⟩
  · rw [rep.lookup_found position live same] at present
    cases present
    obtain ⟨ht', deleted, rep'⟩ := rep.delAt position live
    rw [same] at rep'
    exact ⟨ht', by simp [htabDel, found, deleted], rep'⟩
  · rw [absent] at present
    cases present

lemma Represents.del_absent (absent : m.lookup (keyClass laws key) = none) : htabDel ht key = some (ht, default) := by
  rcases rep.find key with ⟨i, position, live, same, found⟩ | ⟨missing, -⟩
  · rw [rep.lookup_found position live same] at absent
    cases absent
  · simp [htabDel, missing]

lemma Represents.compact (few : ht.count < 2 ^ 61) : ∃ ht', htabCompact ht = some ht' ∧ Represents laws ht' m ∧
    ht'.mask + 1 = min (ht.mask + 1) (nextPow2 (ht.count * 2 + 1)) := by
  have small : (ht.count * 2 + 1) % 2 ^ 64 = ht.count * 2 + 1 := mod_eq_of_lt (by omega)
  obtain ⟨k, low, high, pow, above⟩ := nextPow2_spec (n := ht.count * 2 + 1) (by omega)
  simp only [htabCompact]
  rw [small]
  split
  next shrinks =>
    have pos := Nat.two_pow_pos k
    have ok : MaskOk (nextPow2 (ht.count * 2 + 1) - 1) := ⟨k, low, high, by omega⟩
    obtain ⟨ht', result, rep', mask, -⟩ := rep.resize ok (by omega)
    exact ⟨ht', result, rep', by omega⟩
  next keeps => exact ⟨ht, rfl, rep, by omega⟩

lemma Represents.step (few : m.keys.card < 2 ^ 61) (op : HtabOp K V) :
    ∃ ht', htabStep ht op = some (ht', (mapStep laws m op).2) ∧ Represents laws ht' (mapStep laws m op).1 := by
  rw [rep.card] at few
  cases op with
  | set key val =>
    cases stored : m.lookup (keyClass laws key) with
    | some pair =>
      obtain ⟨kept, old⟩ := pair
      obtain ⟨ht', written, rep'⟩ := rep.set_found val stored
      refine ⟨ht', by simp [htabStep, written, mapStep, stored], ?_⟩
      simp only [mapStep, stored]
      exact rep'
    | none =>
      obtain ⟨ht', inserted, rep'⟩ := rep.set_new few val stored
      refine ⟨ht', by simp [htabStep, inserted, mapStep, stored], ?_⟩
      simp only [mapStep, stored]
      exact rep'
  | del key =>
    cases stored : m.lookup (keyClass laws key) with
    | some pair =>
      obtain ⟨kept, val⟩ := pair
      obtain ⟨ht', deleted, rep'⟩ := rep.del_found stored
      refine ⟨ht', by simp [htabStep, deleted, mapStep, stored], ?_⟩
      simp only [mapStep, stored]
      exact rep'
    | none =>
      refine ⟨ht, by simp [htabStep, rep.del_absent stored, mapStep, stored], ?_⟩
      simp only [mapStep, stored]
      exact rep
  | getOrSet key val =>
    rcases rep.find key with ⟨i, position, live, same, found⟩ | ⟨missing, absent⟩
    · refine ⟨ht, by simp [htabStep, htabGetOrSet, found, mapStep, rep.lookup_found position live same], ?_⟩
      simp only [mapStep, rep.lookup_found position live same]
      exact rep
    · obtain ⟨ht', inserted, rep'⟩ := rep.insertNew few val absent
      refine ⟨ht', by simp [htabStep, htabGetOrSet, missing, inserted, mapStep, absent], ?_⟩
      simp only [mapStep, absent]
      exact rep'
  | compact =>
    obtain ⟨ht', compacted, rep', -⟩ := rep.compact few
    exact ⟨ht', by simp [htabStep, compacted, mapStep], rep'⟩

lemma Represents.run (bounded : Addressable laws m ops) :
    ∃ ht', htabRun ht ops = some (ht', (mapRun laws m ops).2) ∧ Represents laws ht' (mapRun laws m ops).1 := by
  induction ops generalizing ht m with
  | nil => exact ⟨ht, rfl, rep⟩
  | cons op rest ih =>
    obtain ⟨next, stepped, rep'⟩ := rep.step bounded.1 op
    obtain ⟨last, ran, rep''⟩ := ih rep' bounded.2
    exact ⟨last, by simp [htabRun, stepped, ran, mapRun], rep''⟩

end

lemma create_represents (laws : KeyLaws hashFn eqFn) (bound : initialCap ≤ 2 ^ 62) :
    Represents laws (htabCreate hashFn eqFn initialCap : Htab K V) ∅ := by
  obtain ⟨k, low, high, pow, -⟩ := nextPow2_spec bound
  have pos := Nat.two_pow_pos k
  refine ⟨rfl, rfl, ⟨k, low, high, ?_⟩, fun _ _ => Nat.zero_le _, ?_, ?_, Nat.succ_pos _, ?_⟩
  · show nextPow2 initialCap - 1 + 1 = 2 ^ k
    omega
  all_goals simp only [htabCreate, stored_empty]
  · exact fun s mem => absurd mem (notMem_zero s)
  · rfl
  · rfl

theorem htab_is_finite_map (laws : KeyLaws hashFn eqFn) (initialCap : Nat) (bound : initialCap ≤ 2 ^ 62)
    (ops : List (HtabOp K V)) (bounded : Addressable laws ∅ ops) :
    ∃ ht, htabRun (htabCreate hashFn eqFn initialCap) ops = some (ht, (mapRun laws ∅ ops).2) ∧
      (∀ key, htabGet ht key =
        some ((((mapRun laws ∅ ops).1.lookup (keyClass laws key)).map Prod.snd).getD default)) ∧
      (∀ key, htabHas ht key = some ((mapRun laws ∅ ops).1.lookup (keyClass laws key)).isSome) ∧
      htabSize ht = (mapRun laws ∅ ops).1.keys.card ∧
      (∀ key, (htabLookup ht key (fixHash (ht.hashFn key))).map (Option.map fun s => (s.key, s.val)) =
        some ((mapRun laws ∅ ops).1.lookup (keyClass laws key))) := by
  obtain ⟨ht, ran, rep⟩ := (create_represents laws bound).run bounded
  exact ⟨ht, ran, rep.get, rep.has, rep.card.symm, rep.slot⟩

def lastDigitHash (n : Nat) : UInt64 := UInt64.ofNat (n % 10 % 2)

def lastDigitEq (a b : Nat) : Bool := decide (a % 10 = b % 10)

lemma lastDigit_laws : KeyLaws lastDigitHash lastDigitEq where
  refl _ := decide_eq_true rfl
  symm _ _ same := decide_eq_true (of_decide_eq_true same).symm
  trans _ _ _ first second := decide_eq_true ((of_decide_eq_true first).trans (of_decide_eq_true second))
  hash _ _ same := by rw [lastDigitHash, lastDigitHash, of_decide_eq_true same]

def digitOps : List (HtabOp Nat Nat) :=
  [.set 13 7, .set 5 1, .set 23 8, .getOrSet 21 4, .del 3, .compact, .getOrSet 15 6]

theorem htab_is_finite_map_digits : ∃ ht, htabRun (htabCreate lastDigitHash lastDigitEq 0) digitOps =
        some (ht, (mapRun lastDigit_laws ∅ digitOps).2) ∧
      ∀ key, htabHas ht key =
        some ((mapRun lastDigit_laws ∅ digitOps).1.lookup (keyClass lastDigit_laws key)).isSome := by
  obtain ⟨ht, ran, -, has, -⟩ := htab_is_finite_map lastDigit_laws 0 (by decide) digitOps
    (addressable_of_short lastDigit_laws ∅ digitOps (by simp [digitOps]))
  exact ⟨ht, ran, has⟩

end LibOp.HashTable

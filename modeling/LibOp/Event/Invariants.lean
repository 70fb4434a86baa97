import LibOp.Event.Queue

namespace LibOp.Event

open Foundation.BinaryHeap Nat Function

variable {s s' : State} {i j ev : Nat}

def Indexed (s : State) : Prop := ∀ i, i < s.heapLen → s.hidx (s.heap i) = i

lemma Indexed.inj (indexed : Indexed s) (first : i < s.heapLen) (second : j < s.heapLen)
    (same : s.heap i = s.heap j) : i = j := by
  rw [← indexed i first, same, indexed j second]

lemma Indexed.place (indexed : Indexed s) (queued : s.Queued ev) : s.hidx ev < s.heapLen ∧ s.heap (s.hidx ev) = ev := by
  obtain ⟨i, below, rfl⟩ := queued
  rw [indexed i below]
  exact ⟨below, rfl⟩

structure Arranged (s s' : State) : Prop where
  entries : s'.entries = s.entries
  heapLen : s'.heapLen = s.heapLen
  fresh : s'.fresh = s.fresh
  indexed : Indexed s'
  queued : ∀ ev, s'.Queued ev ↔ s.Queued ev

lemma Arranged.refl (indexed : Indexed s) : Arranged s s :=
  { entries := rfl, heapLen := rfl, fresh := rfl, indexed := indexed, queued := fun _ => Iff.rfl }

variable {t : State} {modName : Name} {newLen : Nat}

lemma Arranged.trans (first : Arranged s s') (second : Arranged s' t) : Arranged s t where
  entries := second.entries.trans first.entries
  heapLen := second.heapLen.trans first.heapLen
  fresh := second.fresh.trans first.fresh
  indexed := second.indexed
  queued ev := (second.queued ev).trans (first.queued ev)

lemma heapSwap_heap (s : State) (differs : i ≠ j) (k : Nat) :
    (heapSwap s i j).heap k = if k = i then s.heap j else if k = j then s.heap i else s.heap k := by
  change Function.update (Function.update s.heap i (s.heap j)) j (s.heap i) k = _
  by_cases second : k = j
  · rw [second, update_self, if_neg differs.symm, if_pos rfl]
  · rw [update_of_ne second, if_neg second]
    exact update_apply _ _ _ _

lemma heapSwap_queued (first : i < s.heapLen) (second : j < s.heapLen) (differs : i ≠ j) (ev : Nat) :
    (heapSwap s i j).Queued ev ↔ s.Queued ev := by
  have heap := heapSwap_heap s differs
  constructor
  · intro queued
    obtain ⟨k, below, rfl⟩ := queued
    rw [heap]
    split
    · exact ⟨j, second, rfl⟩
    · split
      · exact ⟨i, first, rfl⟩
      · exact ⟨k, below, rfl⟩
  · intro queued
    obtain ⟨k, below, rfl⟩ := queued
    by_cases left : k = i
    · exact ⟨j, second, by rw [heap, if_neg differs.symm, if_pos rfl, left]⟩
    by_cases right : k = j
    · exact ⟨i, first, by rw [heap, if_pos rfl, right]⟩
    · exact ⟨k, below, by rw [heap, if_neg left, if_neg right]⟩

lemma Indexed.swap (indexed : Indexed s) (first : i < s.heapLen) (second : j < s.heapLen) (differs : i ≠ j) :
    Indexed (heapSwap s i j) := by
  intro k below
  change Function.update (Function.update s.hidx (s.heap j) i) (s.heap i) j _ = k
  rw [heapSwap_heap s differs]
  split
  next left =>
    have apart : s.heap j ≠ s.heap i := fun same => differs (indexed.inj second first same).symm
    rw [update_of_ne apart, update_self, left]
  next left =>
    split
    next right => rw [update_self, right]
    next right =>
      have apart : s.heap k ≠ s.heap i := fun same => left (indexed.inj below first same)
      have other : s.heap k ≠ s.heap j := fun same => right (indexed.inj below second same)
      rw [update_of_ne apart, update_of_ne other]
      exact indexed k below

lemma Arranged.swap (t : State) (i j : Nat) (first : i < s.heapLen) (second : j < s.heapLen) (differs : i ≠ j)
    (arranged : Arranged s t) : Arranged s (heapSwap t i j) := by
  rw [← arranged.heapLen] at first second
  exact arranged.trans
    { entries := rfl
      heapLen := rfl
      fresh := rfl
      indexed := arranged.indexed.swap first second differs
      queued := heapSwap_queued first second differs }

lemma heapSiftUp_arranged (indexed : Indexed s) (below : i < s.heapLen) : Arranged s (heapSiftUp s i) :=
  siftUp_preserves Arranged.swap below (Arranged.refl indexed)

lemma heapSiftDown_arranged (indexed : Indexed s) (below : i < s.heapLen) : Arranged s (heapSiftDown s i) :=
  siftDown_preserves Arranged.swap below (Arranged.refl indexed)

lemma heapRebuild_arranged (indexed : Indexed s) : Arranged s (heapRebuild s) :=
  heapify_preserves Arranged.swap (Arranged.refl indexed)

def HeapOrdered (s : State) : Prop := Ordered (heapArray.key s) s.heapLen

lemma heapRebuild_ordered (indexed : Indexed s) : HeapOrdered (heapRebuild s) := by
  unfold HeapOrdered
  rw [(heapRebuild_arranged indexed).heapLen]
  exact heapify_ordered heapArray s.heapLen s

lemma heapResift_spec (indexed : Indexed s) (queued : s.Queued ev)
    (displaced : Displaced (heapArray.key s) s.heapLen (s.hidx ev)) :
    Arranged s (heapResift s ev) ∧ HeapOrdered (heapResift s ev) := by
  have below := (indexed.place queued).1
  have up := heapSiftUp_arranged indexed below
  have place := (up.indexed.place ((up.queued ev).mpr queued)).1
  have arranged : Arranged s (heapResift s ev) := up.trans (heapSiftDown_arranged up.indexed place)
  apply And.intro arranged
  unfold HeapOrdered
  rw [arranged.heapLen]
  change Ordered (heapArray.key (heapArray.siftDown (heapSiftUp s (s.hidx ev)).heapLen _ _)) s.heapLen
  rw [up.heapLen]
  apply resift_ordered displaced below
  intro same
  exact congrArg (fun t => State.hidx t ev) same

structure Stored (s : State) : Prop where
  indexed : Indexed s
  allocated : ∀ ev, s.Queued ev → ev < s.fresh
  tagged : ∀ ev, s.Queued ev → (s.entries ev).modName = (s.entries ev).owner.map (opStrndup · evNameLen)

structure Inv (s : State) : Prop extends Stored s where
  ordered : HeapOrdered s

lemma Stored.arranged (stored : Stored s) (arranged : Arranged s s') : Stored s' where
  indexed := arranged.indexed
  allocated ev queued := by
    rw [arranged.fresh]
    exact stored.allocated ev ((arranged.queued ev).mp queued)
  tagged ev queued := by
    rw [arranged.entries]
    exact stored.tagged ev ((arranged.queued ev).mp queued)

lemma Stored.inv (stored : Stored s) (arranged : Arranged s s') (ordered : HeapOrdered s') : Inv s' :=
  { stored.arranged arranged with ordered := ordered }

lemma init_inv : Inv State.init where
  indexed _ bad := absurd bad (Nat.not_lt_zero _)
  allocated _ queued := absurd queued.choose_spec.1 (Nat.not_lt_zero _)
  tagged _ queued := absurd queued.choose_spec.1 (Nat.not_lt_zero _)
  ordered _ _ bad _ := absurd bad (Nat.not_lt_zero _)

lemma Inv.add (inv : Inv s) (now : Int) (name : Name) (func arg : Nat) (when frequency : Int) :
    Inv (opEventAddCommon s now name func arg when frequency).1 := by
  unfold opEventAddCommon
  generalize shape : Entry.mk func arg (opStrndup name evNameLen) frequency (timeT (now + when)) false
    (s.currentLoadingModule.map (opStrndup · evNameLen)) s.currentLoadingModule = e
  have own : e.modName = e.owner.map (opStrndup · evNameLen) := by rw [← shape]
  let t : State := { s with
    entries := Function.update s.entries s.fresh e
    fresh := s.fresh + 1
    heap := Function.update s.heap s.heapLen s.fresh
    hidx := Function.update s.hidx s.fresh s.heapLen
    heapLen := s.heapLen + 1 }
  have old {k : Nat} (below : k < s.heapLen) : t.heap k = s.heap k ∧ s.heap k ≠ s.fresh :=
    ⟨update_of_ne (Nat.ne_of_lt below) _ _, Nat.ne_of_lt (inv.allocated _ ⟨k, below, rfl⟩)⟩
  have new : t.heap s.heapLen = s.fresh := update_self _ _ _
  have entry {k : Nat} (below : k < s.heapLen) : t.entries (t.heap k) = s.entries (s.heap k) := by
    rw [(old below).1]
    exact update_of_ne (old below).2 _ _
  have cases {k : Nat} (below : k < t.heapLen) : k < s.heapLen ∨ k = s.heapLen :=
    Nat.lt_or_eq_of_le (le_of_lt_succ below)
  have stored : Stored t :=
    { indexed := by
        intro k below
        rcases cases below with before | last
        · rw [(old before).1]
          exact (update_of_ne (old before).2 _ _).trans (inv.indexed k before)
        · rw [last, new]
          exact update_self _ _ _
      allocated := by
        intro ev queued
        obtain ⟨k, below, rfl⟩ := queued
        rcases cases below with before | last
        · rw [(old before).1]
          exact lt_succ_of_lt (inv.allocated _ ⟨k, before, rfl⟩)
        · rw [last, new]
          exact lt_succ_self _
      tagged := by
        intro ev queued
        obtain ⟨k, below, rfl⟩ := queued
        rcases cases below with before | last
        · rw [entry before]
          exact inv.tagged _ ⟨k, before, rfl⟩
        · rw [last, new]
          change (Function.update s.entries s.fresh e s.fresh).modName = _
          rw [show t.entries s.fresh = e from update_self _ _ _, update_self]
          exact own }
  have rising : Rising (heapArray.key t) t.heapLen s.heapLen :=
    { edges := by
        intro k pos below differs
        have before : k < s.heapLen := (cases below).resolve_right differs
        change (t.entries (t.heap _)).when ≤ (t.entries (t.heap _)).when
        rw [entry before, entry (Nat.lt_of_le_of_lt (by omega) before)]
        exact inv.ordered.edge pos before
      across := by
        intro _ c _ below beneath
        change c < s.heapLen + 1 at below
        omega }
  have arranged := heapSiftUp_arranged stored.indexed (lt_succ_self s.heapLen)
  apply stored.inv arranged
  unfold HeapOrdered
  rw [arranged.heapLen]
  exact siftUp_ordered (lt_succ_self _) rising

lemma HeapOrdered.shrink (ordered : HeapOrdered s) : Ordered (heapArray.key s) (s.heapLen - 1) :=
  fun _ pos below _ => ordered.edge pos (by omega)

lemma heapRemove_spec (inv : Inv s) (below : i < s.heapLen) :
    Inv (heapRemove s i) ∧ (heapRemove s i).entries = s.entries ∧
      ∀ ev, (heapRemove s i).Queued ev ↔ s.Queued ev ∧ ev ≠ s.heap i := by
  have apart {k : Nat} (inside : k < s.heapLen) (differs : k ≠ i) : s.heap k ≠ s.heap i :=
    fun same => differs (inv.indexed.inj inside below same)
  -- The last element takes the place of the removed one, which may be itself.
  have queued {t : State} (length : t.heapLen = s.heapLen - 1) (self : t.heap i = s.heap (s.heapLen - 1))
      (other : ∀ k ≠ i, t.heap k = s.heap k) (ev : Nat) : t.Queued ev ↔ s.Queued ev ∧ ev ≠ s.heap i := by
    constructor
    · intro mem
      obtain ⟨k, inside, rfl⟩ := mem
      by_cases moved : k = i
      · rw [moved, self]
        exact ⟨⟨_, by omega, rfl⟩, apart (by omega) (by omega)⟩
      · rw [other k moved]
        exact ⟨⟨k, by omega, rfl⟩, apart (by omega) moved⟩
    · intro mem
      obtain ⟨⟨k, inside, rfl⟩, differs⟩ := mem
      have moved : k ≠ i := fun same => differs (congrArg s.heap same)
      by_cases last : k = s.heapLen - 1
      · exact ⟨i, by omega, by rw [self, last]⟩
      · exact ⟨k, by omega, other k moved⟩
  unfold heapRemove
  split
  next last =>
    have queued := queued (t := { s with heapLen := s.heapLen - 1 }) rfl (congrArg s.heap last) fun _ _ => rfl
    apply And.intro _ ⟨rfl, queued⟩
    exact
      { indexed := fun k inside => inv.indexed k (Nat.lt_of_lt_of_le inside (sub_le _ _))
        allocated := fun ev mem => inv.allocated ev ((queued ev).mp mem).1
        tagged := fun ev mem => inv.tagged ev ((queued ev).mp mem).1
        ordered := inv.ordered.shrink }
  next inner =>
    let t : State := heapSet { s with heapLen := s.heapLen - 1 } i (s.heap (s.heapLen - 1))
    have place : t.hidx (s.heap (s.heapLen - 1)) = i := update_self _ _ _
    have self : t.heap i = s.heap (s.heapLen - 1) := update_self _ _ _
    have other (k : Nat) (differs : k ≠ i) : t.heap k = s.heap k := update_of_ne differs _ _
    have queued := queued (t := t) rfl self other
    have stored : Stored t :=
      { indexed := by
          intro k inside
          change k < s.heapLen - 1 at inside
          by_cases moved : k = i
          · rw [moved, self]
            exact place
          · rw [other k moved]
            have differs : s.heap k ≠ s.heap (s.heapLen - 1) := by
              intro same
              have := inv.indexed.inj (by omega) (by omega) same
              omega
            exact (update_of_ne differs _ _).trans (inv.indexed k (by omega))
        allocated := fun ev mem => inv.allocated ev ((queued ev).mp mem).1
        tagged := fun ev mem => inv.tagged ev ((queued ev).mp mem).1 }
    have displaced : Displaced (heapArray.key t) t.heapLen i := by
      apply inv.ordered.shrink.displaced
      · intro k _ differs
        change (s.entries (t.heap k)).when = _
        rw [other k differs]
        rfl
      · omega
    have resifted := heapResift_spec stored.indexed ⟨i, by change i < s.heapLen - 1; omega, self⟩
      (place.symm ▸ displaced)
    have result : heapResift t (s.heap (s.heapLen - 1)) =
        heapSiftDown (heapSiftUp t i) ((heapSiftUp t i).hidx (s.heap (s.heapLen - 1))) := by
      rw [heapResift, place]
    rw [result] at resifted
    refine ⟨stored.inv resifted.1 resifted.2, resifted.1.entries, ?_⟩
    exact fun ev => (resifted.1.queued ev).trans (queued ev)

lemma setEntry_self (s : State) (ev : Nat) (f : Entry → Entry) : (s.setEntry ev f).entries ev = f (s.entries ev) :=
  update_self _ _ _

lemma setEntry_of_ne (s : State) (f : Entry → Entry) (differs : other ≠ ev) :
    (s.setEntry ev f).entries other = s.entries other := update_of_ne differs _ _

variable {f : Entry → Entry}

lemma Stored.setEntry (stored : Stored s) (modName : ∀ e, (f e).modName = e.modName)
    (owner : ∀ e, (f e).owner = e.owner) (ev : Nat) : Stored (s.setEntry ev f) where
  indexed := stored.indexed
  allocated := stored.allocated
  tagged other queued := by
    have tagged := stored.tagged other queued
    by_cases same : other = ev
    · rw [same] at tagged ⊢
      rw [setEntry_self, modName, owner]
      exact tagged
    · rw [setEntry_of_ne s f same]
      exact tagged

lemma Inv.resift (inv : Inv s) (f : Entry → Entry) (modName : ∀ e, (f e).modName = e.modName)
    (owner : ∀ e, (f e).owner = e.owner) (queued : s.Queued ev) :
    Arranged (s.setEntry ev f) (heapResift (s.setEntry ev f) ev) ∧ Inv (heapResift (s.setEntry ev f) ev) := by
  have stored := inv.toStored.setEntry modName owner ev
  obtain ⟨below, place⟩ := inv.indexed.place queued
  have displaced : Displaced (heapArray.key (s.setEntry ev f)) s.heapLen (s.hidx ev) := by
    apply inv.ordered.displaced
    · intro k inside differs
      have apart : s.heap k ≠ ev := fun same => differs (inv.indexed.inj inside below (same.trans place.symm))
      change ((s.setEntry ev f).entries (s.heap k)).when = _
      rw [setEntry_of_ne s f apart]
      rfl
    · exact below
  obtain ⟨arranged, ordered⟩ := heapResift_spec stored.indexed queued displaced
  exact ⟨arranged, stored.inv arranged ordered⟩

lemma Inv.setEntry (inv : Inv s) (modName : ∀ e, (f e).modName = e.modName)
    (owner : ∀ e, (f e).owner = e.owner) (when : ∀ e, (f e).when = e.when) (ev : Nat) : Inv (s.setEntry ev f) := by
  have key (k : Nat) : heapArray.key (s.setEntry ev f) k = heapArray.key s k := by
    change ((s.setEntry ev f).entries (s.heap k)).when = (s.entries (s.heap k)).when
    by_cases same : s.heap k = ev
    · rw [same, setEntry_self, when]
    · rw [setEntry_of_ne s f same]
  apply (inv.toStored.setEntry modName owner ev).inv (Arranged.refl inv.indexed)
  intro k pos below low
  rw [key, key]
  exact inv.ordered k pos below low

lemma Inv.delete (inv : Inv s) (ev : Nat) : Inv (opEventDelete s ev) := by
  apply inv.setEntry <;> exact fun _ => rfl

lemma Inv.findDelete (inv : Inv s) (func arg : Nat) : Inv (opEventFindDelete s func arg) := by
  unfold opEventFindDelete
  split
  · exact inv.delete _
  · exact inv

lemma Inv.setBackEvents (inv : Inv s) (by' : Int) : Inv (opSetBackEvents s by') := by
  have loop (indices : List Nat) {t : State} (stored : Stored t) :
      Stored (indices.foldl (fun s i => s.setEntry (s.heap i) (setBack by')) t) := by
    induction indices generalizing t with
    | nil => exact stored
    | cons i rest ih =>
      apply ih
      apply stored.setEntry <;> exact fun _ => rfl
  have stored := loop (List.range s.heapLen) inv.toStored
  exact stored.inv (heapRebuild_arranged stored.indexed) (heapRebuild_ordered stored.indexed)

structure Compacted (modName : Name) (s t : State) (newLen i : Nat) : Prop where
  entries : t.entries = s.entries
  fresh : t.fresh = s.fresh
  atMost : newLen ≤ i
  rest : ∀ j, i ≤ j → t.heap j = s.heap j
  indexed : ∀ k, k < newLen → t.hidx (t.heap k) = k
  kept : ∀ ev, (∃ k, k < newLen ∧ t.heap k = ev) ↔
    (∃ j, j < i ∧ s.heap j = ev) ∧ (s.entries ev).modName ≠ some modName

lemma Compacted.drop (compacted : Compacted modName s t newLen i)
    (purged : (s.entries (s.heap i)).modName = some modName) : Compacted modName s t newLen (i + 1) :=
  { compacted with
    atMost := le_succ_of_le compacted.atMost
    rest := fun j above => compacted.rest j (le_of_succ_le above)
    kept := by
      intro ev
      rw [compacted.kept, Nat.exists_lt_succ_right]
      grind }

lemma Compacted.keep (compacted : Compacted modName s t newLen i) (indexed : Indexed s) (below : i < s.heapLen)
    (stays : (s.entries (s.heap i)).modName ≠ some modName) :
    Compacted modName s (heapSet t newLen (s.heap i)) (newLen + 1) (i + 1) := by
  have atMost := compacted.atMost
  have old {k : Nat} (before : k < newLen) : (heapSet t newLen (s.heap i)).heap k = t.heap k :=
    update_of_ne (Nat.ne_of_lt before) _ _
  have new : (heapSet t newLen (s.heap i)).heap newLen = s.heap i := update_self _ _ _
  exact
    { compacted with
      atMost := succ_le_succ atMost
      rest := by
        intro j above
        change Function.update t.heap newLen (s.heap i) j = s.heap j
        rw [update_of_ne (by omega)]
        exact compacted.rest j (by omega)
      indexed := by
        intro k before
        change Function.update t.hidx (s.heap i) newLen _ = k
        rcases Nat.lt_succ_iff_lt_or_eq.mp before with earlier | last
        · obtain ⟨⟨j, inside, found⟩, -⟩ := (compacted.kept (t.heap k)).mp ⟨k, earlier, rfl⟩
          have apart : t.heap k ≠ s.heap i := by
            intro same
            have := indexed.inj (by omega) below (found.trans same)
            omega
          rw [old earlier, update_of_ne apart]
          exact compacted.indexed k earlier
        · rw [last, new, update_self]
      kept := by
        intro ev
        have same : (∃ k, k < newLen ∧ (heapSet t newLen (s.heap i)).heap k = ev) ↔ ∃ k, k < newLen ∧ t.heap k = ev :=
          exists_congr fun k => and_congr_right fun before => by rw [old before]
        rw [Nat.exists_lt_succ_right, Nat.exists_lt_succ_right, same, new, compacted.kept]
        grind }

lemma purgeLoop_compacted (indexed : Indexed s) {count : Nat} (inside : i + count ≤ s.heapLen)
    (compacted : Compacted modName s t newLen i) :
    Compacted modName s (purgeLoop modName (List.range' i count) t newLen).1
      (purgeLoop modName (List.range' i count) t newLen).2 (i + count) := by
  induction count generalizing i t newLen with
  | zero => exact compacted
  | succ count ih =>
    have here : t.heap i = s.heap i := compacted.rest i (Nat.le_refl i)
    rw [List.range'_succ, purgeLoop, here, compacted.entries, ← Nat.add_assoc, Nat.add_right_comm]
    split
    next purged => exact ih (by omega) (compacted.drop purged)
    next stays => exact ih (by omega) (compacted.keep indexed (by omega) stays)

lemma purge_spec (stored : Stored s) (modName : Name) :
    Inv (opEventPurgeModule s (some modName)) ∧ (opEventPurgeModule s (some modName)).entries = s.entries ∧
      ∀ ev, (opEventPurgeModule s (some modName)).Queued ev ↔
        s.Queued ev ∧ (s.entries ev).modName ≠ some modName := by
  have start : Compacted modName s s 0 0 :=
    { entries := rfl
      fresh := rfl
      atMost := le_rfl
      rest := fun _ _ => rfl
      indexed := fun _ bad => absurd bad (Nat.not_lt_zero _)
      kept := fun _ => iff_of_false (fun found => Nat.not_lt_zero _ found.choose_spec.1)
        fun found => Nat.not_lt_zero _ found.1.choose_spec.1 }
  have done := purgeLoop_compacted stored.indexed (Nat.le_of_eq (Nat.zero_add s.heapLen)) start
  rw [← List.range_eq_range', Nat.zero_add] at done
  generalize shape : purgeLoop modName (List.range s.heapLen) s 0 = result at done
  let t : State := { result.1 with heapLen := result.2 }
  have result_eq : opEventPurgeModule s (some modName) = if t.heapLen > 1 then heapRebuild t else t := by
    unfold opEventPurgeModule
    dsimp only
    rw [shape]
  have indexed : Indexed t := done.indexed
  have compacted : Stored t :=
    { indexed := indexed
      allocated := by
        intro ev queued
        rw [done.fresh]
        exact stored.allocated ev ((done.kept ev).mp queued).1
      tagged := by
        intro ev queued
        rw [show t.entries = s.entries from done.entries]
        exact stored.tagged ev ((done.kept ev).mp queued).1 }
  have rebuilt : Arranged t (opEventPurgeModule s (some modName)) ∧
      HeapOrdered (opEventPurgeModule s (some modName)) := by
    rw [result_eq]
    split
    · exact ⟨heapRebuild_arranged indexed, heapRebuild_ordered indexed⟩
    next single => exact ⟨Arranged.refl indexed, fun _ _ below _ => absurd below (by omega)⟩
  refine ⟨compacted.inv rebuilt.1 rebuilt.2, rebuilt.1.entries.trans done.entries, ?_⟩
  exact fun ev => (rebuilt.1.queued ev).trans (done.kept ev)

lemma Inv.call (inv : Inv s) (c : Call) : Inv (s.call c) := by
  cases c with
  | load modName => exact { inv with }
  | add now name func arg when => exact inv.add now name func arg _ _
  | addonce now name func arg when | addish now draw name func arg deltaIsh => exact inv.add now name func arg _ _
  | delete ev =>
    rw [State.call]
    split
    · exact inv.delete ev
    · exact inv
  | findDelete func arg => exact inv.findDelete func arg
  | update now draw ev freq =>
    rw [State.call]
    split
    next queued =>
      apply And.right
      exact inv.resift _ (fun _ => rfl) (fun _ => rfl) queued
    · exact inv
  | purgeModule modName =>
    cases modName with
    | none => exact inv
    | some modName => exact (purge_spec inv.toStored modName).1
  | setBackEvents by' => exact inv.setBackEvents by'

end LibOp.Event

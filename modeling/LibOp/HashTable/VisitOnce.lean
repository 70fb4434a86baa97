import LibOp.HashTable.Iteration

namespace LibOp.HashTable

open Foundation Multiset

variable {K V : Type}

def pairOf (s : HtabSlot K V) : K × V := (s.key, s.val)

def chosen (choose : K → V → Bool) (s : HtabSlot K V) : Bool := choose s.key s.val

/-- At `idx`, a wrapped entry is or was kept, and an entry to come is deleted although no later slot holds an entry in
its ideal bucket. -/
def Revisits (mask : Nat) (slots : Nat → HtabSlot K V) (choose : K → V → Bool) (idx : Nat) : Prop :=
  (∃ i < mask + 1, Wrapped mask slots i ∧ (i < idx ∨ chosen choose (slots i) = false)) ∧
    ∃ i < mask + 1, idx ≤ i ∧ (slots i).hash ≠ 0 ∧ chosen choose (slots i) = true ∧
      ∀ k, i < k → k < mask + 1 → ¬ AtHome mask slots k

variable {n : Nat}

section

variable {mask i : Nat} {slots : Nat → HtabSlot K V} {choose : K → V → Bool} {idx : Nat}

lemma revisits_finished (empty : ∀ k, idx ≤ k → k < mask + 1 → (slots k).hash = 0) :
    ¬ Revisits mask slots choose idx := by
  rintro ⟨-, i, position, low, live, -⟩
  exact live (empty i low position)

lemma revisits_skip (low : idx ≤ i) (before : ∀ k, idx ≤ k → k < i → (slots k).hash = 0) :
    Revisits mask slots choose i ↔ Revisits mask slots choose idx := by
  constructor
  · rintro ⟨⟨w, inside, wrapped, kept⟩, p, position, later, rest⟩
    refine ⟨⟨w, inside, wrapped, kept.imp_left fun early => ?_⟩, p, position, by omega, rest⟩
    by_contra notYet
    exact wrapped.1 (before w (by omega) early)
  · rintro ⟨⟨w, inside, wrapped, kept⟩, p, position, later, live, rest⟩
    refine ⟨⟨w, inside, wrapped, kept.imp_left fun early => by omega⟩, p, position, ?_, live, rest⟩
    by_contra notYet
    exact live (before p later (by omega))

lemma revisits_keep (kept : chosen choose (slots i) = false) :
    Revisits mask slots choose (i + 1) ↔ Revisits mask slots choose i := by
  constructor
  · rintro ⟨⟨w, inside, wrapped, earlier⟩, p, position, later, rest⟩
    refine ⟨⟨w, inside, wrapped, ?_⟩, p, position, by omega, rest⟩
    rcases earlier with early | skipped
    · rcases Nat.eq_or_lt_of_le (Nat.le_of_lt_succ early) with rfl | before
      · exact .inr kept
      · exact .inl before
    · exact .inr skipped
  · rintro ⟨⟨w, inside, wrapped, earlier⟩, p, position, later, live, picked, rest⟩
    refine ⟨⟨w, inside, wrapped, earlier.imp_left fun early => by omega⟩, p, position, ?_, live, picked, rest⟩
    rcases Nat.eq_or_lt_of_le later with rfl | after
    · rw [kept] at picked
      cases picked
    · exact after

section

variable {slots' : Nat → HtabSlot K V} (ok : MaskOk mask)

include ok

lemma ShiftsWithin.wrapped_iff (within : ShiftsWithin mask slots slots' i n) (low : i ≤ k) (high : k < n) :
    Wrapped mask slots' k ↔ Wrapped mask slots (k + 1) := by
  obtain ⟨same, live, away⟩ := within.moved k low high
  have inside := within.inside
  rw [Ne, dib_eq_zero ok (by omega)] at away
  simp only [Wrapped, same]
  constructor
  · rintro ⟨-, behind⟩
    exact ⟨live, by omega⟩
  · rintro ⟨-, behind⟩
    exact ⟨live, by omega⟩

lemma ShiftsWithin.revisits_of_after (within : ShiftsWithin mask slots slots' i n)
    (again : Revisits mask slots' choose i) : Revisits mask slots choose i := by
  have inside := within.inside
  obtain ⟨⟨w, wLt, wrapped, kept⟩, p, pLt, later, live, picked, noHome⟩ := again
  have notCleared : ∀ k, (slots' k).hash ≠ 0 → k ≠ n := by
    rintro k full rfl
    exact full within.cleared
  constructor
  · have wn := notCleared w wrapped.1
    by_cases middle : i ≤ w ∧ w < n
    · refine ⟨w + 1, by omega, (within.wrapped_iff ok middle.1 middle.2).mp wrapped, .inr ?_⟩
      rw [← (within.moved w middle.1 middle.2).1]
      exact kept.resolve_left (by omega)
    · have same := within.kept w (by omega)
      rw [Wrapped, same] at wrapped
      rw [same] at kept
      exact ⟨w, wLt, wrapped, kept⟩
  · have pn := notCleared p live
    by_cases middle : p < n
    · obtain ⟨same, fullNext, -⟩ := within.moved p later middle
      refine ⟨p + 1, by omega, by omega, fullNext, by rwa [← same], fun k above below home => ?_⟩
      by_cases near : k ≤ n
      · have away := (within.moved (k - 1) (by omega) (by omega)).2.2
        rw [show k - 1 + 1 = k by omega] at away
        exact away home.2
      · apply noHome k (by omega) below
        rwa [AtHome, within.kept k (by omega)]
    · have same := within.kept p (by omega)
      rw [same] at live picked
      refine ⟨p, pLt, later, live, picked, fun k above below home => noHome k above below ?_⟩
      rwa [AtHome, within.kept k (by omega)]

lemma ShiftsWithin.revisits_of_before (ordered : Ordered (mask + 1) (reachAt mask slots))
    (picked : chosen choose (slots i) = true) (within : ShiftsWithin mask slots slots' i n)
    (will : Revisits mask slots choose i) : Revisits mask slots' choose i := by
  have inside := within.inside
  obtain ⟨⟨w, wLt, wrapped, kept⟩, p, pLt, later, live, pickedLater, noHome⟩ := will
  -- The slot where the shift stopped would otherwise rule out every wrapped entry.
  have beyond : n < p := by
    by_contra notBeyond
    have stop := within.stop
    rw [next_eq inside] at stop
    split at stop
    next => exact not_wrapped_of_start ok ordered (reachAt_le_one stop) wLt wrapped
    next inner =>
      rcases stop with empty | home
      · exact not_wrapped_of_gap ok ordered (show n + 1 < mask + 1 by omega) empty
          (fun k above below => noHome k (by omega) below) wLt wrapped
      · by_cases empty : (slots (n + 1)).hash = 0
        · exact not_wrapped_of_gap ok ordered (show n + 1 < mask + 1 by omega) empty
            (fun k above below => noHome k (by omega) below) wLt wrapped
        · exact noHome (n + 1) (by omega) (by omega) ⟨empty, home⟩
  constructor
  · by_cases middle : i < w ∧ w ≤ n
    · have step := within.wrapped_iff ok (k := w - 1) (by omega) (by omega)
      have same := (within.moved (w - 1) (by omega) (by omega)).1
      rw [show w - 1 + 1 = w by omega] at step same
      refine ⟨w - 1, by omega, step.mpr wrapped, .inr ?_⟩
      rw [same]
      exact kept.resolve_left (by omega)
    · have other : w ≠ i := by
        rintro rfl
        rw [picked] at kept
        rcases kept with early | skipped
        · omega
        · cases skipped
      have same := within.kept w (by omega)
      refine ⟨w, wLt, ?_, by rwa [same]⟩
      rwa [Wrapped, same]
  · have same := within.kept p (by omega)
    refine ⟨p, pLt, later, by rwa [same], by rwa [same], fun k above below home => noHome k above below ?_⟩
    rwa [AtHome, within.kept k (by omega)] at home

lemma ShiftsAcross.revisits (across : ShiftsAcross mask slots slots' i vacant)
    (position : i < mask + 1) (live : (slots i).hash ≠ 0) (picked : chosen choose (slots i) = true) :
    Revisits mask slots choose i := by
  have beyond := across.beyond
  obtain ⟨front, away⟩ := across.front
  rw [Ne, dib_eq_zero ok (by omega)] at away
  exact ⟨⟨0, by omega, ⟨front, by omega⟩, .inl (by omega)⟩, i, position, Nat.le_refl i, live, picked,
    fun k above below home => (across.tail k above below).2 home.2⟩

end

/-- The entries from slot `idx` on are visited, and no others unless one comes back. -/
structure Visits (mask : Nat) (slots : Nat → HtabSlot K V) (choose : K → V → Bool) (idx : Nat)
    (visited : Multiset (K × V)) : Prop where
  covers : (remaining mask slots idx).map pairOf ≤ visited
  exact_iff : visited = (remaining mask slots idx).map pairOf ↔ ¬ Revisits mask slots choose idx

lemma visits_finished (empty : ∀ k, idx ≤ k → k < mask + 1 → (slots k).hash = 0) : Visits mask slots choose idx 0 := by
  refine ⟨?_, ?_⟩
  · rw [remaining_empty empty]
    exact Multiset.zero_le _
  · rw [remaining_empty empty]
    exact iff_of_true rfl (revisits_finished empty)

variable {slots' : Nat → HtabSlot K V} {visited : Multiset (K × V)}

lemma Visits.skip (low : idx ≤ i) (position : i < mask + 1) (live : (slots i).hash ≠ 0)
    (before : ∀ k, idx ≤ k → k < i → (slots k).hash = 0) (visits : Visits mask slots choose i visited) :
    Visits mask slots choose idx visited := by
  have same : remaining mask slots idx = remaining mask slots i :=
    (remaining_found low position live before).trans (remaining_live position live).symm
  refine ⟨?_, ?_⟩
  · rw [same]
    exact visits.covers
  · rw [same, visits.exact_iff, revisits_skip low before]

lemma visits_keep (position : i < mask + 1) (live : (slots i).hash ≠ 0)
    (kept : chosen choose (slots i) = false) (later : Visits mask slots choose (i + 1) visited) :
    Visits mask slots choose i (pairOf (slots i) ::ₘ visited) := by
  refine ⟨?_, ?_⟩
  · rw [remaining_live position live, map_cons]
    exact cons_le_cons _ later.covers
  · rw [remaining_live position live, map_cons, cons_inj_right, later.exact_iff, revisits_keep kept]

lemma ShiftsWithin.visits (ok : MaskOk mask) (ordered : Ordered (mask + 1) (reachAt mask slots))
    (position : i < mask + 1) (live : (slots i).hash ≠ 0) (picked : chosen choose (slots i) = true)
    (within : ShiftsWithin mask slots slots' i n) (later : Visits mask slots' choose i visited) :
    Visits mask slots choose i (pairOf (slots i) ::ₘ visited) := by
  obtain ⟨covers, exact_iff⟩ := later
  rw [within.remaining] at covers exact_iff
  refine ⟨?_, ?_⟩
  · rw [remaining_live position live, map_cons]
    exact cons_le_cons _ covers
  · rw [remaining_live position live, map_cons, cons_inj_right, exact_iff, not_iff_not]
    exact ⟨within.revisits_of_after ok, within.revisits_of_before ok ordered picked⟩

lemma ShiftsAcross.visits (ok : MaskOk mask) (position : i < mask + 1)
    (live : (slots i).hash ≠ 0) (picked : chosen choose (slots i) = true)
    (across : ShiftsAcross mask slots slots' i vacant) (later : Visits mask slots' choose i visited) :
    Visits mask slots choose i (pairOf (slots i) ::ₘ visited) := by
  have covers := later.covers
  rw [across.remaining position, map_cons] at covers
  refine ⟨?_, iff_of_false (fun same => ?_) (not_not.mpr (across.revisits ok position live picked))⟩
  · rw [remaining_live position live, map_cons]
    exact cons_le_cons _ ((le_cons_self _ _).trans covers)
  · rw [remaining_live position live, map_cons] at same
    rw [(cons_inj_right _).mp same] at covers
    have longer := card_le_card covers
    rw [card_cons] at longer
    omega

end

variable [Inhabited K] [Inhabited V] {hashFn : K → UInt64} {eqFn : K → K → Bool} {laws : KeyLaws hashFn eqFn}

lemma visitLoop_spec (choose : K → V → Bool) (rounds : Nat)
    (rep : Represents laws ht m) (it : HtabIter) (start : it.idx ≤ ht.mask + 1)
    (enough : ht.count + (ht.mask + 1 - it.idx) < rounds) :
    ∃ visited : List (K × V), visitLoop choose rounds ht it = some visited ∧
      Visits ht.mask ht.slots choose it.idx visited := by
  -- A deletion puts the iterator back on its slot but leaves one entry less, so the bound falls in each round.
  induction rounds generalizing ht m it with
  | zero => omega
  | succ rounds ih =>
    simp only [visitLoop, htabIterNext]
    cases found : iterScan ht (ht.mask + 1 - it.idx) it.idx with
    | none => exact ⟨[], rfl, visits_finished fun k low high => iterScan_none found k low (by omega)⟩
    | some i =>
      obtain ⟨low, high, live, before⟩ := iterScan_some found
      have position : i < ht.mask + 1 := by omega
      by_cases picked : chosen choose (ht.slots i) = true
      · have picked' : choose (ht.slots i).key (ht.slots i).val = true := picked
        obtain ⟨deleted, done, rep'⟩ := rep.delAt position live
        have iterDel : htabIterDel ht ⟨i + 1, some i⟩ = some (deleted, ⟨i, none⟩, (ht.slots i).val) := by
          simp [htabIterDel, live, done, Nat.not_le.mpr position]
        obtain ⟨vacant, vacantLt, empty⟩ := exists_empty (rep.counted ▸ rep.room)
        simp only [htabDelAt, Option.bind_eq_bind, Option.bind_eq_some_iff] at done
        obtain ⟨slots', shifted, made⟩ := done
        cases made
        have pos : 0 < ht.count := by
          rw [rep.counted]
          exact Multiset.card_pos_iff_exists_mem.mpr ⟨_, mem_stored.mpr ⟨⟨i, position, rfl⟩, live⟩⟩
        obtain ⟨visited, ran, later⟩ := ih rep' ⟨i, none⟩ (Nat.le_of_lt position) (by simp only; omega)
        refine ⟨pairOf (ht.slots i) :: visited, by simp [picked', iterDel, ran, pairOf], ?_⟩
        apply Visits.skip low position live before
        rcases shiftLoop_outcome rep.ok vacantLt _ _ _ _ position live empty shifted with
          ⟨n, within, -⟩ | across
        · exact within.visits rep.ok rep.ordered position live picked later
        · exact across.visits rep.ok position live picked later
      · have kept := Bool.of_not_eq_true picked
        have kept' : choose (ht.slots i).key (ht.slots i).val = false := kept
        obtain ⟨visited, ran, later⟩ := ih rep ⟨i + 1, some i⟩ position (by simp only; omega)
        refine ⟨pairOf (ht.slots i) :: visited, by simp [kept', ran, pairOf], ?_⟩
        exact Visits.skip low position live before (visits_keep position live kept later)

def KeepsWrapped (ht : Htab K V) (choose : K → V → Bool) : Prop :=
  ∃ i < ht.mask + 1, Wrapped ht.mask ht.slots i ∧ chosen choose (ht.slots i) = false

def DeletesTail (ht : Htab K V) (choose : K → V → Bool) : Prop :=
  ∃ i < ht.mask + 1, (ht.slots i).hash ≠ 0 ∧ chosen choose (ht.slots i) = true ∧
    ∀ k, i < k → k < ht.mask + 1 → ¬ AtHome ht.mask ht.slots k

omit [Inhabited K] [Inhabited V] in
lemma revisits_start (ht : Htab K V) (choose : K → V → Bool) :
    Revisits ht.mask ht.slots choose 0 ↔ KeepsWrapped ht choose ∧ DeletesTail ht choose := by
  simp only [Revisits, KeepsWrapped, DeletesTail, Nat.not_lt_zero, Nat.zero_le, false_or, true_and]

def htabEntries (ht : Htab K V) : Multiset (K × V) := (stored ht.mask ht.slots).map pairOf

/-- Iterating with deletions ends and misses nothing. It returns an entry twice exactly when it keeps a wrapped entry
and deletes one of the tail. -/
theorem iteration_visits_once_iff (laws : KeyLaws hashFn eqFn) (initialCap : Nat)
    (bound : initialCap ≤ 2 ^ 62) (ops : List (HtabOp K V)) (bounded : Addressable laws ∅ ops)
    (ht : Htab K V) (replies : List (HtabReply V))
    (reached : htabRun (htabCreate hashFn eqFn initialCap) ops = some (ht, replies)) (choose : K → V → Bool) :
    ∃ visited, visitAll choose ht = some visited ∧ htabEntries ht ≤ visited ∧
      ((visited : Multiset (K × V)) = htabEntries ht ↔ ¬ (KeepsWrapped ht choose ∧ DeletesTail ht choose)) := by
  obtain ⟨ht', ran, rep⟩ := (create_represents laws bound).run bounded
  rw [reached] at ran
  cases ran
  obtain ⟨visited, done, covers, exact_iff⟩ := visitLoop_spec choose (ht.count + (ht.mask + 1) + 1) rep
    htabIterInit (Nat.zero_le _) (by simp only [htabIterInit]; omega)
  rw [htabIterInit, remaining, ← Finset.range_eq_Ico] at covers
  rw [htabIterInit, revisits_start, remaining, ← Finset.range_eq_Ico] at exact_iff
  exact ⟨visited, done, covers, exact_iff⟩

def lowBitsHash (n : Nat) : UInt64 := UInt64.ofNat n

def sameNat (a b : Nat) : Bool := decide (a = b)

lemma lowBits_laws : KeyLaws lowBitsHash sameNat where
  refl _ := decide_eq_true rfl
  symm _ _ same := decide_eq_true (of_decide_eq_true same).symm
  trans _ _ _ first second := decide_eq_true ((of_decide_eq_true first).trans (of_decide_eq_true second))
  hash _ _ same := congrArg lowBitsHash (of_decide_eq_true same)

def straddleOps : List (HtabOp Nat Nat) := [.set 15 1, .set 31 2]

theorem iteration_visits_once_iff_straddle :
    ∃ ht replies, htabRun (htabCreate lowBitsHash sameNat 0) straddleOps = some (ht, replies) ∧
      ∃ visited, visitAll (fun key _ => decide (key = 31)) ht = some visited ∧ htabEntries ht ≤ visited ∧
        ((visited : Multiset (Nat × Nat)) = htabEntries ht ↔ ¬ (KeepsWrapped ht (fun key _ => decide (key = 31)) ∧
            DeletesTail ht (fun key _ => decide (key = 31)))) := by
  have short := addressable_of_short lowBits_laws ∅ straddleOps (by simp [straddleOps])
  obtain ⟨⟨ht, replies⟩, ran⟩ : ∃ result, htabRun (htabCreate lowBitsHash sameNat 0) straddleOps = some result :=
    Option.isSome_iff_exists.mp (by decide)
  exact ⟨ht, replies, ran, iteration_visits_once_iff lowBits_laws 0 (by decide) straddleOps short ht
    replies ran _⟩

/-- Deleting key 15 moves key 31 from slot 0 to slot 15, where it is returned again. -/
theorem iteration_returns_twice :
    ∃ ht replies, htabRun (htabCreate lowBitsHash sameNat 0) straddleOps = some (ht, replies) ∧
      visitAll (fun key _ => decide (key = 15)) ht = some [(31, 2), (15, 1), (31, 2)] ∧
      (htabEntries ht).card = 2 := by
  have short := addressable_of_short lowBits_laws ∅ straddleOps (by simp [straddleOps])
  obtain ⟨ht, ran, rep⟩ := (create_represents lowBits_laws (show 0 ≤ 2 ^ 62 by decide)).run short
  have computed : (htabRun (htabCreate lowBitsHash sameNat 0) straddleOps).map
      (fun result => (visitAll (fun key _ => decide (key = 15)) result.1, result.1.count)) =
        some (some [(31, 2), (15, 1), (31, 2)], 2) := by decide
  rw [ran, Option.map_some, Option.some.injEq, Prod.mk.injEq] at computed
  refine ⟨ht, _, ran, computed.1, ?_⟩
  rw [htabEntries, card_map, ← rep.counted, computed.2]

end LibOp.HashTable

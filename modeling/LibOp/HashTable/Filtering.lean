import LibOp.HashTable.VisitOnce

namespace LibOp.HashTable

open Foundation Multiset Nat

variable {K V : Type}

section

variable [Inhabited K] [Inhabited V]

/-- `op_htab_iter_next` until it returns false, with `op_htab_iter_del` on the entries of `remove`. There is no result
after too many rounds. -/
def filterLoop (remove : K → V → Bool) : Nat → Htab K V → HtabIter → Option (Htab K V)
  | 0, _, _ => none
  | rounds + 1, ht, it =>
    match htabIterNext ht it with
    | (_, none) => some ht
    | (next, some (key, val)) =>
      if remove key val then do
        let (deleted, rewound, _) ← htabIterDel ht next
        filterLoop remove rounds deleted rewound
      else filterLoop remove rounds ht next

def filterAll (remove : K → V → Bool) (ht : Htab K V) : Option (Htab K V) :=
  filterLoop remove (ht.count + (ht.mask + 1) + 1) ht htabIterInit

/-- What the public operations lead to; `op_htab_merge` is a sequence of `op_htab_set`. No address space holds the slots
of `2 ^ 61` entries. -/
inductive HtabReachable (hashFn : K → UInt64) (eqFn : K → K → Bool) : Htab K V → Prop
  | create (initialCap : Nat) (bound : initialCap ≤ 2 ^ 62) :
      HtabReachable hashFn eqFn (htabCreate hashFn eqFn initialCap)
  | step {ht next : Htab K V} (op : HtabOp K V) (reply : HtabReply V) (reached : HtabReachable hashFn eqFn ht)
      (few : ht.count < 2 ^ 61) (stepped : htabStep ht op = some (next, reply)) : HtabReachable hashFn eqFn next
  | iterDel {ht next : Htab K V} (it rewound : HtabIter) (val : V) (reached : HtabReachable hashFn eqFn ht)
      (deleted : htabIterDel ht it = some (next, rewound, val)) : HtabReachable hashFn eqFn next

variable {hashFn : K → UInt64} {eqFn : K → K → Bool} {ht : Htab K V}

lemma HtabReachable.represents (laws : KeyLaws hashFn eqFn) (reached : HtabReachable hashFn eqFn ht) :
    ∃ m : KeyMap laws V, Represents laws ht m := by
  induction reached with
  | create initialCap bound => exact ⟨∅, create_represents laws bound⟩
  | step op reply _ few stepped ih =>
    obtain ⟨m, rep⟩ := ih
    rw [← rep.card] at few
    obtain ⟨next, done, rep'⟩ := rep.step few op
    rw [stepped] at done
    cases done
    exact ⟨_, rep'⟩
  | @iterDel ht next it rewound val _ deleted ih =>
    obtain ⟨m, rep⟩ := ih
    unfold htabIterDel at deleted
    cases cur : it.cur with
    | none =>
      simp only [cur, Option.some.injEq, Prod.mk.injEq] at deleted
      rw [← deleted.1]
      exact ⟨m, rep⟩
    | some i =>
      simp only [cur] at deleted
      by_cases idle : i ≥ ht.mask + 1 ∨ (ht.slots i).hash = 0
      · rw [if_pos idle, Option.some.injEq, Prod.mk.injEq] at deleted
        rw [← deleted.1]
        exact ⟨m, rep⟩
      · rw [not_or, not_le] at idle
        obtain ⟨after, done, rep'⟩ := rep.delAt idle.1 idle.2
        rw [if_neg (by rw [not_or, not_le]; exact idle), done] at deleted
        simp only [Option.bind_eq_bind, Option.bind_some, Option.some.injEq, Prod.mk.injEq] at deleted
        rw [← deleted.1]
        exact ⟨_, rep'⟩

lemma HtabReachable.run (laws : KeyLaws hashFn eqFn) {m : KeyMap laws V} (rep : Represents laws ht m)
    (reached : HtabReachable hashFn eqFn ht) {ops : List (HtabOp K V)} (bounded : Addressable laws m ops)
    {last : Htab K V} {replies : List (HtabReply V)} (ran : htabRun ht ops = some (last, replies)) :
    HtabReachable hashFn eqFn last := by
  induction ops generalizing ht m replies with
  | nil =>
    cases ran
    exact reached
  | cons op rest ih =>
    obtain ⟨next, stepped, rep'⟩ := rep.step bounded.1 op
    obtain ⟨final, others, -⟩ := rep'.run bounded.2
    have few : m.keys.card < 2 ^ 61 := bounded.1
    rw [rep.card] at few
    simp only [htabRun, stepped, others, Option.bind_eq_bind, Option.bind_some, Option.some.injEq, Prod.mk.injEq] at ran
    rw [ran.1] at others
    exact ih rep' (.step op _ reached few stepped) bounded.2 others

end

section

variable {mask i idx : Nat} {slots slots' : Nat → HtabSlot K V}

def behind (slots : Nat → HtabSlot K V) (idx : Nat) : Multiset (HtabSlot K V) :=
  bag cell (Finset.range idx) slots

lemma behind_add_remaining (slots : Nat → HtabSlot K V) (inside : idx ≤ mask + 1) :
    behind slots idx + remaining mask slots idx = stored mask slots := by
  exact Finset.sum_range_add_sum_Ico _ inside

lemma behind_skip (low : idx ≤ i) (position : i < mask + 1) (live : (slots i).hash ≠ 0)
    (before : ∀ k, idx ≤ k → k < i → (slots k).hash = 0) : behind slots i = behind slots idx := by
  have same : remaining mask slots idx = remaining mask slots i :=
    (remaining_found low position live before).trans (remaining_live position live).symm
  have first := behind_add_remaining slots (show idx ≤ mask + 1 by omega)
  have second := behind_add_remaining slots (le_of_lt position)
  rw [same, ← second] at first
  exact (add_right_cancel first).symm

lemma behind_keep (position : i < mask + 1) (live : (slots i).hash ≠ 0) :
    behind slots (i + 1) = slots i ::ₘ behind slots i := by
  have first := behind_add_remaining slots (le_of_lt position)
  have second := behind_add_remaining slots (show i + 1 ≤ mask + 1 from position)
  rw [remaining_live position live, ← second, add_cons, ← cons_add] at first
  exact (add_right_cancel first).symm

lemma behind_deleted (ok : MaskOk mask) (vacantLt : vacant < mask + 1) (position : i < mask + 1)
    (live : (slots i).hash ≠ 0) (empty : (slots vacant).hash = 0) [Inhabited K] [Inhabited V]
    (shifted : shiftLoop mask rounds slots i = some slots')
    (removed : slots i ::ₘ stored mask slots' = stored mask slots) : behind slots' i ≤ behind slots i := by
  have before := behind_add_remaining slots (le_of_lt position)
  have after := behind_add_remaining slots' (le_of_lt position)
  rw [remaining_live position live, ← removed, add_cons, cons_inj_right, ← after] at before
  rcases shiftLoop_outcome ok vacantLt _ _ _ _ position live empty shifted with ⟨n, within, -⟩ | across
  · rw [within.remaining] at before
    rw [add_right_cancel before]
  · rw [across.remaining position, add_cons, ← cons_add] at before
    rw [add_right_cancel before]
    exact le_cons_self _ _

end

variable [Inhabited K] [Inhabited V] {hashFn : K → UInt64} {eqFn : K → K → Bool} {laws : KeyLaws hashFn eqFn}
  {ht : Htab K V} {m : KeyMap laws V}

lemma Represents.iterDel (rep : Represents laws ht m) (position : i < ht.mask + 1) (live : (ht.slots i).hash ≠ 0) :
    ∃ deleted, htabIterDel ht ⟨i + 1, some i⟩ = some (deleted, ⟨i, none⟩, (ht.slots i).val) ∧
      Represents laws deleted (m.erase (keyClass laws (ht.slots i).key)) ∧ deleted.mask = ht.mask ∧
      deleted.count + 1 = ht.count ∧ ht.slots i ::ₘ stored ht.mask deleted.slots = stored ht.mask ht.slots ∧
      behind deleted.slots i ≤ behind ht.slots i := by
  obtain ⟨vacant, vacantLt, empty⟩ := exists_empty (rep.counted ▸ rep.room)
  obtain ⟨slots', shifted, -, removed⟩ := shiftLoop_spec rep.ok vacantLt (ht.mask + 1) ht.slots i
    position live rep.ordered empty (le_of_lt (displacement_lt vacantLt))
  obtain ⟨deleted, done, rep'⟩ := rep.delAt position live
  have made : deleted = { ht with slots := slots', count := ht.count - 1 } := by
    simpa [htabDelAt, shifted] using done.symm
  have pos : 0 < ht.count := by
    rw [rep.counted, ← removed, card_cons]
    exact succ_pos _
  refine ⟨deleted, ?_, rep', ?_, ?_, ?_, ?_⟩
  · simp [htabIterDel, live, done, not_le.mpr position]
  · rw [made]
  · rw [made]
    show ht.count - 1 + 1 = ht.count
    omega
  · rw [made]
    exact removed
  · rw [made]
    exact behind_deleted rep.ok vacantLt position live empty shifted removed

lemma filterLoop_spec (remove : K → V → Bool) (rounds : Nat)
    (rep : Represents laws ht m) (it : HtabIter) (start : it.idx ≤ ht.mask + 1)
    (enough : ht.count + (ht.mask + 1 - it.idx) < rounds)
    (passed : ∀ s ∈ behind ht.slots it.idx, chosen remove s = false) :
    ∃ ht' m', filterLoop remove rounds ht it = some ht' ∧ Represents laws ht' m' ∧
      stored ht'.mask ht'.slots = (stored ht.mask ht.slots).filter (fun s => chosen remove s = false) := by
  induction rounds generalizing ht m it with
  | zero => omega
  | succ rounds ih =>
    simp only [filterLoop, htabIterNext]
    cases found : iterScan ht (ht.mask + 1 - it.idx) it.idx with
    | none =>
      refine ⟨ht, m, rfl, rep, ?_⟩
      have nothing : remaining ht.mask ht.slots it.idx = 0 :=
        remaining_empty fun k low high => iterScan_none found k low (by omega)
      have whole := behind_add_remaining ht.slots start
      rw [nothing, add_zero] at whole
      rw [← whole, Multiset.filter_eq_self.mpr passed]
    | some i =>
      obtain ⟨low, high, live, before⟩ := iterScan_some found
      have position : i < ht.mask + 1 := by omega
      rw [← behind_skip low position live before] at passed
      by_cases picked : chosen remove (ht.slots i) = true
      · obtain ⟨deleted, done, rep', mask, count, removed, front⟩ := rep.iterDel position live
        obtain ⟨ht', m', ran, final, left⟩ := ih rep' ⟨i, none⟩ (by rw [mask]; exact le_of_lt position)
          (by rw [mask]; simp only; omega) (fun s mem => passed s (mem_of_le front mem))
        have picked' : remove (ht.slots i).key (ht.slots i).val = true := picked
        refine ⟨ht', m', by simp [picked', done, ran], final, ?_⟩
        rw [left, mask, ← removed, filter_cons_of_neg]
        rw [picked]
        exact Bool.noConfusion
      · have kept := Bool.of_not_eq_true picked
        have kept' : remove (ht.slots i).key (ht.slots i).val = false := kept
        have examined : ∀ s ∈ behind ht.slots (i + 1), chosen remove s = false := by
          rw [behind_keep position live]
          exact forall_mem_cons.mpr ⟨kept, passed⟩
        obtain ⟨ht', m', ran, final, left⟩ := ih rep ⟨i + 1, some i⟩ position (by simp only; omega) examined
        exact ⟨ht', m', by simp [kept', ran], final, left⟩

omit [Inhabited K] [Inhabited V] in
lemma Represents.found_entry (rep : Represents laws ht m) (mem : s ∈ stored ht.mask ht.slots) :
    m.lookup (keyClass laws s.key) = some (s.key, s.val) := by
  obtain ⟨⟨i, position, rfl⟩, live⟩ := mem_stored.mp mem
  exact rep.lookup_at position live

omit [Inhabited K] [Inhabited V] in
lemma Represents.filtered_absent (rep : Represents laws ht m) {left : Htab K V}
    (rep' : Represents laws left rest) (held : s ∈ stored ht.mask ht.slots)
    (apart : ∀ other ∈ stored left.mask left.slots,
      other ∈ stored ht.mask ht.slots ∧ (other.key, other.val) ≠ (s.key, s.val)) :
    rest.lookup (keyClass laws s.key) = none := by
  cases present : rest.lookup (keyClass laws s.key) with
  | none => rfl
  | some pair =>
    have entry := Finmap.lookup_eq_some_iff.mp present
    rw [rep'.content, mem_map] at entry
    obtain ⟨other, kept, isEntry⟩ := entry
    have sameClass : keyClass laws other.key = keyClass laws s.key := congrArg Sigma.fst isEntry
    have first := rep.found_entry held
    have second := rep.found_entry (apart other kept).1
    rw [sameClass, first, Option.some.injEq] at second
    exact absurd second.symm (apart other kept).2

omit [Inhabited K] [Inhabited V] in
lemma mem_htabEntries : p ∈ htabEntries ht ↔ ∃ s ∈ stored ht.mask ht.slots, (s.key, s.val) = p := mem_map

theorem iterating_filter_is_exact (laws : KeyLaws hashFn eqFn) (ht : Htab K V)
    (reached : HtabReachable hashFn eqFn ht) (remove : K → V → Bool) :
    ∃ ht', filterAll remove ht = some ht' ∧
      htabEntries ht' = (htabEntries ht).filter (fun p => remove p.1 p.2 = false) ∧
      htabSize ht' = (htabEntries ht').card ∧
      (∀ p ∈ htabEntries ht', htabGet ht' p.1 = some p.2 ∧ htabHas ht' p.1 = some true) ∧
      ∀ p ∈ htabEntries ht, remove p.1 p.2 = true → htabGet ht' p.1 = some default ∧ htabHas ht' p.1 = some false := by
  obtain ⟨m, rep⟩ := reached.represents laws
  obtain ⟨ht', m', filtered, rep', left⟩ := filterLoop_spec remove (ht.count + (ht.mask + 1) + 1) rep htabIterInit
    (zero_le _) (by simp only [htabIterInit]; omega) (fun s mem => absurd mem (notMem_zero s))
  refine ⟨ht', filtered, ?_, ?_, ?_, ?_⟩
  · rw [htabEntries, left, htabEntries, filter_map]
    rfl
  · rw [htabSize, htabEntries, card_map, rep'.counted]
  · intro p mem
    obtain ⟨s, held, rfl⟩ := mem_htabEntries.mp mem
    rw [rep'.get, rep'.has, rep'.found_entry held]
    exact ⟨rfl, rfl⟩
  · intro p mem removed
    obtain ⟨s, held, rfl⟩ := mem_htabEntries.mp mem
    have gone : m'.lookup (keyClass laws s.key) = none := by
      apply rep.filtered_absent rep' held
      intro other kept
      rw [left, mem_filter] at kept
      refine ⟨kept.1, ?_⟩
      intro same
      have notRemoved : remove other.key other.val = false := kept.2
      rw [Prod.mk.injEq] at same
      rw [same.1, same.2, removed] at notRemoved
      cases notRemoved
    rw [rep'.get, rep'.has, gone]
    exact ⟨rfl, rfl⟩

theorem iterating_filter_straddle :
    ∃ ht replies, htabRun (htabCreate lowBitsHash sameNat 0) straddleOps = some (ht, replies) ∧
      ∃ ht', filterAll (fun key _ => decide (key = 15)) ht = some ht' ∧
        htabEntries ht' = (htabEntries ht).filter (fun p => decide (p.1 = 15) = false) := by
  have short := addressable_of_short lowBits_laws ∅ straddleOps (by simp [straddleOps])
  obtain ⟨⟨ht, replies⟩, ran⟩ : ∃ result, htabRun (htabCreate lowBitsHash sameNat 0) straddleOps = some result :=
    Option.isSome_iff_exists.mp (by decide)
  have reached : HtabReachable lowBitsHash sameNat ht :=
    HtabReachable.run lowBits_laws (create_represents lowBits_laws (zero_le _)) (.create 0 (zero_le _))
      short ran
  obtain ⟨ht', filtered, left, -⟩ := iterating_filter_is_exact lowBits_laws ht reached (fun key _ => decide (key = 15))
  exact ⟨ht, replies, ran, ht', filtered, left⟩

end LibOp.HashTable

import LibOp.Clock.Vclock

namespace LibOp.Clock

open List hiding lookup

open Foundation Vclock

def counterIn (entries : List VclockEntry) (serverKey : ServerKey) : Nat :=
  (((lookup VclockEntry.serverKey entries serverKey).map VclockEntry.counter).getD 0).toNat

lemma counters_eq (vc : Vclock) : vc.counters = counterIn vc.entries := by
  funext serverKey
  rw [counters, vclockGet_eq, counterIn]

lemma counterIn_cons (entry : VclockEntry) (entries : List VclockEntry) (serverKey : ServerKey) :
    counterIn (entry :: entries) serverKey =
      if entry.serverKey = serverKey then entry.counter.toNat else counterIn entries serverKey := by
  unfold counterIn lookup
  by_cases here : entry.serverKey = serverKey <;> simp [here]

variable {serverKey : ServerKey}

lemma counterIn_absent {entries : List VclockEntry} (absent : serverKey ∉ entries.map VclockEntry.serverKey) :
    counterIn entries serverKey = 0 := by
  have missing := (lookup_eq_none VclockEntry.serverKey entries serverKey).mpr absent
  simp [counterIn, missing]

lemma mergeEntries_spec (entries : List VclockEntry) (entriesDistinct : (entries.map VclockEntry.serverKey).Nodup)
    (nodup : dst.Distinct) (few : (dst.keys ∪ (entries.map VclockEntry.serverKey).toFinset).card ≤ vclockMaxEntries) :
    (entries.foldl vclockMergeEntry dst).Distinct ∧
      (entries.foldl vclockMergeEntry dst).keys = dst.keys ∪ (entries.map VclockEntry.serverKey).toFinset ∧
      ∀ key, (entries.foldl vclockMergeEntry dst).counters key = max (dst.counters key) (counterIn entries key) := by
  induction entries generalizing dst with
  | nil =>
    refine ⟨nodup, by simp, ?_⟩
    intro key
    exact (Nat.max_zero _).symm
  | cons entry entries ih =>
    rw [map_cons, nodup_cons] at entriesDistinct
    have regroup : dst.keys ∪ ((entry :: entries).map VclockEntry.serverKey).toFinset =
        insert entry.serverKey dst.keys ∪ (entries.map VclockEntry.serverKey).toFinset := by
      rw [map_cons, toFinset_cons, Finset.union_insert, Finset.insert_union]
    rw [regroup] at few ⊢
    have one := mergeEntry_spec nodup entry (Nat.le_trans (Finset.card_le_card Finset.subset_union_left) few)
    rw [← one.2.1] at few ⊢
    have rest := ih entriesDistinct.2 one.1 few
    refine ⟨rest.1, rest.2.1, ?_⟩
    intro key
    rw [foldl_cons, rest.2.2, one.2.2, counterIn_cons]
    by_cases here : key = entry.serverKey
    · rw [here, counterIn_absent entriesDistinct.1]
      simp
    · have apart : ¬ entry.serverKey = key := fun same => here same.symm
      simp [here, apart]

lemma vclockMerge_spec (nodup : dst.Distinct) (srcDistinct : src.Distinct)
    (few : (dst.keys ∪ src.keys).card ≤ vclockMaxEntries) :
    (vclockMerge dst src).Distinct ∧ (vclockMerge dst src).keys = dst.keys ∪ src.keys ∧
      (vclockMerge dst src).counters = dst.counters ⊔ src.counters := by
  have merged := mergeEntries_spec src.entries srcDistinct nodup few
  refine ⟨merged.1, merged.2.1, ?_⟩
  funext key
  rw [counters_eq src]
  exact merged.2.2 key

lemma comparePass_eq (other : Vclock) (entries : List VclockEntry) (flags : Bool × Bool) :
    entries.foldl (compareEntry other) flags =
      (flags.1 && entries.all (fun e => decide (e.counter ≤ vclockGet other e.serverKey)),
        flags.2 && entries.all (fun e => decide (vclockGet other e.serverKey ≤ e.counter))) := by
  induction entries generalizing flags with
  | nil => simp
  | cons entry entries ih =>
    rw [foldl_cons, ih]
    simp only [compareEntry, all_cons, gt_iff_lt, ← UInt64.not_le]
    by_cases le : entry.counter ≤ vclockGet other entry.serverKey <;>
      by_cases ge : vclockGet other entry.serverKey ≤ entry.counter <;> simp [le, ge]

variable {a b : Vclock}

lemma entries_below_iff (nodup : a.Distinct) :
    (∀ e ∈ a.entries, e.counter ≤ vclockGet b e.serverKey) ↔ a.counters ≤ b.counters := by
  constructor
  · intro below key
    by_cases present : key ∈ a.keys
    · unfold Vclock.keys at present
      rw [mem_toFinset, mem_map] at present
      obtain ⟨entry, mem, rfl⟩ := present
      have bound := UInt64.le_iff_toNat_le.mp (below entry mem)
      simpa only [counters, vclockGet_entry nodup mem] using bound
    · rw [counters, vclockGet_absent present]
      exact Nat.zero_le _
  · intro below entry mem
    have bound := below entry.serverKey
    rw [counters, vclockGet_entry nodup mem] at bound
    exact UInt64.le_iff_toNat_le.mpr bound

lemma entries_above_of_le (nodup : a.Distinct) (above : b.counters ≤ a.counters) :
    ∀ e ∈ a.entries, vclockGet b e.serverKey ≤ e.counter := by
  intro entry mem
  have bound := above entry.serverKey
  rw [counters, counters, vclockGet_entry nodup mem] at bound
  exact UInt64.le_iff_toNat_le.mpr bound

section

variable (aDistinct : a.Distinct) (bDistinct : b.Distinct)

include aDistinct bDistinct

lemma both_passes_iff :
    ((∀ e ∈ b.entries, vclockGet a e.serverKey ≤ e.counter) ∧ ∀ e ∈ a.entries, e.counter ≤ vclockGet b e.serverKey) ↔
      a.counters ≤ b.counters := by
  constructor
  · intro both
    exact (entries_below_iff aDistinct).mp both.2
  · intro below
    exact ⟨entries_above_of_le bDistinct below, (entries_below_iff aDistinct).mpr below⟩

lemma vclockCmp_flags : ∃ aLeB bLeA, vclockCmp a b = causalOrder aLeB bLeA ∧ (aLeB = true ↔ a.counters ≤ b.counters) ∧
      (bLeA = true ↔ b.counters ≤ a.counters) := by
  refine ⟨_, _, rfl, ?_, ?_⟩
  · rw [← both_passes_iff aDistinct bDistinct]
    simp [comparePass_eq, Bool.true_and, Bool.and_eq_true, all_eq_true, decide_eq_true_eq, and_comm]
  · rw [← both_passes_iff bDistinct aDistinct]
    simp [comparePass_eq, all_eq_true]

lemma vclockCmp_iff : (vclockCmp a b = 0 ↔ a.counters = b.counters) ∧ (vclockCmp a b = -1 ↔ a.counters < b.counters) ∧
      (vclockCmp a b = 1 ↔ b.counters < a.counters) ∧
      (vclockCmp a b = 2 ↔ ¬ a.counters ≤ b.counters ∧ ¬ b.counters ≤ a.counters) := by
  obtain ⟨aLeB, bLeA, code, below, above⟩ := vclockCmp_flags aDistinct bDistinct
  rw [code, le_antisymm_iff (a := a.counters), lt_iff_le_not_ge, lt_iff_le_not_ge, ← below, ← above]
  cases aLeB <;> cases bLeA <;> decide

end

section

variable {vc : Vclock} (nodup : vc.Distinct) (few : (insert serverKey vc.keys).card ≤ vclockMaxEntries)
  (below : vc.counters serverKey < 2 ^ 64 - 1)

include nodup few below

lemma vclockTick_spec : (vclockTick vc serverKey).1.Distinct ∧ ∀ other, (vclockTick vc serverKey).1.counters other =
      if other = serverKey then vc.counters serverKey + 1 else vc.counters other := by
  unfold vclockTick
  cases found : vclockFind vc serverKey with
  | some idx =>
    refine ⟨nodup.modify idx _, ?_⟩
    intro other
    simp only [counters, vclockGet_modify _ found] at below ⊢
    split
    · rw [UInt64.toNat_add, Nat.mod_eq_of_lt]
      · rfl
      · change _ + 1 < 2 ^ 64
        omega
    · rfl
  | none =>
    have absent := vclockFind_none.mp found
    have room := nodup.room absent few
    simp only [room, ↓reduceDIte]
    have fresh : (⟨serverKey, 1⟩ : VclockEntry).serverKey ∉ vc.keys := absent
    refine ⟨nodup.push room fresh, ?_⟩
    intro other
    have pushed := vclockGet_push room fresh other
    rw [counters, pushed, counters, vclockGet_absent absent]
    split <;> rfl

lemma vclockTick_after : vclockCmp vc (vclockTick vc serverKey).1 = -1 := by
  obtain ⟨tickDistinct, ticked⟩ := vclockTick_spec nodup few below
  rw [(vclockCmp_iff nodup tickDistinct).2.1, Pi.lt_def]
  constructor
  · intro other
    rw [ticked]
    split
    next here =>
      rw [here]
      exact Nat.le_succ _
    · exact le_rfl
  · refine ⟨serverKey, ?_⟩
    rw [ticked, if_pos rfl]
    exact Nat.lt_succ_self _

end

lemma vclockMerge_comm (aDistinct : a.Distinct) (bDistinct : b.Distinct)
    (few : (a.keys ∪ b.keys).card ≤ vclockMaxEntries) : vclockCmp (vclockMerge a b) (vclockMerge b a) = 0 := by
  have left := vclockMerge_spec aDistinct bDistinct few
  rw [Finset.union_comm] at few
  have right := vclockMerge_spec bDistinct aDistinct few
  rw [(vclockCmp_iff left.1 right.1).1, left.2.2, right.2.2, sup_comm]

lemma vclockMerge_assoc (aDistinct : a.Distinct) (bDistinct : b.Distinct) (cDistinct : c.Distinct)
    (few : (a.keys ∪ b.keys ∪ c.keys).card ≤ vclockMaxEntries) :
    vclockCmp (vclockMerge (vclockMerge a b) c) (vclockMerge a (vclockMerge b c)) = 0 := by
  have fewLeft : (a.keys ∪ b.keys).card ≤ vclockMaxEntries :=
    Nat.le_trans (Finset.card_le_card Finset.subset_union_left) few
  have inner := vclockMerge_spec aDistinct bDistinct fewLeft
  have left := vclockMerge_spec inner.1 cDistinct (by rw [inner.2.1]; exact few)
  rw [Finset.union_assoc] at few
  have fewRight : (b.keys ∪ c.keys).card ≤ vclockMaxEntries :=
    Nat.le_trans (Finset.card_le_card Finset.subset_union_right) few
  have tail := vclockMerge_spec bDistinct cDistinct fewRight
  have right := vclockMerge_spec aDistinct tail.1 (by rw [tail.2.1]; exact few)
  rw [(vclockCmp_iff left.1 right.1).1, left.2.2, right.2.2, inner.2.2, tail.2.2, sup_assoc]

lemma vclockMerge_idem (nodup : a.Distinct) : vclockCmp (vclockMerge a a) a = 0 := by
  have few : (a.keys ∪ a.keys).card ≤ vclockMaxEntries := by
    rw [Finset.union_idempotent, card_keys nodup]
    exact a.bounded
  have merged := vclockMerge_spec nodup nodup few
  rw [(vclockCmp_iff merged.1 nodup).1, merged.2.2, sup_idem]

theorem vclock_pointwise_lattice (a b c : Vclock) (aDistinct : a.Distinct) (bDistinct : b.Distinct)
    (cDistinct : c.Distinct) (few : (a.keys ∪ b.keys ∪ c.keys).card ≤ 32) :
    ((vclockCmp a b = 0 ↔ a.counters = b.counters) ∧ (vclockCmp a b = -1 ↔ a.counters < b.counters) ∧
        (vclockCmp a b = 1 ↔ b.counters < a.counters) ∧
        (vclockCmp a b = 2 ↔ ¬ a.counters ≤ b.counters ∧ ¬ b.counters ≤ a.counters)) ∧
      ((vclockMerge a b).Distinct ∧ (∀ key, (vclockMerge a b).counters key = max (a.counters key) (b.counters key)) ∧
        IsLUB {a.counters, b.counters} (vclockMerge a b).counters) ∧
      (vclockCmp (vclockMerge a b) (vclockMerge b a) = 0 ∧
        vclockCmp (vclockMerge (vclockMerge a b) c) (vclockMerge a (vclockMerge b c)) = 0 ∧
        vclockCmp (vclockMerge a a) a = 0) ∧
      ∀ key ∈ a.keys ∪ b.keys ∪ c.keys, a.counters key < 2 ^ 64 - 1 → vclockCmp a (vclockTick a key).1 = -1 := by
  have fewPair : (a.keys ∪ b.keys).card ≤ vclockMaxEntries :=
    Nat.le_trans (Finset.card_le_card Finset.subset_union_left) few
  have merged := vclockMerge_spec aDistinct bDistinct fewPair
  refine ⟨vclockCmp_iff aDistinct bDistinct, ⟨merged.1, ?_, ?_⟩, ⟨vclockMerge_comm aDistinct bDistinct fewPair,
    vclockMerge_assoc aDistinct bDistinct cDistinct few, vclockMerge_idem aDistinct⟩, ?_⟩
  · intro key
    rw [merged.2.2]
    rfl
  · rw [merged.2.2]
    exact isLUB_pair
  · intro key mem below
    apply vclockTick_after aDistinct _ below
    apply Nat.le_trans (Finset.card_le_card _) few
    intro other inserted
    rcases Finset.mem_insert.mp inserted with rfl | held
    · exact mem
    · exact Finset.mem_union_left _ (Finset.mem_union_left _ held)

def soleClock (byte : UInt8) (counter : UInt64) : Vclock :=
  ⟨[⟨Vector.replicate 8 byte, counter⟩], Nat.le_of_ble_eq_true rfl⟩

theorem vclock_pointwise_lattice_concurrent :
    vclockCmp (vclockMerge (soleClock 1 4) (soleClock 2 7)) (vclockMerge (soleClock 2 7) (soleClock 1 4)) = 0 ∧
      vclockCmp (soleClock 1 4) (vclockTick (soleClock 1 4) (Vector.replicate 8 3)).1 = -1 := by
  have lattice := vclock_pointwise_lattice (soleClock 1 4) (soleClock 2 7) (soleClock 3 0) (nodup_singleton _)
    (nodup_singleton _) (nodup_singleton _) (by decide)
  exact ⟨lattice.2.2.1.1, lattice.2.2.2 _ (by decide) (by decide)⟩

end LibOp.Clock

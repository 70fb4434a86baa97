import LibOp.Crdt.CausalContext

namespace LibOp.Crdt

open Foundation List

lemma ccCompact_covers (replica : Replica) (rounds m : Nat) (overflow : List Dot) (dot : Dot) :
    ((dot.replica = replica ∧ dot.counter ≤ (ccCompact replica rounds m overflow).1) ∨
        dot ∈ (ccCompact replica rounds m overflow).2) ↔
      (dot.replica = replica ∧ dot.counter ≤ m) ∨ dot ∈ overflow := by
  induction rounds generalizing m overflow with
  | zero => exact Iff.rfl
  | succ rounds ih =>
    unfold ccCompact
    cases found : overflow.findIdx? (fun d => decide (d.replica = replica ∧ d.counter = m + 1)) with
    | none => exact Iff.rfl
    | some i =>
      rw [findIdx?_eq_some_iff_getElem] at found
      obtain ⟨bound, matched, _⟩ := found
      obtain ⟨sameReplica, next⟩ : overflow[i].replica = replica ∧ overflow[i].counter = m + 1 := by simpa using matched
      have kept := (swapRemove_perm overflow i bound).mem_iff (a := dot)
      rw [mem_cons] at kept
      have pulled : dot = overflow[i] ↔ dot.replica = replica ∧ dot.counter = m + 1 := by
        constructor
        · rintro rfl
          exact ⟨sameReplica, next⟩
        · rintro ⟨hr, hc⟩
          cases dot
          cases eq : overflow[i]
          simp_all
      rw [ih, kept, pulled, Nat.le_succ_iff]
      tauto

lemma ccRegister_spec (cc registered : Cc) (replica : Replica) (ridx : Nat)
    (h : ccRegister cc replica = some (ridx, registered)) :
    registered.entries.findIdx? (fun e => decide (e.replica = replica)) = some ridx ∧
      registered.overflow = cc.overflow ∧
      (∀ other, frontier registered.entries other = frontier cc.entries other) ∧
      (cc.Knows replica ∨ cc.entries.length < ccMaxReplicas) := by
  unfold ccRegister at h
  cases found : cc.entries.findIdx? (fun e => decide (e.replica = replica)) with
  | some i =>
    simp only [found, Option.some.injEq, Prod.mk.injEq] at h
    obtain ⟨rfl, rfl⟩ := h
    exact ⟨found, rfl, fun _ => rfl, .inl (findIdx_known _ _ _ found).1⟩
  | none =>
    simp only [found] at h
    split at h
    · cases h
    next room =>
      obtain ⟨rfl, rfl⟩ := h
      have stranger := (findIdx_unknown _ _).mp found
      refine ⟨?_, rfl, ?_, .inr (by omega)⟩
      · rw [findIdx?_append, found]
        simp [findIdx?_cons]
      · intro other
        rw [frontier_append _ _ stranger]
        split
        next same => rw [same, frontier_unknown _ _ stranger]
        · rfl

variable (cc : Cc)

lemma ccRegister_none (replica : Replica) (h : ccRegister cc replica = none) :
    ¬ (cc.Knows replica ∨ cc.entries.length < ccMaxReplicas) := by
  unfold ccRegister at h
  cases found : cc.entries.findIdx? (fun e => decide (e.replica = replica)) with
  | some i => simp [found] at h
  | none =>
    simp only [found] at h
    split at h
    next full =>
      rintro (known | room)
      · exact (findIdx_unknown _ _).mp found known
      · omega
    · cases h

def OverflowFits (cc : Cc) (dot : Dot) : Prop :=
  dot.counter ≤ frontier cc.entries dot.replica + 1 ∨ cc.overflow.length < ccMaxOverflow

def CcFits (cc : Cc) (dot : Dot) : Prop :=
  (cc.Knows dot.replica ∨ cc.entries.length < ccMaxReplicas) ∧ OverflowFits cc dot

instance (cc : Cc) (dot : Dot) : Decidable (OverflowFits cc dot) :=
  inferInstanceAs (Decidable (_ ∨ _))

instance (cc : Cc) (dot : Dot) : Decidable (CcFits cc dot) := inferInstanceAs (Decidable (_ ∧ _))

lemma ccAddAt_contains (dot other : Dot) (ridx : Nat) (pos : 0 < other.counter)
    (found : cc.entries.findIdx? (fun e => decide (e.replica = dot.replica)) = some ridx) :
    ccContains (ccAddAt ridx cc dot) other = true ↔
      ccContains cc other = true ∨ (other = dot ∧ OverflowFits cc dot) := by
  obtain ⟨_, read⟩ := findIdx_known _ _ _ found
  have same : other = dot ↔ other.replica = dot.replica ∧ other.counter = dot.counter := by
    cases other
    cases dot
    simp
  simp only [ccContains_iff _ _ pos, OverflowFits]
  unfold ccAddAt
  simp only [read]
  by_cases next : dot.counter = frontier cc.entries dot.replica + 1
  · have covers := ccCompact_covers dot.replica cc.overflow.length dot.counter cc.overflow other
    simp only [next, ↓reduceIte] at covers ⊢
    rw [frontier_modify _ _ _ _ _ found]
    by_cases here : other.replica = dot.replica
    · simp only [here, true_and, ↓reduceIte] at covers ⊢
      rw [covers, same]
      simp only [here, true_and, Nat.le_refl, true_or, and_true, next]
      by_cases stored : other ∈ cc.overflow
      · simp [stored]
      · simp only [stored, or_false]
        omega
    · have apart : other ≠ dot := fun h => here (congrArg Dot.replica h)
      simp only [here, false_and, false_or, ↓reduceIte, apart, or_false] at covers ⊢
      rw [covers]
  · simp only [next, ↓reduceIte]
    by_cases beyond : dot.counter > frontier cc.entries dot.replica + 1
    · have stop : ¬ dot.counter ≤ frontier cc.entries dot.replica + 1 := by omega
      by_cases room : cc.overflow.length < ccMaxOverflow
      · simp only [beyond, room, ↓reduceIte, mem_append, mem_singleton, or_true, and_true, or_assoc]
      · simp [beyond, room, stop]
    · have covered : dot.counter ≤ frontier cc.entries dot.replica := by omega
      simp only [beyond, ↓reduceIte]
      constructor
      · exact .inl
      · rintro (h | ⟨rfl, -⟩)
        · exact h
        · exact .inl covered

lemma ccAdd_contains (dot other : Dot) (pos : 0 < other.counter) :
    ccContains (ccAdd cc dot) other = true ↔ ccContains cc other = true ∨ (other = dot ∧ CcFits cc dot) := by
  unfold ccAdd
  cases registered : ccRegister cc dot.replica with
  | none =>
    have full := ccRegister_none _ _ registered
    simp [CcFits, full]
  | some pair =>
    obtain ⟨ridx, cc'⟩ := pair
    obtain ⟨found, overflow, frontiers, room⟩ := ccRegister_spec _ _ _ _ registered
    have before : ccContains cc' other = true ↔ ccContains cc other = true := by
      rw [ccContains_iff _ _ pos, ccContains_iff _ _ pos, frontiers, overflow]
    have spare : OverflowFits cc' dot ↔ OverflowFits cc dot := by simp [OverflowFits, frontiers, overflow]
    rw [ccAddAt_contains _ _ _ _ pos found, before, spare]
    simp [CcFits, room]

def EntryFits (dst : Cc) (entry : CcEntry) : Prop :=
  dst.Knows entry.replica ∨ dst.entries.length < ccMaxReplicas

def DotFits (dst : Cc) (dot : Dot) : Prop := ccContains dst dot = true ∨ CcFits dst dot

def CcMergeFits (dst src : Cc) : Prop :=
  Permitted EntryFits ccMergeEntry dst src.entries ∧
    Permitted DotFits ccMergeDot (src.entries.foldl ccMergeEntry dst) src.overflow

instance (dst : Cc) (entry : CcEntry) : Decidable (EntryFits dst entry) :=
  inferInstanceAs (Decidable (_ ∨ _))

instance (dst : Cc) (dot : Dot) : Decidable (DotFits dst dot) :=
  inferInstanceAs (Decidable (_ ∨ _))

instance (dst src : Cc) : Decidable (CcMergeFits dst src) :=
  inferInstanceAs (Decidable (_ ∧ _))

variable (dst : Cc) (entry : CcEntry)

lemma ccMergeEntry_contains (other : Dot) (pos : 0 < other.counter) :
    ccContains (ccMergeEntry dst entry) other = true ↔ ccContains dst other = true ∨
      (EntryFits dst entry ∧ other.replica = entry.replica ∧ other.counter ≤ entry.maxContiguous) := by
  simp only [ccContains_iff _ _ pos]
  unfold ccMergeEntry
  cases found : dst.entries.findIdx? (fun e => decide (e.replica = entry.replica)) with
  | some didx =>
    obtain ⟨known, read⟩ := findIdx_known _ _ _ found
    have fits : EntryFits dst entry := .inl known
    simp only [read, fits, true_and]
    split
    · rw [frontier_modify _ _ _ _ _ found]
      by_cases same : other.replica = entry.replica
      · simp only [same, ↓reduceIte, true_and]
        constructor
        · rintro (h | h)
          · exact .inr h
          · exact .inl (.inr h)
        · rintro ((h | h) | h)
          · left; omega
          · exact .inr h
          · exact .inl h
      · simp [same]
    · constructor
      · exact .inl
      · rintro (h | ⟨same, h⟩)
        · exact h
        · left; rw [same]; omega
  | none =>
    have stranger := (findIdx_unknown _ _).mp found
    simp only [EntryFits, stranger, false_or]
    split
    next room =>
      rw [frontier_append _ _ stranger]
      have missing := frontier_unknown _ _ stranger
      by_cases same : other.replica = entry.replica
      · have none : ¬ other.counter ≤ 0 := by omega
        simp [same, ↓reduceIte, missing, none, false_or, room, true_and, or_comm]
      · simp [same]
    next full => simp [full]

lemma ccMergeDot_contains (dot other : Dot) (pos : 0 < other.counter) :
    ccContains (ccMergeDot dst dot) other = true ↔ ccContains dst other = true ∨ (other = dot ∧ DotFits dst dot) := by
  unfold ccMergeDot
  split
  next known =>
    constructor
    · exact .inl
    · rintro (h | ⟨rfl, -⟩)
      · exact h
      · exact known
  next unknown =>
    rw [ccAdd_contains _ _ _ pos]
    simp [DotFits, unknown]

def Registers (replica : Replica) (before after : List Replica) : Prop :=
  after = before ∨ (replica ∉ before ∧ after = before ++ [replica])

variable {before after : List Replica}

lemma Registers.nodup (h : Registers replica before after) (distinct : before.Nodup) : after.Nodup := by
  rcases h with rfl | ⟨fresh, rfl⟩
  · exact distinct
  · rw [nodup_append]
    refine ⟨distinct, by simp, ?_⟩
    rintro a mem b single rfl
    exact fresh (List.mem_singleton.mp single ▸ mem)

lemma Registers.mem (h : Registers replica before after) (member : other ∈ after) :
    other ∈ before ∨ other = replica := by
  rcases h with rfl | ⟨_, rfl⟩
  · exact .inl member
  · simpa using member

def Cc.enrol (cc : Cc) (replica : Replica) : List Replica :=
  if cc.Knows replica ∨ ccMaxReplicas ≤ cc.entries.length then cc.replicas else cc.replicas ++ [replica]

lemma Cc.enrol_registers (replica : Replica) : Registers replica cc.replicas (cc.enrol replica) := by
  unfold Cc.enrol
  split
  · exact .inl rfl
  next fresh => exact .inr ⟨fun known => fresh (.inl known), rfl⟩

lemma ccAdd_enrols (dot : Dot) : (ccAdd cc dot).replicas = cc.enrol dot.replica := by
  have placed (registered : Cc) (ridx : Nat) : (ccAddAt ridx registered dot).replicas = registered.replicas := by
    simp only [ccAddAt]
    split
    · exact map_key_modify CcEntry.replica _ _ _ (fun _ => rfl)
    · split
      · split <;> rfl
      · rfl
  unfold ccAdd Cc.enrol
  cases found : cc.entries.findIdx? (fun e => decide (e.replica = dot.replica)) with
  | some i =>
    have known := (findIdx_known _ _ _ found).1
    simpa [ccRegister, found, known] using placed cc i
  | none =>
    have stranger := (findIdx_unknown _ _).mp found
    by_cases full : ccMaxReplicas ≤ cc.entries.length
    · simp [ccRegister, found, full]
    · simp only [ccRegister, found, full, stranger, or_self, ↓reduceIte]
      rw [placed]
      simp [Cc.replicas]

lemma ccAdd_replicas (dot : Dot) : Registers dot.replica cc.replicas (ccAdd cc dot).replicas := by
  rw [ccAdd_enrols]
  exact cc.enrol_registers dot.replica

lemma ccMergeEntry_enrols : (ccMergeEntry dst entry).replicas = dst.enrol entry.replica := by
  unfold ccMergeEntry Cc.enrol
  cases found : dst.entries.findIdx? (fun e => decide (e.replica = entry.replica)) with
  | some i =>
    rw [if_pos (Or.inl (findIdx_known _ _ _ found).1)]
    simp only
    split
    · exact map_key_modify CcEntry.replica _ _ _ (fun _ => rfl)
    · rfl
  | none =>
    have stranger := (findIdx_unknown _ _).mp found
    by_cases full : ccMaxReplicas ≤ dst.entries.length
    · simp [full, Nat.not_lt.mpr full]
    · simp [full, stranger, Nat.not_le.mp full, Cc.replicas]

lemma ccMergeEntry_replicas : Registers entry.replica dst.replicas (ccMergeEntry dst entry).replicas := by
  rw [ccMergeEntry_enrols]
  exact dst.enrol_registers entry.replica

lemma ccMergeDot_replicas (dot : Dot) : Registers dot.replica dst.replicas (ccMergeDot dst dot).replicas := by
  unfold ccMergeDot
  split
  · exact .inl rfl
  · exact ccAdd_replicas dst dot

variable (dst src : Cc)

lemma ccMerge_keyed (keyed : dst.Keyed) : (ccMerge dst src).Keyed := by
  apply List.foldlRecOn (motive := Cc.Keyed)
  · apply List.foldlRecOn (motive := Cc.Keyed) _ _ keyed
    intro cc inner entry _
    exact (ccMergeEntry_replicas cc entry).nodup inner
  · intro cc inner dot _
    exact (ccMergeDot_replicas cc dot).nodup inner

lemma ccMerge_replicas {P : Replica → Prop} (left : ∀ r ∈ dst.replicas, P r)
    (entries : ∀ r ∈ src.replicas, P r) (overflow : ∀ d ∈ src.overflow, P d.replica) :
    ∀ r ∈ (ccMerge dst src).replicas, P r := by
  apply List.foldlRecOn (motive := fun cc : Cc => ∀ r ∈ cc.replicas, P r)
  · apply List.foldlRecOn (motive := fun cc : Cc => ∀ r ∈ cc.replicas, P r) _ _ left
    intro cc inner entry member r known
    rcases (ccMergeEntry_replicas cc entry).mem known with old | rfl
    · exact inner r old
    · exact entries _ (mem_map_of_mem member)
  · intro cc inner dot member r known
    rcases (ccMergeDot_replicas cc dot).mem known with old | rfl
    · exact inner r old
    · exact overflow dot member

lemma frontier_covers (keyed : cc.Keyed) (dot : Dot) (pos : 0 < dot.counter) :
    (∃ e ∈ cc.entries, dot.replica = e.replica ∧ dot.counter ≤ e.maxContiguous) ↔
      dot.counter ≤ frontier cc.entries dot.replica := by
  constructor
  · rintro ⟨e, mem, same, bound⟩
    have located := (lookup_eq_some CcEntry.replica cc.entries keyed _ e).mpr ⟨mem, same.symm⟩
    simpa [frontier, located] using bound
  · intro bound
    unfold frontier at bound
    cases located : lookup CcEntry.replica cc.entries dot.replica with
    | none =>
      simp only [located, Option.map_none, Option.getD_none] at bound
      omega
    | some e =>
      obtain ⟨mem, same⟩ := (lookup_eq_some CcEntry.replica cc.entries keyed _ e).mp located
      exact ⟨e, mem, same.symm, by simpa [located] using bound⟩

lemma ccMerge_contains (dot : Dot) (pos : 0 < dot.counter) (keyed : src.Keyed) (fits : CcMergeFits dst src) :
    ccContains (ccMerge dst src) dot = true ↔ ccContains dst dot = true ∨ ccContains src dot = true := by
  unfold ccMerge
  rw [fits.2.accumulates (P := fun cc => ccContains cc dot = true) (Q := fun d => dot = d)
      (fun cc d room => by rw [ccMergeDot_contains _ _ _ pos]; simp [room]),
    fits.1.accumulates (P := fun cc => ccContains cc dot = true)
      (Q := fun e => dot.replica = e.replica ∧ dot.counter ≤ e.maxContiguous)
      (fun cc e room => by rw [ccMergeEntry_contains _ _ _ pos]; simp [room]),
    frontier_covers _ keyed _ pos, ccContains_iff src _ pos]
  simp only [exists_eq_right', or_assoc]

lemma ccMerge_sound (dot : Dot) (pos : 0 < dot.counter) (keyed : src.Keyed)
    (merged : ccContains (ccMerge dst src) dot = true) : ccContains dst dot = true ∨ ccContains src dot = true := by
  revert merged
  apply List.foldlRecOn (motive := fun cc : Cc => ccContains cc dot = true →
    ccContains dst dot = true ∨ ccContains src dot = true)
  · apply List.foldlRecOn (motive := fun cc : Cc => ccContains cc dot = true →
      ccContains dst dot = true ∨ ccContains src dot = true) _ _ .inl
    intro cc inner entry mem merged
    rcases (ccMergeEntry_contains _ _ _ pos).mp merged with old | ⟨_, covered⟩
    · exact inner old
    · right
      rw [ccContains_iff _ _ pos, ← frontier_covers _ keyed _ pos]
      exact .inl ⟨entry, mem, covered⟩
  · intro cc inner d mem merged
    rcases (ccMergeDot_contains _ _ _ pos).mp merged with old | ⟨rfl, _⟩
    · exact inner old
    · right
      rw [ccContains_iff _ _ pos]
      exact .inr mem

end LibOp.Crdt

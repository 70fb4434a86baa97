import LibOp.Crdt.OrSetSteps

namespace LibOp.Crdt

open Foundation List

def EntryKept (dst : Cc) (entry : CcEntry) : Prop := entry.maxContiguous = 0 ∨ EntryFits dst entry

def DotsKept : Cc → List Dot → Prop
  | _, [] => True
  | cc, dot :: rest => (DotFits cc dot ∨ dot ∈ rest) ∧ DotsKept (ccMergeDot cc dot) rest

def CcMergeKeeps (dst src : Cc) : Prop :=
  Permitted EntryKept ccMergeEntry dst src.entries ∧ DotsKept (src.entries.foldl ccMergeEntry dst) src.overflow

def Cc.Registered (cc : Cc) : Prop :=
  ∀ d, 0 < d.counter → ccContains cc d = true → cc.Knows d.replica

def Cc.Closed (cc : Cc) (replica : Replica) : Prop :=
  ¬ cc.Knows replica ∧ ccMaxReplicas ≤ cc.entries.length

lemma Cc.knows_enrol (cc : Cc) (known : cc.Knows other) : other ∈ cc.enrol replica := by
  rcases cc.enrol_registers replica with same | ⟨_, grown⟩
  · rw [same]
    exact known
  · rw [grown]
    exact mem_append_left [replica] known

variable {replica : Replica}

lemma Cc.enrol_self (cc : Cc) (room : cc.Knows replica ∨ cc.entries.length < ccMaxReplicas) :
    replica ∈ cc.enrol replica := by
  unfold Cc.enrol
  split
  next unchanged =>
    rcases unchanged with known | full
    · exact known
    · exact room.resolve_right (Nat.not_lt.mpr full)
  · simp

lemma empty_registered : Cc.empty.Registered := by
  intro d _ contained
  cases contained

variable {cc : Cc} {dot : Dot}

lemma Cc.Registered.add (registered : cc.Registered) (dot : Dot) : (ccAdd cc dot).Registered := by
  intro d pos contained
  unfold Cc.Knows
  rw [ccAdd_enrols]
  rcases (ccAdd_contains cc dot d pos).mp contained with old | ⟨rfl, fits⟩
  · exact cc.knows_enrol (registered d pos old)
  · exact cc.enrol_self fits.1

variable {dst : Cc}

lemma Cc.Registered.mergeEntry (registered : dst.Registered) (entry : CcEntry) :
    (ccMergeEntry dst entry).Registered := by
  intro d pos contained
  unfold Cc.Knows
  rw [ccMergeEntry_enrols]
  rcases (ccMergeEntry_contains dst entry d pos).mp contained with old | ⟨fits, same, _⟩
  · exact dst.knows_enrol (registered d pos old)
  · rw [same]
    exact dst.enrol_self fits

lemma Cc.Registered.mergeDot (registered : dst.Registered) (dot : Dot) : (ccMergeDot dst dot).Registered := by
  unfold ccMergeDot
  split
  · exact registered
  · exact registered.add dot

lemma Cc.Registered.merge (registered : dst.Registered) (src : Cc) : (ccMerge dst src).Registered := by
  apply List.foldlRecOn (motive := Cc.Registered)
  · apply List.foldlRecOn (motive := Cc.Registered) _ _ registered
    intro cc inner entry _
    exact inner.mergeEntry entry
  · intro cc inner dot _
    exact inner.mergeDot dot

lemma Cc.Closed.enrol (closed : cc.Closed replica) {cc' : Cc} {other : Replica}
    (enrols : cc'.replicas = cc.enrol other) : cc'.Closed replica := by
  have same : cc'.replicas = cc.replicas := by rw [enrols, Cc.enrol, if_pos (Or.inr closed.2)]
  have lengths : cc'.entries.length = cc.entries.length := by simpa [Cc.replicas] using congrArg List.length same
  constructor
  · unfold Cc.Knows
    rw [same]
    exact closed.1
  · rw [lengths]
    exact closed.2

lemma Cc.Closed.mergeEntries (closed : dst.Closed replica) (entries : List CcEntry) :
    (entries.foldl ccMergeEntry dst).Closed replica := by
  apply List.foldlRecOn (motive := fun cc : Cc => cc.Closed replica) _ _ closed
  intro cc inner entry _
  exact inner.enrol (ccMergeEntry_enrols cc entry)

lemma Cc.Closed.mergeDots (closed : dst.Closed replica) (dots : List Dot) :
    (dots.foldl ccMergeDot dst).Closed replica := by
  apply List.foldlRecOn (motive := fun cc : Cc => cc.Closed replica) _ _ closed
  intro cc inner dot _
  unfold ccMergeDot
  split
  · exact inner
  · exact inner.enrol (ccAdd_enrols cc dot)

lemma entries_kept_or_closed (dst : Cc) (entries : List CcEntry) : Permitted EntryKept ccMergeEntry dst entries ∨
      ∃ e ∈ entries, 0 < e.maxContiguous ∧ (entries.foldl ccMergeEntry dst).Closed e.replica := by
  induction entries generalizing dst with
  | nil => exact .inl trivial
  | cons e rest ih =>
    by_cases kept : EntryKept dst e
    · rcases ih (ccMergeEntry dst e) with all | ⟨lost, mem, closed⟩
      · exact .inl ⟨kept, all⟩
      · exact .inr ⟨lost, mem_cons_of_mem e mem, closed⟩
    · simp only [EntryKept, EntryFits, not_or, Nat.not_lt] at kept
      have closed : dst.Closed e.replica := kept.2
      exact .inr ⟨e, mem_cons_self, Nat.pos_of_ne_zero kept.1, closed.mergeEntries (e :: rest)⟩

lemma mergeDots_keep (pos : 0 < dot.counter) (contained : ccContains cc dot = true) (dots : List Dot) :
    ccContains (dots.foldl ccMergeDot cc) dot = true := by
  apply List.foldlRecOn (motive := fun cc : Cc => ccContains cc dot = true) _ _ contained
  intro cc inner d _
  exact (ccMergeDot_contains cc d dot pos).mpr (.inl inner)

lemma ccMerge_grows (pos : 0 < dot.counter) (contained : ccContains dst dot = true) :
    ccContains (ccMerge dst src) dot = true := by
  apply mergeDots_keep pos
  apply List.foldlRecOn (motive := fun cc : Cc => ccContains cc dot = true) _ _ contained
  intro cc inner entry _
  exact (ccMergeEntry_contains cc entry dot pos).mpr (.inl inner)

lemma mergeDots_sound (pos : 0 < dot.counter) (dots : List Dot)
    (merged : ccContains (dots.foldl ccMergeDot cc) dot = true) : ccContains cc dot = true ∨ dot ∈ dots := by
  induction dots generalizing cc with
  | nil => exact .inl merged
  | cons d rest ih =>
    rcases ih merged with before | later
    · rcases (ccMergeDot_contains cc d dot pos).mp before with old | ⟨rfl, _⟩
      · exact .inl old
      · exact .inr mem_cons_self
    · exact .inr (mem_cons_of_mem d later)

lemma dotsKept_iff (cc : Cc) (dots : List Dot) (pos : ∀ d ∈ dots, 0 < d.counter) :
    DotsKept cc dots ↔ ∀ d ∈ dots, ccContains (dots.foldl ccMergeDot cc) d = true := by
  induction dots generalizing cc with
  | nil => simp [DotsKept]
  | cons dot rest ih =>
    have dotPositive := pos dot mem_cons_self
    have merged : ccContains (ccMergeDot cc dot) dot = true ↔ DotFits cc dot := by
      rw [ccMergeDot_contains cc dot dot dotPositive, DotFits]
      simp
    rw [DotsKept, ih _ (forall_mem_cons.mp pos).2, forall_mem_cons, foldl_cons]
    apply and_congr_left
    intro others
    constructor
    · intro here
      rcases here with fits | again
      · exact mergeDots_keep dotPositive (merged.mpr fits) rest
      · exact others dot again
    · intro contained
      rcases mergeDots_sound dotPositive rest contained with now | later
      · exact .inl (merged.mp now)
      · exact .inr later

lemma ccMerge_keeps_iff (registered : dst.Registered) (keyed : src.Keyed) (pos : ∀ d ∈ src.overflow, 0 < d.counter) :
    (∀ d, 0 < d.counter → ccContains src d = true → ccContains (ccMerge dst src) d = true) ↔
      CcMergeKeeps dst src := by
  constructor
  · intro keeps
    constructor
    · rcases entries_kept_or_closed dst src.entries with kept | ⟨e, mem, covers, closed⟩
      · exact kept
      · have one : 0 < (⟨e.replica, 1⟩ : Dot).counter := Nat.one_pos
        have held : ccContains src ⟨e.replica, 1⟩ = true :=
          (ccContains_iff _ _ one).mpr (.inl ((frontier_covers src keyed _ one).mp ⟨e, mem, rfl, covers⟩))
        have known := registered.merge src _ one (keeps _ one held)
        exact absurd known (closed.mergeDots src.overflow).1
    · rw [dotsKept_iff _ _ pos]
      intro d mem
      exact keeps d (pos d mem) ((ccContains_iff src d (pos d mem)).mpr (.inr mem))
  · intro kept d dPositive held
    rcases (ccContains_iff src d dPositive).mp held with covered | stored
    · apply mergeDots_keep dPositive
      rw [kept.1.accumulates (P := fun cc => ccContains cc d = true)
        (Q := fun e => d.replica = e.replica ∧ d.counter ≤ e.maxContiguous)]
      · exact .inr ((frontier_covers src keyed d dPositive).mpr covered)
      · intro cc e room
        rw [ccMergeEntry_contains _ _ _ dPositive]
        rcases room with none | fits
        · have beyond : ¬ d.counter ≤ e.maxContiguous := by omega
          simp [beyond]
        · simp [fits]
    · exact (dotsKept_iff _ _ pos).mp kept.2 d stored

end LibOp.Crdt

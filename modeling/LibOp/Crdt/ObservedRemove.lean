import LibOp.Crdt.Redelivery

namespace LibOp.Crdt

open Foundation

def addRun (replica : Replica) : Orset → Nat → List (Nat × Key) → Orset × Nat × List OrsetDelta
  | set, counter, [] => (set, counter, [])
  | set, counter, (ticks, key) :: rest =>
    let result := orsetAdd set (counter + ticks) key replica
    let later := addRun replica result.1 result.2.1 rest
    (later.1, later.2.1, result.2.2 :: later.2.2)

def latestDots (dots : List Dot) : List Dot := dots.drop (dots.length - orsetMaxDots)

lemma orsetPushDot_latest (dots : List Dot) (dot : Dot) :
    orsetPushDot (latestDots dots) dot = latestDots (dots ++ [dot]) := by
  unfold orsetPushDot latestDots
  simp only [List.length_drop, List.length_append, List.length_singleton]
  split
  next few =>
    have all : dots.length - orsetMaxDots = 0 := by omega
    have all' : dots.length + 1 - orsetMaxDots = 0 := by omega
    simp [all, all']
  next full =>
    have some_ : 0 < orsetMaxDots := by decide
    have next : dots.length + 1 - orsetMaxDots = dots.length - orsetMaxDots + 1 := by omega
    rw [List.drop_drop, next, List.drop_append_of_le_length (by omega)]

lemma take_append_dot (dots : List Dot) (dot : Dot) : (dots ++ [dot]).take orsetMaxDots =
      if (dots.take orsetMaxDots).length < orsetMaxDots then dots.take orsetMaxDots ++ [dot]
      else dots.take orsetMaxDots := by
  rw [List.length_take]
  split
  next few => rw [List.take_of_length_le (by simp; omega), List.take_of_length_le (by omega)]
  next full => rw [List.take_append_of_le_length (by omega)]

/-- The adder holds the latest, the receiver the earliest dots of the key. -/
structure Aligned (key : Key) (adder receiver : Orset) (counter : Nat) (dots : List Dot) : Prop where
  adderWf : adder.WellFormed
  receiverWf : receiver.WellFormed
  latest : adder.dots key = latestDots dots
  earliest : receiver.dots key = dots.take orsetMaxDots
  ordered : dots.Pairwise (fun d d' => d.counter < d'.counter)
  issued : ∀ d ∈ dots, d.counter ≤ counter
  positive : ∀ k, ∀ d ∈ receiver.dots k, 0 < d.counter
  context : ∀ d, 0 < d.counter → ccContains receiver.cc d = true → d.counter ≤ counter

lemma aligned_init (key : Key) (capA capB counter : Nat) :
    Aligned key (orsetInit capA) (orsetInit capB) counter [] where
  adderWf := orsetInit_wellFormed capA
  receiverWf := orsetInit_wellFormed capB
  latest := rfl
  earliest := rfl
  ordered := List.Pairwise.nil
  issued d mem := by cases mem
  positive k d mem := by rw [orsetInit_dots] at mem; cases mem
  context d _ known := by cases known

variable {adder receiver : Orset} {counter : Nat} {dots : List Dot}

section

variable {key : Key} (a : Aligned key adder receiver counter dots)

include a

lemma Aligned.unseen (above : counter < d.counter) : ccContains receiver.cc d = false ∧ d ∉ receiver.dots key := by
  constructor
  · rw [← Bool.not_eq_true]
    intro known
    have bound := a.context d (Nat.zero_lt_of_lt above) known
    omega
  · rw [a.earliest]
    intro mem
    have bound := a.issued d (List.mem_of_mem_take mem)
    omega

lemma Aligned.add {next : Nat} (later : counter ≤ next) (short : other.length ≤ orsetKeyMax) (replica : Replica) :
    Aligned key (orsetAdd adder next other replica).1
      (orsetApplyDelta receiver (addDelta other ⟨replica, next + 1⟩)) (next + 1)
      (if other = key then dots ++ [⟨replica, next + 1⟩] else dots) := by
  obtain ⟨wfA, _, _, dotsA⟩ := orsetAdd_spec a.adderWf next short replica
  obtain ⟨wfB, ccB, dotsB⟩ := applyDelta_add_spec a.receiverWf other ⟨replica, next + 1⟩
  refine ⟨wfA, wfB, ?_, ?_, ?_, ?_, ?_, ?_⟩
  · rw [dotsA]
    by_cases same : other = key
    · rw [if_pos same.symm, if_pos same, same, a.latest, orsetPushDot_latest]
    · rw [if_neg (fun h => same h.symm), if_neg same, a.latest]
  · by_cases same : other = key
    · subst same
      have above : counter < (⟨replica, next + 1⟩ : Dot).counter := Nat.lt_succ_of_le later
      obtain ⟨unknown, absent⟩ := a.unseen above
      rw [applyDelta_add_new a.receiverWf (a.positive other) absent unknown, if_pos rfl, if_pos rfl,
        a.earliest, take_append_dot]
    · rw [dotsB, if_neg (fun h => same h.symm), if_neg same, a.earliest]
  · split
    · rw [List.pairwise_append]
      refine ⟨a.ordered, List.pairwise_singleton _ _, fun d mem d' last => ?_⟩
      have bound := a.issued d mem
      rw [List.mem_singleton.mp last]
      dsimp only
      omega
    · exact a.ordered
  · intro d mem
    split at mem
    · rcases List.mem_append.mp mem with old | new
      · have bound := a.issued d old
        omega
      · exact Nat.le_of_eq (congrArg Dot.counter (List.mem_singleton.mp new))
    · have bound := a.issued d mem
      omega
  · intro k d mem
    rw [dotsB] at mem
    split at mem
    · rcases mem_orsetMergeDots mem with old | new
      · exact a.positive other d old
      · rw [List.mem_singleton.mp new]
        exact Nat.succ_pos next
    · exact a.positive k d mem
  · intro d positive known
    rcases ccMerge_sound _ _ _ positive (addDelta_keyed _ _) known with old | new
    · have bound := a.context d positive old
      omega
    · exact Nat.le_of_eq (congrArg Dot.counter ((addDelta_contains _ _ _ positive).mp new))

lemma Aligned.skip {next : Nat} (later : counter ≤ next) :
    Aligned key adder (orsetApplyDelta receiver (removeDelta [])) next dots := by
  obtain ⟨wf, cc, dotsOf⟩ := applyDelta_remove_spec a.receiverWf []
  have untouched (k : Key) : (orsetApplyDelta receiver (removeDelta [])).dots k = receiver.dots k := by
    rw [dotsOf]
    exact List.filter_eq_self.mpr (fun d _ => rfl)
  refine ⟨a.adderWf, wf, a.latest, (untouched key).trans a.earliest, a.ordered, ?_, ?_, ?_⟩
  · exact fun d mem => Nat.le_trans (a.issued d mem) later
  · intro k
    rw [untouched]
    exact a.positive k
  · intro d positive known
    exact Nat.le_trans (a.context d positive known) later

end

lemma addRun_aligned (replica : Replica) (key : Key) (adds : List (Nat × Key))
    (a : Aligned key adder receiver counter dots) : let run := addRun replica adder counter adds
    ∃ dots', Aligned key run.1 (run.2.2.foldl orsetApplyDelta receiver) run.2.1 dots' ∧ dots'.length = dots.length +
        if key.length ≤ orsetKeyMax then adds.countP (fun add => add.2 = key) else 0 := by
  induction adds generalizing adder receiver counter dots with
  | nil => exact ⟨dots, a, by simp⟩
  | cons add rest ih =>
    obtain ⟨ticks, other⟩ := add
    by_cases short : other.length ≤ orsetKeyMax
    · obtain ⟨_, _, issued, _⟩ := orsetAdd_spec a.adderWf (counter + ticks) short replica
      obtain ⟨dots', aligned, length⟩ := ih (a.add (Nat.le_add_right counter ticks) short replica)
      refine ⟨dots', ?_, ?_⟩
      · simpa only [addRun, issued, List.foldl_cons] using aligned
      · rw [length, List.countP_cons]
        by_cases same : other = key
        · simp only [same, ↓reduceIte, List.length_append, List.length_singleton, decide_true]
          rw [same] at short
          simp only [short, ↓reduceIte]
          omega
        · simp [same]
    · have unchanged := orsetAdd_long adder short (counter + ticks) replica
      obtain ⟨dots', aligned, length⟩ := ih (a.skip (Nat.le_add_right counter ticks))
      refine ⟨dots', ?_, ?_⟩
      · simpa only [addRun, unchanged, List.foldl_cons] using aligned
      · rw [length, List.countP_cons]
        by_cases same : other = key
        · rw [same] at short
          simp [short]
        · simp [same]

lemma latestDots_few (few : dots.length ≤ orsetMaxDots) : latestDots dots = dots := by
  have all : dots.length - orsetMaxDots = 0 := by omega
  simp [latestDots, all]

lemma first_dot_evicted (ordered : dots.Pairwise (fun d d' => d.counter < d'.counter))
    (many : orsetMaxDots < dots.length) : ∃ d ∈ dots.take orsetMaxDots, d ∉ latestDots dots := by
  cases dots with
  | nil => simp at many
  | cons first rest =>
    refine ⟨first, by simp [orsetMaxDots], fun kept => ?_⟩
    have later : first ∈ rest := by
      have past : 0 < (first :: rest).length - orsetMaxDots := by omega
      obtain ⟨n, shift⟩ := Nat.exists_eq_succ_of_ne_zero (Nat.pos_iff_ne_zero.mp past)
      rw [latestDots, shift, List.drop_succ_cons] at kept
      exact List.mem_of_mem_drop kept
    exact Nat.lt_irrefl _ ((List.pairwise_cons.mp ordered).1 first later)

/-- One replica adds keys and removes one, another applies its deltas in order. The key is absent at both exactly when
it was added at most four times, or is too long. -/
theorem observed_remove_iff (replica : Replica) (capA capB counter : Nat) (adds : List (Nat × Key)) (key : Key) :
    let run := addRun replica (orsetInit capA) counter adds
    let receiver := run.2.2.foldl orsetApplyDelta (orsetInit capB)
    let removal := orsetRemove run.1 key
    (orsetContains removal.1 key = false ∧ orsetContains (orsetApplyDelta receiver removal.2) key = false) ↔
      orsetKeyMax < key.length ∨ adds.countP (fun add => add.2 = key) ≤ orsetMaxDots := by
  intro run receiver removal
  obtain ⟨dots, a, length⟩ := addRun_aligned replica key adds (aligned_init key capA capB counter)
  obtain ⟨wfA, _, delta, dotsA⟩ := orsetRemove_spec a.adderWf key
  obtain ⟨wfB, _, dotsB⟩ := applyDelta_remove_spec a.receiverWf (run.1.dots key)
  have absentA : orsetContains removal.1 key = false := by
    rw [← Bool.not_eq_true, orsetContains_iff _ wfA, dotsA, if_pos rfl]
    simp
  have few := a.adderWf.dots_bounded key
  have absentB : orsetContains (orsetApplyDelta receiver removal.2) key = false ↔
      ∀ d ∈ dots.take orsetMaxDots, d ∈ latestDots dots := by
    have issued : removal.2 = removeDelta (run.1.dots key) := delta
    rw [issued, ← Bool.not_eq_true, orsetContains_iff _ wfB, not_not, dotsB, List.filter_eq_nil_iff,
      ← a.earliest, ← a.latest]
    apply forall₂_congr
    intro d mem
    have covers := removeDelta_contains _ few d (a.positive key d mem)
    simpa using covers
  have counted : dots.length ≤ orsetMaxDots ↔
      orsetKeyMax < key.length ∨ adds.countP (fun add => add.2 = key) ≤ orsetMaxDots := by
    rw [length]
    by_cases short : key.length ≤ orsetKeyMax
    · have notLong : ¬ orsetKeyMax < key.length := by omega
      simp [short, notLong]
    · have long : orsetKeyMax < key.length := by omega
      simp [short, long]
  rw [← counted, absentB]
  constructor
  · rintro ⟨-, covered⟩
    by_contra many
    obtain ⟨d, early, evicted⟩ := first_dot_evicted a.ordered (by omega)
    exact evicted (covered d early)
  · intro small
    refine ⟨absentA, fun d mem => ?_⟩
    rw [latestDots_few small]
    exact List.mem_of_mem_take mem

/-- Five adds of one key: the removal leaves it at the receiver. -/
theorem observed_remove_fails :
    let run := addRun replicaA (orsetInit 0) 0 [(0, [120]), (0, [120]), (0, [120]), (0, [120]), (0, [120])]
    let receiver := run.2.2.foldl orsetApplyDelta (orsetInit 0)
    let removal := orsetRemove run.1 [120]
    orsetContains removal.1 [120] = false ∧ orsetContains (orsetApplyDelta receiver removal.2) [120] = true := by
  decide

end LibOp.Crdt

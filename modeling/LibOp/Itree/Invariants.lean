import LibOp.Itree.Queries

namespace LibOp.Itree

open Foundation Int64 LlrbTree Multiset List Option

variable {P : Type}

def segmentEnds (h : INode P) : Set Int64 := { hi | ∃ n ∈ h.toList, ∃ s ∈ n.segs, s.hi = hi }

lemma foldl_hi_attained {segs : List (Segment P)} (ne : segs ≠ []) :
    ∃ s ∈ segs, s.hi = segs.foldl (fun hi s => if s.hi > hi then s.hi else hi) minValue := by
  have reached (segs : List (Segment P)) (start : Int64) :
      segs.foldl (fun hi s => if s.hi > hi then s.hi else hi) start = start ∨
        ∃ s ∈ segs, s.hi = segs.foldl (fun hi s => if s.hi > hi then s.hi else hi) start := by
    induction segs generalizing start with
    | nil => exact Or.inl rfl
    | cons s segs ih =>
      rw [List.foldl_cons]
      rcases ih (if s.hi > start then s.hi else start) with same | found
      · rw [same]
        split
        · exact Or.inr ⟨s, mem_cons_self, rfl⟩
        · exact Or.inl rfl
      · obtain ⟨s', mem, top⟩ := found
        exact Or.inr ⟨s', mem_cons_of_mem s mem, top⟩
  rcases reached segs minValue with least | found
  · obtain ⟨s, mem⟩ := exists_mem_of_ne_nil segs ne
    have low := (le_foldl_hi segs minValue).2 s mem
    rw [least] at low ⊢
    exact ⟨s, mem, Int64.le_antisymm low (minValue_le s.hi)⟩
  · exact found

lemma maxEnd_attained (left right : Option Int64) {n : Chain P} (ne : n.segs ≠ []) :
    (∃ s ∈ n.segs, s.hi = maxEnd left n right) ∨ left = some (maxEnd left n right) ∨
      right = some (maxEnd left n right) := by
  obtain ⟨s, mem, top⟩ := foldl_hi_attained ne
  unfold maxEnd max3
  cases left <;> cases right <;> simp only [getD_none, getD_some] <;> grind

section

variable {h : INode P} (annotated : LlrbTree.Annotated maxEnd h) (chains : ∀ n ∈ h.toList, n.segs ≠ [])

include annotated chains

lemma note_mem_ends {m : Int64} (known : h.note? = some m) : m ∈ segmentEnds h := by
  induction h generalizing m with
  | nil => cases known
  | node c l n top r left right =>
    cases known
    obtain ⟨rfl, annotatedLeft, annotatedRight⟩ := annotated
    have below {n' : Chain P} (mem : n' ∈ l.toList) : n' ∈ l.toList ++ n :: r.toList := mem_append_left _ mem
    have above {n' : Chain P} (mem : n' ∈ r.toList) : n' ∈ l.toList ++ n :: r.toList :=
      mem_append_right _ (mem_cons_of_mem n mem)
    rcases maxEnd_attained l.note? r.note? (chains n (by simp)) with here | note | note
    · exact ⟨n, by simp, here⟩
    · obtain ⟨n', mem, found⟩ := left annotatedLeft (fun n' mem => chains n' (below mem)) note
      exact ⟨n', below mem, found⟩
    · obtain ⟨n', mem, found⟩ := right annotatedRight (fun n' mem => chains n' (above mem)) note
      exact ⟨n', above mem, found⟩

lemma notes_greatest : h.Everywhere fun h => ∀ m, h.note? = some m → IsGreatest (segmentEnds h) m := by
  induction h with
  | nil => exact trivial
  | node c l n top r left right =>
    apply And.intro
    · intro m known
      apply And.intro (note_mem_ends annotated chains known)
      intro hi inside
      obtain ⟨n', mem, s, held, rfl⟩ := inside
      apply hi_le_note annotated known ⟨n'.lo, s.hi, s.val⟩
      exact mem_flatMap.mpr ⟨n', mem, (mem_intervals _ n').mpr ⟨rfl, held⟩⟩
    · obtain ⟨-, annotatedLeft, annotatedRight⟩ := annotated
      exact ⟨left annotatedLeft fun n' mem => chains n' (by simp [mem]),
        right annotatedRight fun n' mem => chains n' (by simp [mem])⟩

end

section

lemma segs_ne_nil_iff (n : Chain P) : n.segs ≠ [] ↔ n.bag.2 ≠ 0 := by
  simp [Chain.bag, Chain.intervals]

variable {lo hi : Int64} {val : P} {l : List (Chain P)}

lemma segs_insertSorted (chains : ∀ n ∈ l, n.segs ≠ []) :
    ∀ n ∈ insertSorted (orderLo lo) ⟨lo, [⟨hi, val⟩]⟩ (fun n => { n with segs := ⟨hi, val⟩ :: n.segs }) l,
      n.segs ≠ [] := by
  induction l with
  | nil => simp [insertSorted]
  | cons v l ih =>
    rw [insertSorted]
    split_ifs <;> simp_all

variable [DecidableEq P] {t t' : OpItree P} {m : Multiset (Interval P)} {reply : Int}

lemma segs_eraseSorted (chains : ∀ n ∈ l, n.segs ≠ []) :
    ∀ n ∈ eraseSorted (orderLo lo) (unlinkSeg hi val) l, n.segs ≠ [] := by
  induction l with
  | nil => simp [eraseSorted]
  | cons v l ih =>
    rw [eraseSorted]
    split_ifs
    · rw [unlinkSeg]
      split_ifs <;> simp_all
    · simp_all

omit [DecidableEq P] in
lemma insert_contents (rep : Represents t m) (valid : ¬ hi < lo) (done : opItreeInsert t lo hi val = some (t', reply)) :
    t'.root.toList = insertSorted (orderLo lo) ⟨lo, [⟨hi, val⟩]⟩ (fun n => { n with segs := ⟨hi, val⟩ :: n.segs })
      t.root.toList := by
  obtain ⟨-, asc, ⟨n, balanced⟩, -, -⟩ := rep
  obtain ⟨root, found, inserted, -, contents, -⟩ := insert_root maxEnd (orderLo lo)
    ⟨lo, [⟨hi, val⟩]⟩ hi (fun n => { n with segs := ⟨hi, val⟩ :: n.segs }) (sortedFor_lo asc lo) balanced
  rw [opItreeInsert, if_neg valid] at done
  simp only [Itree.insert, inserted, bind_eq_bind, bind_some] at done
  split at done
  · cases done
  · cases done
    rw [toList_aug, toList_blacken, contents]

omit [DecidableEq P] in
lemma chains_insert (rep : Represents t m) (chains : ∀ n ∈ t.root.toList, n.segs ≠ [])
    (done : opItreeInsert t lo hi val = some (t', reply)) : ∀ n ∈ t'.root.toList, n.segs ≠ [] := by
  by_cases invalid : hi < lo
  · rw [opItreeInsert, if_pos invalid] at done
    cases done
    exact chains
  · rw [insert_contents rep invalid done]
    exact segs_insertSorted chains

lemma chains_delete (rep : Represents t m) (chains : ∀ n ∈ t.root.toList, n.segs ≠ [])
    (done : opItreeDelete t lo hi val = some (t', reply)) : ∀ n ∈ t'.root.toList, n.segs ≠ [] := by
  rw [opItreeDelete] at done
  split at done
  · cases done
    exact chains
  · obtain ⟨-, asc, ⟨n, balanced⟩, -, -⟩ := rep
    have enough : t.root.toList.length < t.root.size + 1 := by
      rw [size_eq_length]
      exact Nat.lt_succ_self _
    obtain ⟨root, chain, deleted, -, contents, -⟩ := del_root maxEnd (unlinkSeg hi val) stealSegs
      Chain.bag bag_stealSegs (sortedFor_lo asc lo) balanced enough
    simp only [del, deleted, bind_eq_bind, bind_some] at done
    cases done
    intro n mem
    have image : n.bag ∈ (eraseSorted (orderLo lo) (unlinkSeg hi val) t.root.toList).map Chain.bag := by
      rw [← contents]
      exact mem_map_of_mem (by rwa [toList_blacken] at mem)
    obtain ⟨n', held, same⟩ := mem_map.mp image
    rw [segs_ne_nil_iff, ← same, ← segs_ne_nil_iff]
    exact segs_eraseSorted chains n' held

end

structure ItreeInvariants {P : Type} (t : OpItree P) : Prop where
  ordered : (t.root.toList.map Chain.lo).Pairwise (· < ·)
  chains : ∀ n ∈ t.root.toList, n.segs ≠ []
  maxEnds : t.root.Everywhere fun h => ∀ m, h.note? = some m → IsGreatest (segmentEnds h) m
  rootBlack : t.root.isRed = false
  noRedPair : t.root.Everywhere fun h => h.isRed = true → h.left.isRed = false ∧ h.right.isRed = false
  rightBlack : t.root.Everywhere fun h => h.right.isRed = false
  blackBalance : ∃ n, ∀ k ∈ t.root.blackCounts, k = n

theorem itree_invariants_hold {P : Type} [DecidableEq P] (ops : List (ItreeOp P)) :
    ∃ t replies, runReplies itreeStep opItreeCreate ops = some (t, replies) ∧ ItreeInvariants t := by
  have step (t : OpItree P) (m : Multiset (Interval P)) (op : ItreeOp P)
      (kept : Represents t m ∧ ∀ n ∈ t.root.toList, n.segs ≠ []) :
      ∃ t', itreeStep t op = some (t', (bagStep m op).2) ∧ Represents t' (bagStep m op).1 ∧
        ∀ n ∈ t'.root.toList, n.segs ≠ [] := by
    obtain ⟨rep, chains⟩ := kept
    obtain ⟨t', done, next⟩ := rep.step op
    refine ⟨t', done, next, ?_⟩
    cases op with
    | insert lo hi val => exact chains_insert rep chains done
    | delete lo hi val => exact chains_delete rep chains done
  obtain ⟨t, ran, ⟨-, ordered, ⟨n, balanced⟩, annotated, -⟩, chains⟩ :=
    runReplies_simulates (fun t m op (_ : op ∈ ops) kept => step t m op kept)
      ⟨create_represents, fun _ bad => absurd bad not_mem_nil⟩
  exact ⟨t, _, ran, ordered, chains, notes_greatest annotated chains, balanced.not_red, balanced.no_red_pair,
    balanced.right_black, n, balanced.blackCounts_eq⟩

variable [DecidableEq P]

def insertedStep (l : List (Interval P)) : ItreeOp P → List (Interval P)
  | .insert lo hi val => if hi < lo then l else l ++ [⟨lo, hi, val⟩]
  | .delete lo hi val => l.erase ⟨lo, hi, val⟩

def inserted (ops : List (ItreeOp P)) : List (Interval P) := ops.foldl insertedStep []

def overlapVisits (t : OpItree P) (a b : Int64) : List (Interval P) :=
  opItreeOverlap t a b (fun seen lo hi val => (seen ++ [⟨lo, hi, val⟩], true)) []

def stabVisits (t : OpItree P) (x : Int64) : List (Interval P) :=
  opItreeStab t x (fun seen lo hi val => (seen ++ [⟨lo, hi, val⟩], true)) []

structure InInsertionOrder (t : OpItree P) (l : List (Interval P)) : Prop where
  overlap : ∀ a b lo, a ≤ b →
    (overlapVisits t a b).filter (·.lo = lo) = l.filter fun i => i.lo = lo ∧ i.lo ≤ b ∧ a ≤ i.hi
  stab : ∀ x lo, (stabVisits t x).filter (·.lo = lo) = l.filter fun i => i.lo = lo ∧ i.lo ≤ x ∧ x ≤ i.hi

lemma bag_inserted (ops : List (ItreeOp P)) :
    ((inserted ops : List (Interval P)) : Multiset (Interval P)) = (specReplies bagStep 0 ops).1 := by
  have step (l : List (Interval P)) (op : ItreeOp P) :
      ((insertedStep l op : List (Interval P)) : Multiset (Interval P)) = (bagStep l op).1 := by
    cases op with
    | insert lo hi val =>
      rw [insertedStep, bagStep]
      split
      · rfl
      · rw [← coe_add, coe_singleton, Multiset.add_comm, singleton_add]
    | delete lo hi val => exact (coe_erase l _).symm
  have run (l : List (Interval P)) : ((ops.foldl insertedStep l : List (Interval P)) : Multiset (Interval P)) =
      (specReplies bagStep (l : Multiset (Interval P)) ops).1 := by
    induction ops generalizing l with
    | nil => rfl
    | cons op ops ih => rw [List.foldl_cons, ih, step, specReplies]
  exact run []

omit [DecidableEq P] in
lemma Reports.visits {query : (σ : Type) → (σ → Int64 → Int64 → P → σ × Bool) → σ → σ} (reports : Reports query calls) :
    query (List (Interval P)) (fun seen lo hi val => (seen ++ [⟨lo, hi, val⟩], true)) [] = calls := by
  rw [reports.all _ _ _ fun _ _ _ _ => rfl]
  simp [← flatMap_def]

def Alike (l : List (Interval P)) : Prop := ∀ i ∈ l, ∀ j ∈ l, i.lo = j.lo → i = j

omit [DecidableEq P] in
lemma filter_eq_of_bag {l calls : List (Interval P)} {lo : Int64} {p : Interval P → Prop} [DecidablePred p]
    (alike : Alike l) (bag : (calls : Multiset (Interval P)) = Multiset.filter p l) :
    calls.filter (·.lo = lo) = l.filter fun i => i.lo = lo ∧ p i := by
  have perm : (calls.filter (·.lo = lo)).Perm (l.filter fun i => i.lo = lo ∧ p i) := by
    rw [filter_coe, coe_eq_coe] at bag
    have filtered := bag.filter fun i => i.lo = lo
    rwa [List.filter_filter, show (fun i : Interval P => decide (i.lo = lo) && decide (p i)) =
      fun i => decide (i.lo = lo ∧ p i) from funext fun i => (Bool.decide_and _ _).symm] at filtered
  have same : ∀ i ∈ l.filter fun i => i.lo = lo ∧ p i, ∀ j ∈ l.filter fun i => i.lo = lo ∧ p i, i = j := by
    simp only [List.mem_filter, decide_eq_true_eq]
    intro i first j second
    exact alike i first.1 j second.1 (first.2.1.trans second.2.1.symm)
  generalize l.filter (fun i => i.lo = lo ∧ p i) = kept at perm same
  rcases kept with _ | ⟨i, rest⟩
  · exact perm.eq_nil
  · rw [eq_replicate_of_mem fun j mem => same j mem i mem_cons_self] at perm ⊢
    exact perm_replicate.mp perm

omit [DecidableEq P] in
lemma ordered_of_alike {t : OpItree P} {l : List (Interval P)} (rep : Represents t l) (alike : Alike l) :
    InInsertionOrder t l := by
  obtain ⟨-, overlap, stab⟩ := rep.answers
  apply InInsertionOrder.mk
  · intro a b lo ordered
    obtain ⟨calls, bag, -, reports⟩ := overlap a b ordered
    rw [overlapVisits, reports.visits]
    exact filter_eq_of_bag alike bag
  · intro x lo
    obtain ⟨calls, bag, -, reports⟩ := stab x
    rw [stabVisits, reports.visits]
    exact filter_eq_of_bag alike bag

/-- An insertion meets no stored interval of its start, other than the interval itself. -/
def StartUnshared (l : List (Interval P)) : ItreeOp P → Prop
  | .insert lo hi val => lo ≤ hi → ∀ i ∈ l, i.lo = lo → i = ⟨lo, hi, val⟩
  | .delete _ _ _ => True

lemma alike_step {l : List (Interval P)} {op : ItreeOp P} (alike : Alike l) (unshared : StartUnshared l op) :
    Alike (insertedStep l op) := by
  cases op with
  | insert lo hi val =>
    rw [insertedStep]
    split
    · exact alike
    next valid =>
      have others := unshared (Int64.not_lt.mp valid)
      intro i first j second same
      rw [mem_append, List.mem_singleton] at first second
      rcases first with first | rfl <;> rcases second with second | rfl
      · exact alike i first j second same
      · exact others i first same
      · exact (others j second same.symm).symm
      · rfl
  | delete lo hi val =>
    intro i first j second
    exact alike i (mem_of_mem_erase first) j (mem_of_mem_erase second)

lemma inserted_valid (ops : List (ItreeOp P)) : ∀ i ∈ inserted ops, i.lo ≤ i.hi := by
  induction ops using List.reverseRecOn with
  | nil => exact fun _ none => absurd none not_mem_nil
  | append_singleton ops op ih =>
    rw [inserted, foldl_append, ← inserted, List.foldl_cons, List.foldl_nil]
    cases op with
    | insert lo hi val =>
      rw [insertedStep]
      split
      · exact ih
      next valid =>
        intro i mem
        rcases mem_append.mp mem with older | new
        · exact ih i older
        · rw [List.mem_singleton.mp new]
          exact Int64.not_lt.mp valid
    | delete lo hi val => exact fun i mem => ih i (mem_of_mem_erase mem)

omit [DecidableEq P] in
lemma filter_insertSorted (lo hi : Int64) (val : P) (l : List (Chain P)) :
    ((insertSorted (orderLo lo) ⟨lo, [⟨hi, val⟩]⟩ (fun n => { n with segs := ⟨hi, val⟩ :: n.segs }) l).flatMap
      Chain.intervals).filter (·.lo = lo) = ⟨lo, hi, val⟩ :: (l.flatMap Chain.intervals).filter (·.lo = lo) := by
  induction l with
  | nil => simp [insertSorted, Chain.intervals]
  | cons n l ih =>
    rw [insertSorted]
    split_ifs with less greater
    · simp [Chain.intervals]
    · have other : n.intervals.filter (·.lo = lo) = [] := by
        apply filter_eq_nil_iff.mpr
        intro i mem here
        rw [decide_eq_true_eq, ← ((mem_intervals i n).mp mem).1, ← orderLo_eq_zero_iff lo n] at here
        omega
      rw [flatMap_cons, List.filter_append, ih, flatMap_cons, List.filter_append, other, nil_append, nil_append]
    · have same : n.lo = lo := (orderLo_eq_zero_iff lo n).mp (by omega)
      simp [Chain.intervals, same]

omit [DecidableEq P] in
lemma stabVisits_start {t : OpItree P} {m : Multiset (Interval P)} (rep : Represents t m) (lo : Int64) :
    (stabVisits t lo).filter (·.lo = lo) =
      ((t.root.toList.flatMap Chain.intervals).filter (·.lo = lo)).filter (overlaps lo lo) := by
  have visits : stabVisits t lo = (t.root.toList.flatMap Chain.intervals).filter (overlaps lo lo) := by
    rw [stabVisits, opItreeStab, queryOverlap_eq_foldl rep.annotated rep.ascending, foldl_offer_eq_visitUntil,
      visitUntil_of_continues fun _ _ => rfl]
    simp [← flatMap_def]
  rw [visits, List.filter_filter, List.filter_filter]
  simp only [Bool.and_comm]

lemma eq_of_cons_eq_append {α : Type*} {a : α} {l : List α} (same : a :: l = l ++ [a]) : ∀ b ∈ l, b = a := by
  induction l with
  | nil => exact fun _ none => absurd none not_mem_nil
  | cons c l ih =>
    obtain ⟨rfl, rest⟩ := List.cons.inj same
    intro b mem
    rcases List.mem_cons.mp mem with rfl | later
    · rfl
    · exact ih rest b later

omit [DecidableEq P] in
/-- The new interval becomes the head of its chain, so the order survives only among equal intervals. -/
lemma unshared_of_ordered {t t' : OpItree P} {l : List (Interval P)} {lo hi : Int64} {val : P} {reply : Int}
    (rep : Represents t l) (valid : ∀ i ∈ l, i.lo ≤ i.hi) (ordered : InInsertionOrder t l)
    (done : opItreeInsert t lo hi val = some (t', reply)) (next : Represents t' (⟨lo, hi, val⟩ ::ₘ l))
    (orderedNext : InInsertionOrder t' (l ++ [⟨lo, hi, val⟩])) (start : lo ≤ hi) :
    ∀ i ∈ l, i.lo = lo → i = ⟨lo, hi, val⟩ := by
  have earlier := ordered.stab lo lo
  have later := orderedNext.stab lo lo
  rw [stabVisits_start next, insert_contents rep (Int64.not_lt.mpr start) done, filter_insertSorted,
    List.filter_cons_of_pos ((overlaps_iff _ _ _).mpr ⟨Int64.le_refl lo, start⟩), ← stabVisits_start rep, earlier,
    List.filter_append, List.filter_cons_of_pos (by simpa using start), List.filter_nil] at later
  intro i mem here
  apply eq_of_cons_eq_append later i
  rw [List.mem_filter, decide_eq_true_eq, here]
  exact ⟨mem, rfl, Int64.le_refl lo, here ▸ valid i mem⟩

/-- Two intervals that start together are reported the newer one first. -/
theorem shared_start_newest_first :
    ∃ t, runReplies itreeStep opItreeCreate [.insert 0 5 1, .insert 0 6 2] = some (t, [1, 1]) ∧
      stabVisits t 3 = [⟨0, 6, 2⟩, ⟨0, 5, 1⟩] ∧ overlapVisits t 2 4 = [⟨0, 6, 2⟩, ⟨0, 5, 1⟩] :=
  ⟨_, rfl, rfl, rfl⟩

def OrderedAfter (ops : List (ItreeOp P)) : Prop :=
  ∃ t replies, runReplies itreeStep opItreeCreate ops = some (t, replies) ∧ InInsertionOrder t (inserted ops)

variable {ops : List (ItreeOp P)}

lemma orderedAfter_of_alike (alike : Alike (inserted ops)) : OrderedAfter ops := by
  obtain ⟨t, ran, rep⟩ := run_represents ops
  rw [← bag_inserted] at rep
  exact ⟨t, _, ran, ordered_of_alike rep alike⟩

lemma orderedAfter_concat_iff (alike : Alike (inserted ops)) (op : ItreeOp P) :
    OrderedAfter (ops ++ [op]) ↔ StartUnshared (inserted ops) op := by
  have concat : inserted (ops ++ [op]) = insertedStep (inserted ops) op := foldl_concat ..
  constructor
  · rintro ⟨t', replies, ran', ordered⟩
    obtain ⟨t, ran, rep⟩ := run_represents ops
    rw [← bag_inserted] at rep
    obtain ⟨next, done, repNext⟩ := rep.step op
    rw [runReplies_concat ran done] at ran'
    cases ran'
    cases op with
    | insert lo hi val =>
      intro start
      rw [concat, insertedStep, if_neg (Int64.not_lt.mpr start)] at ordered
      rw [bagStep, if_neg (Int64.not_lt.mpr start)] at repNext
      exact unshared_of_ordered rep (inserted_valid ops) (ordered_of_alike rep alike) done repNext ordered start
    | delete lo hi val => exact trivial
  · intro unshared
    exact orderedAfter_of_alike (concat ▸ alike_step alike unshared)

theorem insertion_order_iff (ops : List (ItreeOp P)) :
    (∀ before, before <+: ops → ∃ t replies, runReplies itreeStep opItreeCreate before = some (t, replies) ∧
      InInsertionOrder t (inserted before)) ↔ Permitted StartUnshared insertedStep [] ops := by
  have empty : Alike ([] : List (Interval P)) := fun _ none => absurd none not_mem_nil
  induction ops using List.reverseRecOn with
  | nil =>
    refine ⟨fun _ => trivial, fun _ before initial => ?_⟩
    rw [List.prefix_nil.mp initial]
    exact orderedAfter_of_alike empty
  | append_singleton ops op ih =>
    simp only [prefix_concat_iff, or_imp, forall_and, forall_eq]
    rw [permitted_append, And.comm, permitted_cons, and_iff_left (permitted_nil _ _ _)]
    refine Iff.trans (and_congr_right fun ordered => ?_) (and_congr_left' ih)
    exact orderedAfter_concat_iff ((ih.mp ordered).preserves (fun _ _ => alike_step) empty) op

end LibOp.Itree

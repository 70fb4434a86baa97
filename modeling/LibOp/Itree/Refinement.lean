import LibOp.Itree.Tree

namespace LibOp.Itree

open Foundation List Chain LlrbTree

structure Interval (P : Type) where
  lo : Int64
  hi : Int64
  val : P
deriving DecidableEq

variable {P : Type}

section

variable [DecidableEq P]

def bagStep (m : Multiset (Interval P)) : ItreeOp P → Multiset (Interval P) × Int
  | .insert lo hi val => if hi < lo then (m, -1) else (⟨lo, hi, val⟩ ::ₘ m, 1)
  | .delete lo hi val => (m.erase ⟨lo, hi, val⟩, if ⟨lo, hi, val⟩ ∈ m then 1 else 0)

end

section

def Chain.intervals (n : Chain P) : List (Interval P) := n.segs.map fun s => ⟨n.lo, s.hi, s.val⟩

def stored (l : List (Chain P)) : Multiset (Interval P) := (l.flatMap Chain.intervals : List (Interval P))

@[simp] lemma stored_nil : stored ([] : List (Chain P)) = 0 := rfl

@[simp] lemma stored_cons (n : Chain P) (l : List (Chain P)) :
    stored (n :: l) = (n.intervals : Multiset (Interval P)) + stored l := rfl

lemma stored_append (l r : List (Chain P)) : stored (l ++ r) = stored l + stored r := by
  rw [stored, flatMap_append, ← Multiset.coe_add]
  rfl

@[simp] lemma mem_intervals (x : Interval P) (n : Chain P) :
    x ∈ n.intervals ↔ n.lo = x.lo ∧ ⟨x.hi, x.val⟩ ∈ n.segs := by
  rw [intervals, mem_map]
  constructor
  · intro holds
    obtain ⟨s, mem, same⟩ := holds
    cases same
    exact ⟨rfl, mem⟩
  · intro holds
    obtain ⟨same, mem⟩ := holds
    exact ⟨_, mem, by rw [same]⟩

lemma mem_stored (x : Interval P) (l : List (Chain P)) :
    x ∈ stored l ↔ ∃ n ∈ l, n.lo = x.lo ∧ ⟨x.hi, x.val⟩ ∈ n.segs := by
  rw [stored, Multiset.mem_coe, mem_flatMap]
  simp

def Chain.bag (n : Chain P) : Int64 × Multiset (Interval P) := (n.lo, n.intervals)

lemma bag_stealSegs (n : Chain P) : (stealSegs n).bag = n.bag := by
  rw [Chain.bag, intervals, stealSegs_segs, map_reverse, Multiset.coe_reverse]
  rfl

lemma stored_eq_sum (l : List (Chain P)) : stored l = ((l.map Chain.bag).map Prod.snd).sum := by
  induction l with
  | nil => rfl
  | cons n l ih =>
    rw [stored_cons, ih]
    rfl

lemma map_lo_eq (l : List (Chain P)) : l.map Chain.lo = (l.map Chain.bag).map Prod.fst := by
  rw [map_map]
  rfl

lemma stored_insertSorted (lo hi : Int64) (val : P) (l : List (Chain P)) :
    stored (insertSorted (orderLo lo) ⟨lo, [⟨hi, val⟩]⟩ (fun n => { n with segs := ⟨hi, val⟩ :: n.segs }) l) =
      ⟨lo, hi, val⟩ ::ₘ stored l := by
  induction l with
  | nil => rfl
  | cons n l ih =>
    rw [insertSorted]
    split
    · rfl
    next notLess =>
      split
      · rw [stored_cons, ih, stored_cons, Multiset.add_cons]
      next notGreater =>
        have same : n.lo = lo := (orderLo_eq_zero_iff lo n).mp (by omega)
        rw [stored_cons, stored_cons, intervals, map_cons, ← Multiset.cons_coe, Multiset.cons_add, same]
        rw [intervals, same]

variable [DecidableEq P]

lemma stored_unlinkSeg (hi : Int64) (val : P) (n : Chain P) :
    stored (unlinkSeg hi val n).toList = Multiset.erase (n.intervals : Multiset (Interval P)) ⟨n.lo, hi, val⟩ := by
  have inj : Function.Injective fun s : Segment P => (⟨n.lo, s.hi, s.val⟩ : Interval P) := by
    intro s s' same
    cases s
    cases s'
    cases same
    rfl
  have erased : n.intervals.erase ⟨n.lo, hi, val⟩ = (n.segs.erase ⟨hi, val⟩).map fun s => ⟨n.lo, s.hi, s.val⟩ :=
    (map_erase (a := ⟨hi, val⟩) inj n.segs).symm
  rw [Multiset.coe_erase, erased, unlinkSeg]
  split
  next empty => rw [List.isEmpty_iff.mp empty, map_nil, Option.toList_none, stored_nil, Multiset.coe_nil]
  next => rw [Option.toList_some, stored_cons, stored_nil, Multiset.add_zero, intervals]

variable {l : List (Chain P)}

lemma stored_eraseSorted (lo hi : Int64) (val : P) (ascending : (l.map Chain.lo).Pairwise (· < ·)) :
    stored (eraseSorted (orderLo lo) (unlinkSeg hi val) l) = (stored l).erase ⟨lo, hi, val⟩ := by
  induction l with
  | nil => rfl
  | cons n l ih =>
    obtain ⟨above, rest⟩ := List.pairwise_cons.mp ascending
    rw [eraseSorted, stored_cons]
    split
    next equal =>
      have same : n.lo = lo := (orderLo_eq_zero_iff lo n).mp equal
      have absent : ⟨lo, hi, val⟩ ∉ stored l := by
        rw [mem_stored]
        intro holds
        obtain ⟨n', mem, other, _⟩ := holds
        have less := above n'.lo (mem_map_of_mem mem)
        rw [other, same] at less
        exact Int64.lt_irrefl less
      rw [stored_append, stored_unlinkSeg, same]
      by_cases mem : ⟨lo, hi, val⟩ ∈ (n.intervals : Multiset (Interval P))
      · rw [Multiset.erase_add_left_pos _ mem]
      · rw [Multiset.erase_of_notMem mem, Multiset.erase_add_right_neg _ mem, Multiset.erase_of_notMem absent]
    next differs =>
      have absent : ⟨lo, hi, val⟩ ∉ (n.intervals : Multiset (Interval P)) := by
        rw [Multiset.mem_coe, mem_intervals]
        intro holds
        obtain ⟨same, _⟩ := holds
        exact differs ((orderLo_eq_zero_iff lo n).mpr same)
      rw [stored_cons, ih rest, Multiset.erase_add_right_neg _ absent]

end

structure Represents (t : OpItree P) (m : Multiset (Interval P)) : Prop where
  contents : stored t.root.toList = m
  ascending : (t.root.toList.map Chain.lo).Pairwise (· < ·)
  balanced : ∃ n, LlrbTree.Balanced .black n t.root
  annotated : LlrbTree.Annotated maxEnd t.root
  count : t.count = m.card

lemma sortedFor_lo (ascending : (l.map Chain.lo).Pairwise (· < ·)) (lo : Int64) : SortedFor (orderLo lo) l := by
  apply List.Pairwise.imp _ (List.pairwise_map.mp ascending)
  intro a b less reached
  rw [← Int.not_lt, orderLo_neg_iff, Int64.not_lt] at reached
  exact (orderLo_pos_iff lo a).mpr (Int64.lt_of_lt_of_le less reached)

lemma insertLaws_lo (lo hi : Int64) (val : P) : InsertLaws (fun a b : Chain P => a.lo < b.lo) (orderLo lo)
    ⟨lo, [⟨hi, val⟩]⟩ (fun n => { n with segs := ⟨hi, val⟩ :: n.segs }) := by
  apply InsertLaws.mk
  · intro u v w first second
    exact Int64.lt_trans first second
  · intro v less
    exact (orderLo_neg_iff lo v).mp less
  · intro v greater
    exact (orderLo_pos_iff lo v).mp greater
  · intro v w _ less
    exact less
  · intro u v _ less
    exact less

lemma create_represents : Represents (opItreeCreate : OpItree P) 0 :=
  ⟨rfl, List.Pairwise.nil, ⟨0, .nil⟩, trivial, rfl⟩

lemma unlinkSeg_lo [DecidableEq P] {val : P} (n rest : Chain P) (kept : unlinkSeg hi val n = some rest) :
    rest.lo = n.lo := by
  rw [unlinkSeg] at kept
  split at kept
  · cases kept
  · cases kept
    rfl

lemma found_iff_stored [DecidableEq P] (ascending : (l.map Chain.lo).Pairwise (· < ·)) (lo hi : Int64) (val : P) :
    ((l.find? fun n => orderLo lo n = 0).any fun n => n.segs.contains ⟨hi, val⟩) = true ↔ ⟨lo, hi, val⟩ ∈ stored l := by
  rw [mem_stored, Option.any_eq_true]
  constructor
  · intro holds
    obtain ⟨n, found, mem⟩ := holds
    have same := find?_some found
    exact ⟨n, mem_of_find?_eq_some found, (orderLo_eq_zero_iff lo n).mp (by simpa using same), by simpa using mem⟩
  · intro holds
    obtain ⟨n, inside, same, mem⟩ := holds
    induction l with
    | nil => cases inside
    | cons n' l ih =>
      obtain ⟨above, rest⟩ := List.pairwise_cons.mp ascending
      rcases List.mem_cons.mp inside with rfl | later
      · exact ⟨n, find?_cons_of_pos (by simpa using (orderLo_eq_zero_iff lo n).mpr same), by simpa using mem⟩
      · have less := above n.lo (mem_map_of_mem later)
        rw [same] at less
        rw [find?_cons_of_neg (by simpa using mt (orderLo_eq_zero_iff lo n').mp (Int64.ne_of_lt less))]
        exact ih rest later

variable [DecidableEq P] {t : OpItree P} {m : Multiset (Interval P)}

lemma Represents.insert (rep : Represents t m) (lo hi : Int64) (val : P) :
    ∃ t', opItreeInsert t lo hi val = some (t', (bagStep m (.insert lo hi val)).2) ∧
      Represents t' (bagStep m (.insert lo hi val)).1 := by
  rw [opItreeInsert, bagStep]
  split
  · exact ⟨t, rfl, rep⟩
  · obtain ⟨rfl, ascending, ⟨n, balanced⟩, annotated, count⟩ := rep
    obtain ⟨root, found, inserted, ⟨k, black⟩, contents, -⟩ := insert_root maxEnd (orderLo lo)
      ⟨lo, [⟨hi, val⟩]⟩ hi (fun n => { n with segs := ⟨hi, val⟩ :: n.segs }) (sortedFor_lo ascending lo) balanced
    have ne : root.isNil = false := by
      rw [← Bool.not_eq_true, isNil_iff_toList, contents]
      exact insertSorted_ne_nil _ _ _
    have notes := insert_annotated (maxEnd_leaf lo hi val) annotated inserted
    refine ⟨⟨root.blacken.aug maxEnd, t.count + 1⟩, ?_, ?_, ?_, ?_, ?_, ?_⟩
    · simp [Itree.insert, inserted, ne]
    · rw [toList_aug, toList_blacken, contents, stored_insertSorted]
    · rw [toList_aug, toList_blacken, contents, pairwise_map]
      exact pairwise_insertSorted (insertLaws_lo lo hi val) (List.pairwise_map.mp ascending)
    · exact ⟨k, black.aug⟩
    · exact notes.blacken.below.aug
    · rw [Multiset.card_cons, count]

lemma Represents.delete (rep : Represents t m) (lo hi : Int64) (val : P) :
    ∃ t', opItreeDelete t lo hi val = some (t', (bagStep m (.delete lo hi val)).2) ∧
      Represents t' (bagStep m (.delete lo hi val)).1 := by
  rw [opItreeDelete, bagStep]
  obtain ⟨rfl, ascending, ⟨n, balanced⟩, annotated, count⟩ := rep
  split
  next empty =>
    have none : t.root.toList = [] := (isNil_iff_toList t.root).mp empty
    refine ⟨t, ?_, ?_, ascending, ⟨n, balanced⟩, annotated, ?_⟩
    · simp [none]
    · simp [none]
    · simp [none, count]
  next =>
    have enough : t.root.toList.length < t.root.size + 1 := by
      rw [size_eq_length]
      exact Nat.lt_succ_self _
    obtain ⟨root, chain, deleted, black, contents, search⟩ := del_root maxEnd (unlinkSeg hi val) stealSegs
      Chain.bag bag_stealSegs (sortedFor_lo ascending lo) balanced enough
    have found := found_iff_stored ascending lo hi val
    rw [← search] at found
    refine ⟨⟨root.blacken, if chain.any fun n => n.segs.contains ⟨hi, val⟩ then t.count - 1 else t.count⟩,
      ?_, ?_, ?_, black, ?_, ?_⟩
    · simp only [del, deleted, found, Option.bind_eq_bind, Option.bind_some]
    · rw [toList_blacken, stored_eq_sum, contents, ← stored_eq_sum, stored_eraseSorted lo hi val ascending]
    · rw [toList_blacken, map_lo_eq, contents, ← map_lo_eq]
      exact ascending.sublist (map_eraseSorted_sublist unlinkSeg_lo t.root.toList)
    · exact (del_annotated annotated deleted).blacken
    · simp only [found]
      split
      next mem => rw [Multiset.card_erase_of_mem mem, count, Nat.pred_eq_sub_one]
      next absent => rw [Multiset.erase_of_notMem absent, count]

lemma Represents.step (rep : Represents t m) (op : ItreeOp P) :
    ∃ t', itreeStep t op = some (t', (bagStep m op).2) ∧ Represents t' (bagStep m op).1 := by
  cases op with
  | insert lo hi val => exact rep.insert lo hi val
  | delete lo hi val => exact rep.delete lo hi val

lemma run_represents (ops : List (ItreeOp P)) :
    ∃ t, runReplies itreeStep opItreeCreate ops = some (t, (specReplies bagStep 0 ops).2) ∧
      Represents t (specReplies bagStep 0 ops).1 :=
  runReplies_simulates (fun _ _ op _ rep => rep.step op) create_represents

end LibOp.Itree

import LibOp.Itree.Refinement

namespace LibOp.Itree

open Foundation List Chain

variable {P σ : Type} {a b : Int64} {fn : σ → Int64 → Int64 → P → σ × Bool}

def overlaps (a b : Int64) (x : Interval P) : Bool := x.lo ≤ b && a ≤ x.hi

lemma overlaps_iff (a b : Int64) (x : Interval P) : overlaps a b x = true ↔ x.lo ≤ b ∧ a ≤ x.hi := by
  simp [overlaps]

def offer (fn : σ → Int64 → Int64 → P → σ × Bool) (ctx : QCtx σ) (x : Interval P) : QCtx σ :=
  if ctx.stop then ctx else { ud := (fn ctx.ud x.lo x.hi x.val).1, stop := !(fn ctx.ud x.lo x.hi x.val).2 }

lemma foldl_offer_of_stop (stopped : ctx.stop = true) (l : List (Interval P)) : l.foldl (offer fn) ctx = ctx := by
  induction l with
  | nil => rfl
  | cons x l ih => rw [foldl_cons, offer, if_pos stopped, ih]

lemma foldl_offer_eq_visitUntil (l : List (Interval P)) (ud : σ) :
    (l.foldl (offer fn) ⟨ud, false⟩).ud = (visitUntil (fun ud x => fn ud x.lo x.hi x.val) l ud).1 := by
  induction l generalizing ud with
  | nil => rfl
  | cons x l ih =>
    rw [foldl_cons, visitUntil, offer, if_neg Bool.false_ne_true]
    cases more : (fn ud x.lo x.hi x.val).2 with
    | true => exact ih _
    | false => rw [foldl_offer_of_stop rfl]; rfl

lemma visitSegs_eq_foldl (lo : Int64) (segs : List (Segment P)) (ctx : QCtx σ) :
    visitSegs a b fn lo segs ctx = ((intervals ⟨lo, segs⟩).filter (overlaps a b)).foldl (offer fn) ctx := by
  induction segs generalizing ctx with
  | nil => rfl
  | cons s segs ih =>
    rw [visitSegs]
    split
    next stopped => rw [foldl_offer_of_stop stopped]
    next running =>
      have first : intervals ⟨lo, s :: segs⟩ = ⟨lo, s.hi, s.val⟩ :: intervals ⟨lo, segs⟩ := rfl
      rw [first]
      split
      next hit => rw [filter_cons_of_pos (by simp [overlaps, hit]), foldl_cons, offer, if_neg running, ← ih]
      next miss => rw [filter_cons_of_neg (by simpa [overlaps, and_comm] using miss), ih]

lemma hi_le_note (annotated : LlrbTree.Annotated maxEnd h) {bound : Int64}
    (known : h.note? = some bound) : ∀ x ∈ h.toList.flatMap intervals, x.hi ≤ bound := by
  induction h generalizing bound with
  | nil => cases known
  | node c l n m r left right =>
    cases known
    obtain ⟨rfl, annotatedLeft, annotatedRight⟩ := annotated
    intro x mem
    rw [LlrbTree.toList_node, flatMap_append, flatMap_cons, mem_append, mem_append] at mem
    rcases mem with below | here | above
    · cases note : l.note? with
      | none =>
        cases l with
        | nil => cases below
        | node => cases note
      | some bound => exact Int64.le_trans (left annotatedLeft note x below) (le_max3 _ _ _).2.1
    · exact hi_le_maxEnd _ n _ ⟨x.hi, x.val⟩ ((mem_intervals x n).mp here).2
    · cases note : r.note? with
      | none =>
        cases r with
        | nil => cases above
        | node => cases note
      | some bound => exact Int64.le_trans (right annotatedRight note x above) (le_max3 _ _ _).2.2

variable {l : List (Chain P)}

lemma lo_mem_of_mem_intervals (mem : x ∈ l.flatMap intervals) : x.lo ∈ l.map Chain.lo := by
  obtain ⟨n, inside, here⟩ := List.mem_flatMap.mp mem
  exact List.mem_map.mpr ⟨n, inside, ((mem_intervals x n).mp here).1⟩

lemma filter_overlaps_eq_nil {l : List (Interval P)} (apart : ∀ x ∈ l, x.lo ≤ b → ¬a ≤ x.hi) :
    l.filter (overlaps a b) = [] := by
  rw [filter_eq_nil_iff]
  intro x mem hit
  obtain ⟨starts, reaches⟩ := (overlaps_iff a b x).mp hit
  exact apart x mem starts reaches

lemma queryOverlap_eq_foldl {h : INode P} (annotated : LlrbTree.Annotated maxEnd h)
    (asc : (h.toList.map Chain.lo).Pairwise (· < ·)) (ctx : QCtx σ) :
    queryOverlap a b fn h ctx = ((h.toList.flatMap intervals).filter (overlaps a b)).foldl (offer fn) ctx := by
  induction h generalizing ctx with
  | nil => rfl
  | node c l n m r left right =>
    have bounded := hi_le_note annotated rfl
    obtain ⟨-, annotatedLeft, annotatedRight⟩ := annotated
    rw [LlrbTree.toList_node, map_append, map_cons] at asc
    obtain ⟨below, rest, across⟩ := List.pairwise_append.mp asc
    obtain ⟨above, after⟩ := List.pairwise_cons.mp rest
    rw [queryOverlap]
    split
    next stopped => rw [foldl_offer_of_stop stopped]
    next =>
      split
      next low =>
        have empty : ((LlrbTree.node c l n m r).toList.flatMap intervals).filter (overlaps a b) = [] := by
          apply filter_overlaps_eq_nil
          intro x mem _ reaches
          exact Int64.lt_irrefl (Int64.lt_of_lt_of_le low (Int64.le_trans reaches (bounded x mem)))
        rw [empty, foldl_nil]
      next =>
        rw [LlrbTree.toList_node, flatMap_append, filter_append, foldl_append, left annotatedLeft below]
        generalize ((l.toList.flatMap intervals).filter (overlaps a b)).foldl (offer fn) ctx = ctx
        dsimp only
        split
        next stopped => rw [foldl_offer_of_stop stopped]
        next =>
          split
          next =>
            rw [flatMap_cons, filter_append, foldl_append, visitSegs_eq_foldl, right annotatedRight after]
            split
            · rfl
            next stopped => exact (foldl_offer_of_stop (by simpa using stopped) _).symm
          next high =>
            have empty : ((n :: r.toList).flatMap intervals).filter (overlaps a b) = [] := by
              apply filter_overlaps_eq_nil
              intro x mem starts
              rcases List.mem_cons.mp (lo_mem_of_mem_intervals mem) with same | later
              · exact absurd (same ▸ starts) high
              · exact absurd (Int64.le_trans (Int64.le_of_lt (above x.lo later)) starts) high
            rw [empty, foldl_nil]

/-- The callback gets these intervals in turn, until it returns `false`. -/
structure Reports (query : (σ : Type) → (σ → Int64 → Int64 → P → σ × Bool) → σ → σ) (calls : List (Interval P)) :
    Prop where
  all : ∀ (σ : Type) (fn : σ → Int64 → Int64 → P → σ × Bool) (ud : σ), (∀ ud lo hi val, (fn ud lo hi val).2 = true) →
    query σ fn ud = calls.foldl (fun ud x => (fn ud x.lo x.hi x.val).1) ud
  stopped : ∀ (σ : Type) (fn : σ → Int64 → Int64 → P → σ × Bool) (ud : σ),
    query σ fn ud = (visitUntil (fun ud x => fn ud x.lo x.hi x.val) calls ud).1

structure AnswersAs (t : OpItree P) (m : Multiset (Interval P)) : Prop where
  count : opItreeCount t = m.card
  overlap : ∀ a b, a ≤ b → ∃ calls : List (Interval P), calls = m.filter (fun x => x.lo ≤ b ∧ a ≤ x.hi) ∧
    calls.Pairwise (fun x y => x.lo ≤ y.lo) ∧ Reports (fun _ => opItreeOverlap t a b) calls
  stab : ∀ x, ∃ calls : List (Interval P), calls = m.filter (fun i => i.lo ≤ x ∧ x ≤ i.hi) ∧
    calls.Pairwise (fun i j => i.lo ≤ j.lo) ∧ Reports (fun _ => opItreeStab t x) calls

lemma Reports.of_stopped {query : (σ : Type) → (σ → Int64 → Int64 → P → σ × Bool) → σ → σ}
    (stopped : ∀ (σ : Type) (fn : σ → Int64 → Int64 → P → σ × Bool) (ud : σ),
      query σ fn ud = (visitUntil (fun ud x => fn ud x.lo x.hi x.val) calls ud).1) : Reports query calls := by
  apply Reports.mk _ stopped
  intro σ fn ud continues
  rw [stopped]
  exact visitUntil_of_continues (fun ud x => continues ud x.lo x.hi x.val) calls ud

lemma intervals_ascending (asc : (l.map Chain.lo).Pairwise (· < ·)) :
    (l.flatMap intervals).Pairwise fun x y => x.lo ≤ y.lo := by
  apply List.pairwise_flatMap.mpr
  constructor
  · intro n _
    rw [intervals, pairwise_map]
    exact pairwise_of_forall fun _ _ => Int64.le_refl n.lo
  · apply List.Pairwise.imp _ (List.pairwise_map.mp asc)
    intro n n' less x here y there
    rw [← ((mem_intervals x n).mp here).1, ← ((mem_intervals y n').mp there).1]
    exact Int64.le_of_lt less

lemma Represents.answers {t : OpItree P} {m : Multiset (Interval P)} (rep : Represents t m) : AnswersAs t m := by
  obtain ⟨rfl, asc, -, annotated, count⟩ := rep
  have calls (a b : Int64) : ∃ calls : List (Interval P),
      calls = (stored t.root.toList).filter (fun x => x.lo ≤ b ∧ a ≤ x.hi) ∧ calls.Pairwise (fun x y => x.lo ≤ y.lo) ∧
        ∀ (σ : Type) (fn : σ → Int64 → Int64 → P → σ × Bool) (ud : σ), (queryOverlap a b fn t.root ⟨ud, false⟩).ud =
          (visitUntil (fun ud x => fn ud x.lo x.hi x.val) calls ud).1 := by
    refine ⟨(t.root.toList.flatMap intervals).filter (overlaps a b), ?_, ?_, ?_⟩
    · congr
      funext x
      rw [Bool.eq_iff_iff, overlaps_iff, decide_eq_true_eq]
    · exact (intervals_ascending asc).filter _
    · intro σ fn ud
      rw [queryOverlap_eq_foldl annotated asc, foldl_offer_eq_visitUntil]
  apply AnswersAs.mk
  · exact count
  · intro a b ordered
    obtain ⟨calls, contents, sorted, reports⟩ := calls a b
    refine ⟨calls, contents, sorted, Reports.of_stopped ?_⟩
    intro σ fn ud
    rw [opItreeOverlap, if_neg (Int64.not_lt.mpr ordered), reports]
  · intro x
    obtain ⟨calls, contents, sorted, reports⟩ := calls x x
    exact ⟨calls, contents, sorted, Reports.of_stopped reports⟩

theorem interval_queries_exact [DecidableEq P] (ops : List (ItreeOp P)) :
    ∃ t, runReplies itreeStep opItreeCreate ops = some (t, (specReplies bagStep 0 ops).2) ∧
      AnswersAs t (specReplies bagStep 0 ops).1 := by
  obtain ⟨t, ran, rep⟩ := run_represents ops
  exact ⟨t, ran, rep.answers⟩

def opItreeFirstStab [Inhabited P] (t : OpItree P) (x : Int64) : P :=
  opItreeStab t x (fun _ _ _ val => (val, false)) default

/-- Of the intervals that contain the point, one that starts first answers. -/
theorem itree_first_stab_leftmost [DecidableEq P] [Inhabited P] (ops : List (ItreeOp P)) :
    ∃ t, runReplies itreeStep opItreeCreate ops = some (t, (specReplies bagStep 0 ops).2) ∧ ∀ x,
      let held := (specReplies bagStep 0 ops).1.filter fun i => i.lo ≤ x ∧ x ≤ i.hi
      (held = 0 ∧ opItreeFirstStab t x = default) ∨
        ∃ i ∈ held, opItreeFirstStab t x = i.val ∧ ∀ j ∈ held, i.lo ≤ j.lo := by
  obtain ⟨t, ran, rep⟩ := run_represents ops
  refine ⟨t, ran, fun x => ?_⟩
  obtain ⟨calls, contents, sorted, reports⟩ := rep.answers.stab x
  have first := reports.stopped P (fun _ _ _ val => (val, false)) default
  rw [← contents]
  cases calls with
  | nil => exact .inl ⟨rfl, first⟩
  | cons i rest =>
    refine .inr ⟨i, mem_cons_self, first, fun j mem => ?_⟩
    rcases mem_cons.mp mem with rfl | later
    · exact Int64.le_refl _
    · exact (pairwise_cons.mp sorted).1 j later

end LibOp.Itree

import LibOp.Skiplist.Refinement

namespace LibOp.Skiplist

open Foundation List Option Rbt

variable {rounds : Nat}

section

variable {P σ : Type} {sl : OpSkiplist P}

inductive Ahead (sl : OpSkiplist P) : Option Nat → List (RbtEntry P) → Prop where
  | done : Ahead sl none []
  | step {a : Nat} {n : SlNode P} {next : Option Nat} {rest : List (RbtEntry P)} (node : sl.nodes a = some n)
      (forward : n.forward[0]? = some next) (later : Ahead sl next rest) : Ahead sl (some a) (⟨n.key, n.val⟩ :: rest)

inductive Behind (sl : OpSkiplist P) : Option Loc → List (RbtEntry P) → Prop where
  | done : Behind sl (some .head) []
  | step {a : Nat} {n : SlNode P} {rest : List (RbtEntry P)} (node : sl.nodes a = some n)
      (earlier : Behind sl n.prev rest) : Behind sl (some (.node a)) (⟨n.key, n.val⟩ :: rest)

variable {l r : List Nat}

lemma stored_node (towers : Towers sl.view (l ++ a :: r)) (stored : sl.view.entry a = some e) :
    ∃ n, sl.nodes a = some n ∧ e = ⟨n.key, n.val⟩ ∧ n.prev = some (lastLoc l) ∧ n.forward[0]? = some r.head? := by
  have same : sl.view = sl.view.unspliced a (fun i => lastLoc (sl.view.onLevel i l)) 0 := by simp [View.unspliced]
  obtain ⟨n, node, key, val, prev, next⟩ := spliced_node towers stored same
  exact ⟨n, node, by rw [key, val], prev, next⟩

variable {es : List (RbtEntry P)}

lemma Towers.ahead (towers : Towers sl.view (l ++ r))
    (contents : r.map sl.view.entry = es.map some) : Ahead sl r.head? es := by
  induction r generalizing l es with
  | nil =>
    have empty : es = [] := by simpa using contents.symm
    rw [empty]
    exact .done
  | cons a r ih =>
    obtain ⟨e, rest, rfl, stored, later⟩ := List.map_eq_cons_iff.mp contents.symm
    obtain ⟨n, node, rfl, -, next⟩ := stored_node towers stored.symm
    rw [append_cons] at towers
    exact .step node next (ih towers later.symm)

lemma Towers.behind (towers : Towers sl.view (l.reverse ++ r))
    (contents : l.map sl.view.entry = es.map some) : Behind sl (some (lastLoc l.reverse)) es := by
  induction l generalizing r es with
  | nil =>
    have empty : es = [] := by simpa using contents.symm
    rw [empty]
    exact .done
  | cons a l ih =>
    obtain ⟨e, rest, rfl, stored, earlier⟩ := List.map_eq_cons_iff.mp contents.symm
    rw [reverse_cons, ← append_cons] at towers
    obtain ⟨n, node, rfl, prev, -⟩ := stored_node towers stored.symm
    have last : lastLoc (a :: l).reverse = .node a := by simp [lastLoc]
    rw [last]
    apply Behind.step node
    rw [prev]
    exact ih towers earlier.symm

variable {p : Option Nat} {es : List (RbtEntry P)}

lemma foreachFrom_spec (ahead : Ahead sl p es) (fn : σ → P → P → σ × Bool) (enough : es.length < rounds) (s : σ) :
    foreachFrom sl fn rounds p s = some (visitUntil (fun s e => fn s e.key e.val) es s).1 := by
  induction ahead generalizing rounds s with
  | done =>
    cases rounds with
    | zero => cases enough
    | succ rounds => rfl
  | step node forward later ih =>
    cases rounds with
    | zero => cases enough
    | succ rounds =>
      have fewer := Nat.lt_of_succ_lt_succ enough
      rw [foreachFrom, node]
      simp only [bind_eq_bind, bind_some, forward, visitUntil]
      split
      · exact ih fewer _
      · rfl

lemma foreachRevFrom_spec (behind : Behind sl x es) (fn : σ → P → P → σ × Bool) (enough : es.length < rounds) (s : σ) :
    foreachRevFrom sl fn rounds x s = some (visitUntil (fun s e => fn s e.key e.val) es s).1 := by
  induction behind generalizing rounds s with
  | done =>
    cases rounds with
    | zero => cases enough
    | succ rounds => rfl
  | step node earlier ih =>
    cases rounds with
    | zero => cases enough
    | succ rounds =>
      have fewer := Nat.lt_of_succ_lt_succ enough
      rw [foreachRevFrom, node]
      simp only [bind_eq_bind, bind_some, visitUntil]
      split
      · exact ih fewer _
      · rfl

def iterate (sl : OpSkiplist P) : Nat → Option Nat → Option (List (RbtEntry P))
  | 0, _ => none
  | rounds + 1, cur => do
    match ← opSkiplistIterNext sl cur with
    | none => some []
    | some (key, val, next) =>
      let rest ← iterate sl rounds next
      some (⟨key, val⟩ :: rest)

lemma iterate_spec (ahead : Ahead sl p es) (enough : es.length < rounds) : iterate sl rounds p = some es := by
  induction ahead generalizing rounds with
  | done =>
    cases rounds with
    | zero => cases enough
    | succ rounds => rfl
  | step node forward later ih =>
    cases rounds with
    | zero => cases enough
    | succ rounds => simp [iterate, opSkiplistIterNext, node, forward, ih (Nat.lt_of_succ_lt_succ enough)]

lemma keyAt_spec [Inhabited P] (ahead : Ahead sl p es) : keyAt sl p = some (foundKey es.head?) := by
  cases ahead with
  | done => rfl
  | step node _ _ => simp [keyAt, node, foundKey]

lemma keyAt_tail [Inhabited P] {tail : Option Nat} (behind : Behind sl (some (tail.elim .head .node)) es) :
    keyAt sl tail = some (foundKey es.head?) := by
  cases tail with
  | none =>
    cases behind
    rfl
  | some a =>
    cases behind with
    | step node _ => simp [keyAt, node, foundKey]

lemma opSkiplistForeachRev_spec (behind : Behind sl (some (sl.tail.elim .head .node)) es)
    (few : es.length ≤ sl.size) (fn : σ → P → P → σ × Bool) (s : σ) :
    opSkiplistForeachRev sl fn s = some (visitUntil (fun s e => fn s e.key e.val) es s).1 := by
  unfold opSkiplistForeachRev
  cases tail : sl.tail with
  | none =>
    rw [tail] at behind
    cases behind
    rfl
  | some a =>
    rw [tail] at behind
    exact foreachRevFrom_spec behind fn (Nat.lt_succ_of_le few) s

end

section

variable {α : Type} {p : α → Bool} {low high : List α}

lemma find_partition (left : ∀ e ∈ low, p e = false) (right : ∀ e ∈ high, p e = true) :
    (low ++ high).find? p = high.head? := by
  have absent : low.find? p = none := List.find?_eq_none.mpr fun e mem => by simp [left e mem]
  rw [find?_append, absent, none_or]
  cases high with
  | nil => rfl
  | cons e rest => exact find?_cons_of_pos (right e mem_cons_self)

lemma filter_partition (left : ∀ e ∈ low, p e = false) (right : ∀ e ∈ high, p e = true) :
    (low ++ high).filter p = high := by
  have absent : low.filter p = [] := List.filter_eq_nil_iff.mpr fun e mem => by simp [left e mem]
  rw [filter_append, absent, nil_append, List.filter_eq_self.mpr right]

end

section

variable {P : Type} {cmp : P → P → Int} {sl : OpSkiplist P} {l : List (RbtEntry P)}

/-- Each level is sorted and within the one below; the links and the tail are as the levels say. -/
structure Levels (cmp : P → P → Int) (sl : OpSkiplist P) (l : List (RbtEntry P)) (levels : Nat → List Nat) : Prop where
  contents : (levels 0).map sl.view.entry = l.map some
  sublist : ∀ i, (levels (i + 1)).Sublist (levels i)
  sorted : ∀ i, (levels i).Pairwise fun a b =>
    ∃ e f, sl.view.entry a = some e ∧ sl.view.entry b = some f ∧ cmp e.key f.key < 0
  linked : ∀ i < skiplistMaxLevel, LinkedFrom (sl.view.next i) (some .head) (trail (levels i))
  unlinked : ∀ i, sl.level ≤ i → levels i = []
  backward : LinkedFrom sl.view.back (some (lastLoc (levels 0))) (trail (levels 0)).reverse
  tail : sl.tail = (levels 0).getLast?

section

variable (rep : Represents cmp sl l)

include rep

lemma Represents.levels : ∃ levels, Levels cmp sl l levels := by
  obtain ⟨addrs, towers, contents⟩ := rep.towers
  have ground := towers.onLevel_zero (List.Sublist.refl addrs)
  have sorted : addrs.Pairwise fun a b =>
      ∃ e f, sl.view.entry a = some e ∧ sl.view.entry b = some f ∧ cmp e.key f.key < 0 := by
    have lifted : (l.map some).Pairwise fun o p => ∃ e f, o = some e ∧ p = some f ∧ cmp e.key f.key < 0 := by
      rw [pairwise_map]
      exact rep.ascending.imp fun less => ⟨_, _, rfl, rfl, less⟩
    rw [← contents, pairwise_map] at lifted
    exact lifted
  refine ⟨fun i => sl.view.onLevel i addrs, ?_, ?_, ?_, towers.chains, ?_, ?_, ?_⟩
  · rw [ground]
    exact contents
  · intro i
    exact sl.view.onLevel_succ i addrs
  · intro i
    exact sorted.sublist (sl.view.onLevel_sublist i addrs)
  · intro i high
    exact towers.onLevel_top (List.Sublist.refl addrs) high
  · rw [ground]
    exact towers.back
  · rw [ground]
    exact towers.tail

lemma Represents.size : sl.size = l.length := by
  obtain ⟨addrs, towers, contents⟩ := rep.towers
  have lengths := congrArg List.length contents
  rw [length_map, length_map] at lengths
  exact towers.size.trans lengths

lemma Represents.first : ∃ p, sl.forward .head 0 = some p ∧ Ahead sl p l := by
  obtain ⟨addrs, towers, contents⟩ := rep.towers
  have whole : Towers sl.view ([] ++ addrs) := towers
  obtain ⟨slot, link⟩ := whole.next_zero
  exact ⟨addrs.head?, forward_eq slot link, whole.ahead contents⟩

lemma Represents.last : Behind sl (some (sl.tail.elim .head .node)) l.reverse := by
  obtain ⟨addrs, towers, contents⟩ := rep.towers
  have whole : Towers sl.view (addrs.reverse.reverse ++ []) := by simpa using towers
  have reversed : addrs.reverse.map sl.view.entry = l.reverse.map some := by rw [map_reverse, contents, map_reverse]
  have tail : sl.tail = addrs.getLast? := towers.tail
  rw [tail]
  simpa [lastLoc] using whole.behind reversed

end

lemma Found.stops {passed behind : List Nat} (found : Found sl.view before l passed behind low high) :
    ∃ p update, seek sl before = some (p, update) ∧ Ahead sl p high :=
  ⟨_, _, seek_spec found.towers found.cut, found.towers.ahead found.right⟩

variable (laws : TotalPreorder cmp)

include laws

lemma Represents.lookup (rep : Represents cmp sl l) (key : P) :
    ∃ p update found, seek sl (fun k => sl.cmp k key < 0) = some (p, update) ∧ hit sl key p = some found ∧
      found.map (fun a => ⟨a.2.key, a.2.val⟩) = assocFind cmp key l := by
  obtain ⟨passed, behind, low, high, found⟩ := rep.reach laws key
  have greater := found.greater laws
  rw [rep.comparator, found.split]
  rcases found.hit_cases laws rep.comparator rep.ascending with
    ⟨missed, less⟩ | ⟨b, tail, e, rest, n, rfl, rfl, equal, node, hits⟩
  · refine ⟨_, _, _, seek_spec found.towers found.cut, missed, ?_⟩
    rw [assocFind_missed greater less, map_none]
  · refine ⟨_, _, _, seek_spec found.towers found.cut, hits, ?_⟩
    rw [assocFind_matched greater equal, map_some, node.key, node.val]

lemma Represents.lower (rep : Represents cmp sl l) (key : P) :
    ∃ p update, seek sl (fun k => sl.cmp k key < 0) = some (p, update) ∧
      Ahead sl p (l.filter fun e => cmp key e.key ≤ 0) ∧
      (l.filter fun e => cmp key e.key ≤ 0).head? = l.find? fun e => cmp key e.key ≤ 0 := by
  obtain ⟨passed, behind, low, high, found⟩ := rep.reach laws key
  obtain ⟨p, update, search, ahead⟩ := found.stops
  have left : ∀ e ∈ low, decide (cmp key e.key ≤ 0) = false := by
    intro e mem
    simpa using found.greater laws e mem
  have right : ∀ e ∈ high, decide (cmp key e.key ≤ 0) = true := by
    intro e mem
    simpa using found.not_greater laws e mem
  rw [rep.comparator]
  refine ⟨p, update, search, ?_, ?_⟩
  · rw [found.split, filter_partition left right]
    exact ahead
  · rw [found.split, filter_partition left right, find_partition left right]

lemma Represents.upper (rep : Represents cmp sl l) (key : P) :
    ∃ p update high, seek sl (fun k => sl.cmp k key ≤ 0) = some (p, update) ∧ Ahead sl p high ∧
      high.head? = l.find? fun e => cmp key e.key < 0 := by
  have downward (a b : P) (less : cmp a b < 0) (reached : decide (cmp b key ≤ 0) = true) :
      decide (cmp a key ≤ 0) = true := by
    rw [decide_eq_true_eq] at reached ⊢
    exact laws.trans a b key (Int.le_of_lt less) reached
  obtain ⟨passed, behind, low, high, found⟩ := rep.search downward
  obtain ⟨p, update, search, ahead⟩ := found.stops
  have swapped (e : RbtEntry P) : decide (cmp key e.key < 0) = !decide (cmp e.key key ≤ 0) := by
    rw [Bool.eq_iff_iff]
    simpa using laws.swap key e.key
  rw [rep.comparator]
  refine ⟨p, update, high, search, ahead, ?_⟩
  rw [found.split, find_partition]
  · intro e mem
    rw [swapped, found.below e mem, Bool.not_true]
  · intro e mem
    rw [swapped, found.above e mem, Bool.not_false]

end

variable {P : Type} [Inhabited P] {cmp : P → P → Int}

structure AnswersAs (cmp : P → P → Int) (sl : OpSkiplist P) (l : List (RbtEntry P)) : Prop where
  ascending : Ascending cmp l
  size : opSkiplistSize sl = l.length
  get : ∀ key, opSkiplistGet sl key = some (foundVal (assocFind cmp key l))
  has : ∀ key, opSkiplistHas sl key = some (l.any fun e => cmp key e.key = 0)
  minKey : opSkiplistMinKey sl = some (foundKey l.head?)
  maxKey : opSkiplistMaxKey sl = some (foundKey l.getLast?)
  lowerBound : ∀ key, opSkiplistLowerBound sl key = some (foundKey (l.find? fun e => cmp key e.key ≤ 0))
  upperBound : ∀ key, opSkiplistUpperBound sl key = some (foundKey (l.find? fun e => cmp key e.key < 0))
  foreach : ∀ {σ : Type} (fn : σ → P → P → σ × Bool) (s : σ),
    opSkiplistForeach sl fn s = some (visitUntil (fun s e => fn s e.key e.val) l s).1
  foreachRev : ∀ {σ : Type} (fn : σ → P → P → σ × Bool) (s : σ),
    opSkiplistForeachRev sl fn s = some (visitUntil (fun s e => fn s e.key e.val) l.reverse s).1
  iter : (opSkiplistIterInit sl).bind (iterate sl (l.length + 1)) = some l
  iterLower : ∀ lower, (opSkiplistIterLower sl lower).bind (iterate sl (l.length + 1)) =
    some (l.filter fun e => cmp lower e.key ≤ 0)

lemma Represents.answers (laws : TotalPreorder cmp) {sl : OpSkiplist P} {l : List (RbtEntry P)}
    (rep : Represents cmp sl l) : AnswersAs cmp sl l := by
  obtain ⟨p, start, ahead⟩ := rep.first
  have size := rep.size
  apply AnswersAs.mk
  · exact rep.ascending
  · exact size
  · intro key
    obtain ⟨p, update, found, search, hits, entry⟩ := rep.lookup laws key
    rw [opSkiplistGet, search, ← entry]
    simp only [bind_eq_bind, bind_some, hits]
    cases found <;> rfl
  · intro key
    obtain ⟨p, update, found, search, hits, entry⟩ := rep.lookup laws key
    have present : found.isSome = l.any fun e => cmp key e.key = 0 := by
      rw [← isSome_map, entry, Bool.eq_iff_iff, assocFind, find?_isSome, List.any_eq_true]
    rw [opSkiplistHas, search]
    simp [hits, present]
  · rw [opSkiplistMinKey, start]
    exact keyAt_spec ahead
  · rw [← head?_reverse]
    exact keyAt_tail rep.last
  · intro key
    obtain ⟨p, update, search, behind, first⟩ := rep.lower laws key
    rw [opSkiplistLowerBound, search, ← first]
    exact keyAt_spec behind
  · intro key
    obtain ⟨p, update, high, search, behind, first⟩ := rep.upper laws key
    rw [opSkiplistUpperBound, search, ← first]
    exact keyAt_spec behind
  · intro σ fn s
    rw [opSkiplistForeach, start]
    exact foreachFrom_spec ahead fn (Nat.lt_succ_of_le (Nat.le_of_eq size.symm)) s
  · intro σ fn s
    have few : l.reverse.length ≤ sl.size := by simp [size]
    exact opSkiplistForeachRev_spec rep.last few fn s
  · rw [opSkiplistIterInit, start]
    exact iterate_spec ahead (Nat.lt_succ_self _)
  · intro lower
    obtain ⟨p, update, search, behind, -⟩ := rep.lower laws lower
    rw [opSkiplistIterLower, search]
    exact iterate_spec behind (Nat.lt_succ_of_le (length_filter_le _ l))

/-- The heights of the nodes are whatever the words of the generator make them. -/
theorem skiplist_is_ordered_map (laws : TotalPreorder cmp) (ops : List (SlOp P)) :
    ∃ sl levels, runReplies skiplistStep (opSkiplistCreate cmp) ops =
        some (sl, (specReplies (skiplistSpec cmp) [] ops).2) ∧
      AnswersAs cmp sl (specReplies (skiplistSpec cmp) [] ops).1 ∧
      Levels cmp sl (specReplies (skiplistSpec cmp) [] ops).1 levels := by
  obtain ⟨sl, ran, rep⟩ := run_represents laws ops
  obtain ⟨levels, structured⟩ := rep.levels
  exact ⟨sl, levels, ran, rep.answers laws, structured⟩

theorem skiplist_is_ordered_map_addresses : ∃ sl levels, runReplies skiplistStep (opSkiplistCreate opSkiplistCmpPtr)
        [.set 4 40 fun _ => 1, .set 2 20 fun _ => 0, .set 4 41 fun _ => 0, .set 7 70 fun i => if i < 3 then 8 else 3,
          .del 2, .del 9] =
        some (sl, [.set 1 0, .set 1 0, .set 0 40, .set 1 0, .del 20, .del 0]) ∧
      AnswersAs opSkiplistCmpPtr sl [⟨4, 41⟩, ⟨7, 70⟩] ∧ Levels opSkiplistCmpPtr sl [⟨4, 41⟩, ⟨7, 70⟩] levels :=
  skiplist_is_ordered_map opRbtCmpPtr_totalPreorder _

end LibOp.Skiplist

import LibOp.Skiplist.Deletion

namespace LibOp.Skiplist

open Foundation Function List Rbt

section

variable {P : Type} [Inhabited P]

/-- The words of the generator belong to the operation. -/
inductive SlOp (P : Type) where
  | set (key val : P) (bits : Nat → UInt32)
  | del (key : P)

def SlOp.request : SlOp P → RbtOp P
  | .set key val _ => .set key val
  | .del key => .del key

def skiplistStep (sl : OpSkiplist P) : SlOp P → Option (OpSkiplist P × RbtReply P)
  | .set key val bits => do
    let (next, inserted, oldVal) ← opSkiplistSet sl key val bits
    some (next, .set inserted oldVal)
  | .del key => do
    let (next, foundVal) ← opSkiplistDel sl key
    some (next, .del foundVal)

def skiplistSpec (cmp : P → P → Int) (l : List (RbtEntry P)) (op : SlOp P) : List (RbtEntry P) × RbtReply P :=
  assocStep cmp l op.request

end

variable {P : Type} {cmp : P → P → Int}

structure Represents (cmp : P → P → Int) (sl : OpSkiplist P) (l : List (RbtEntry P)) : Prop where
  comparator : sl.cmp = cmp
  towers : ∃ addrs, Towers sl.view addrs ∧ addrs.map sl.view.entry = l.map some
  ascending : Ascending cmp l

lemma create_represents (cmp : P → P → Int) : Represents cmp (opSkiplistCreate cmp) [] :=
  ⟨rfl, ⟨[], create_towers cmp, rfl⟩, List.Pairwise.nil⟩

variable {addrs : List Nat} {v : View P} {a : Nat} {l : List (RbtEntry P)}

lemma entry_of_map (contents : addrs.map v.entry = l.map some) (mem : a ∈ addrs) : ∃ e ∈ l, v.entry a = some e := by
  have here := contents ▸ mem_map_of_mem mem
  obtain ⟨e, inside, same⟩ := List.mem_map.mp here
  exact ⟨e, inside, same.symm⟩

variable {f : Nat → Option (RbtEntry P)}

lemma map_update_of_fresh (fresh : a ∉ addrs) (value : Option (RbtEntry P)) :
    addrs.map (update f a value) = addrs.map f := by
  apply map_congr_left
  intro b mem
  have other : b ≠ a := fun same => fresh (same ▸ mem)
  exact update_of_ne other value f

lemma map_update_between {passed behind : List Nat}
    (nodup : (passed ++ a :: behind).Nodup) (left : passed.map f = low.map some)
    (right : behind.map f = high.map some) (e : RbtEntry P) :
    (passed ++ a :: behind).map (update f a (some e)) = (low ++ e :: high).map some := by
  have fresh : a ∉ passed ++ behind := (List.nodup_cons.mp (List.nodup_middle.mp nodup)).1
  have outLeft : a ∉ passed := fun mem => fresh (mem_append_left behind mem)
  have outRight : a ∉ behind := fun mem => fresh (mem_append_right passed mem)
  rw [map_append, map_cons, map_update_of_fresh outLeft, map_update_of_fresh outRight, left, right,
    update_self, map_append, map_cons]

/-- What stands before and behind the place where a search ends. -/
structure Found (v : View P) (before : P → Bool) (l : List (RbtEntry P)) (passed behind : List Nat)
    (low high : List (RbtEntry P)) : Prop where
  towers : Towers v (passed ++ behind)
  split : l = low ++ high
  left : passed.map v.entry = low.map some
  right : behind.map v.entry = high.map some
  below : ∀ e ∈ low, before e.key = true
  above : ∀ e ∈ high, before e.key = false

variable {before : P → Bool}

lemma Found.cut {passed behind : List Nat}
    (found : Found v before l passed behind low high) : Cut v before passed behind := by
  constructor
  · intro a mem
    obtain ⟨e, inside, stored⟩ := entry_of_map found.left mem
    exact ⟨e, stored, found.below e inside⟩
  · intro b mem
    obtain ⟨e, inside, stored⟩ := entry_of_map found.right mem
    exact ⟨e, stored, found.above e inside⟩

lemma dropWhile_refused {α : Type*} {p : α → Bool} {l : List α}
    (downward : l.Pairwise fun a b => p b = true → p a = true) : ∀ e ∈ l.dropWhile p, p e = false := by
  induction l with
  | nil => simp
  | cons a l ih =>
    obtain ⟨first, rest⟩ := List.pairwise_cons.mp downward
    intro e mem
    rw [dropWhile_cons] at mem
    split at mem
    · exact ih rest e mem
    next refused =>
      rcases List.mem_cons.mp mem with rfl | later
      · simpa using refused
      · by_contra accepted
        exact refused (first e later (by simpa using accepted))

lemma Represents.search {sl : OpSkiplist P} (rep : Represents cmp sl l)
    (downward : ∀ a b, cmp a b < 0 → before b = true → before a = true) :
    ∃ passed behind low high, Found sl.view before l passed behind low high := by
  obtain ⟨addrs, towers, contents⟩ := rep.towers
  have split : l = l.takeWhile (fun e => before e.key) ++ l.dropWhile (fun e => before e.key) :=
    List.takeWhile_append_dropWhile.symm
  rw [split, map_append] at contents
  obtain ⟨passed, behind, rfl, left, right⟩ := List.map_eq_append_iff.mp contents
  refine ⟨passed, behind, _, _, towers, split, left, right, ?_, ?_⟩
  · intro e mem
    exact List.all_eq_true.mp all_takeWhile e mem
  · apply dropWhile_refused
    exact rep.ascending.imp fun less accepted => downward _ _ less accepted

section

variable {sl : OpSkiplist P} {key : P} {l low high : List (RbtEntry P)} {passed behind : List Nat}

abbrev Reached (cmp : P → P → Int) (sl : OpSkiplist P) (key : P) := Found sl.view (fun k => cmp k key < 0)

structure Matched (sl : OpSkiplist P) (b : Nat) (n : SlNode P) (e : RbtEntry P) : Prop where
  node : sl.nodes b = some n
  key : n.key = e.key
  val : n.val = e.val

variable (laws : TotalPreorder cmp)

include laws

lemma Represents.reach (rep : Represents cmp sl l) (key : P) :
    ∃ passed behind low high, Reached cmp sl key l passed behind low high := by
  apply rep.search
  intro a b less reached
  rw [decide_eq_true_eq] at reached ⊢
  exact laws.lt_of_lt_of_le less (Int.le_of_lt reached)

variable (found : Reached cmp sl key l passed behind low high)

include found

lemma Found.greater : ∀ e ∈ low, 0 < cmp key e.key := by
  intro e mem
  exact (laws.swap e.key key).mp (by simpa using found.below e mem)

lemma Found.not_greater : ∀ e ∈ high, cmp key e.key ≤ 0 := by
  intro e mem
  have stopped : ¬ cmp e.key key < 0 := by simpa using found.above e mem
  rw [laws.swap] at stopped
  exact Int.not_lt.mp stopped

lemma Found.hit_cases (comparator : sl.cmp = cmp) (ascending : Ascending cmp l) :
    (hit sl key behind.head? = some none ∧ ∀ e ∈ high, cmp key e.key < 0) ∨
      ∃ b tail e rest n, behind = b :: tail ∧ high = e :: rest ∧ cmp key e.key = 0 ∧ Matched sl b n e ∧
        hit sl key behind.head? = some (some (b, n)) := by
  cases high with
  | nil =>
    have empty : behind = [] := by simpa using found.right
    subst empty
    exact .inl ⟨rfl, by simp⟩
  | cons e rest =>
    obtain ⟨b, tail, rfl, stored, -⟩ := List.map_eq_cons_iff.mp found.right
    obtain ⟨n, node, sameKey, sameVal, -⟩ := node_of_entry stored
    by_cases equal : cmp e.key key = 0
    · refine .inr ⟨b, tail, e, rest, n, rfl, rfl, laws.eq_zero_symm equal, ⟨node, sameKey, sameVal⟩, ?_⟩
      simp [hit, node, sameKey, comparator, equal]
    · refine .inl ⟨by simp [hit, node, sameKey, comparator, equal], ?_⟩
      have first : cmp key e.key < 0 := by
        have weak := found.not_greater laws e mem_cons_self
        have apart : cmp key e.key ≠ 0 := fun same => equal (laws.eq_zero_symm same)
        omega
      rw [found.split] at ascending
      have later := (List.pairwise_cons.mp (List.pairwise_append.mp ascending).2.1).1
      exact List.forall_mem_cons.mpr ⟨first, fun u behind => laws.lt_of_lt_of_le first (Int.le_of_lt (later u behind))⟩

end

lemma Towers.rewrite (towers : Towers v addrs) (mem : b ∈ addrs) (e : RbtEntry P) :
    Towers { v with entry := update v.entry b (some e) } addrs where
  nodup := towers.nodup
  stored a := by
    by_cases same : a = b
    · subst same
      simpa using mem
    · simpa [same] using towers.stored a
  tall := towers.tall
  level := towers.level
  headLength := towers.headLength
  chains := towers.chains
  back := towers.back
  tail := towers.tail
  size := towers.size
  unused := towers.unused

section

variable {key : P} {low high : List (RbtEntry P)}

lemma assocFind_behind (passed : ∀ e ∈ low, 0 < cmp key e.key) :
    assocFind cmp key (low ++ high) = assocFind cmp key high := by
  have absent : low.find? (fun e => cmp key e.key = 0) = none :=
    find_eq_none_of_ne fun e mem => Int.ne_of_gt (passed e mem)
  rw [assocFind, find?_append, absent, Option.none_or, assocFind]

lemma assocFind_missed (passed : ∀ e ∈ low, 0 < cmp key e.key) (missed : ∀ e ∈ high, cmp key e.key < 0) :
    assocFind cmp key (low ++ high) = none := by
  rw [assocFind_behind passed]
  exact find_eq_none_of_ne fun e mem => Int.ne_of_lt (missed e mem)

variable {rest : List (RbtEntry P)} {e : RbtEntry P}

lemma assocFind_matched (passed : ∀ e ∈ low, 0 < cmp key e.key) (equal : cmp key e.key = 0) :
    assocFind cmp key (low ++ e :: rest) = some e := by
  rw [assocFind_behind passed, assocFind, find?_cons_of_pos (by simpa using equal)]

variable [Inhabited P]

variable (passed : ∀ e ∈ low, 0 < cmp key e.key)

include passed

lemma assocSet_missed (missed : ∀ e ∈ high, cmp key e.key < 0) (val : P) :
    assocSet cmp (low ++ high) key val = (low ++ ⟨key, val⟩ :: high, 1, default) := by
  have placed : insertSorted (fun e : RbtEntry P => cmp key e.key) ⟨key, val⟩ (fun _ => ⟨key, val⟩) high =
      ⟨key, val⟩ :: high := by
    cases high with
    | nil => rfl
    | cons e rest => exact if_pos (missed e mem_cons_self)
  rw [assocSet, assocFind_missed passed missed, insertSorted_right high passed, placed]
  rfl

lemma assocSet_matched (equal : cmp key e.key = 0) (val : P) :
    assocSet cmp (low ++ e :: rest) key val = (low ++ ⟨key, val⟩ :: rest, 0, e.val) := by
  rw [assocSet, assocFind_matched passed equal, insertSorted_right (e :: rest) passed]
  simp [insertSorted, equal, foundVal]

lemma assocDel_missed (missed : ∀ e ∈ high, cmp key e.key < 0) :
    assocDel cmp (low ++ high) key = (low ++ high, default) := by
  have absent := assocFind_missed passed missed
  rw [assocDel, absent, eraseP_of_forall_not]
  · rfl
  · exact List.find?_eq_none.mp absent

lemma assocDel_matched (equal : cmp key e.key = 0) : assocDel cmp (low ++ e :: rest) key = (low ++ rest, e.val) := by
  rw [assocDel, assocFind_matched passed equal, eraseP_append_right, eraseP_cons_of_pos]
  · rfl
  · simpa using equal
  · intro u mem
    simpa using Int.ne_of_gt (passed u mem)

end

variable [Inhabited P] {sl : OpSkiplist P} {l : List (RbtEntry P)} (laws : TotalPreorder cmp)

include laws

lemma Represents.set (rep : Represents cmp sl l) (key val : P) (bits : Nat → UInt32) :
    ∃ sl', opSkiplistSet sl key val bits = some (sl', (assocSet cmp l key val).2) ∧
      Represents cmp sl' (assocSet cmp l key val).1 := by
  have sorted : Ascending cmp (assocSet cmp l key val).1 :=
    pairwise_insertSorted (insertLaws laws key val) rep.ascending
  obtain ⟨passed, behind, low, high, found⟩ := rep.reach laws key
  obtain ⟨comparator, -, ascending⟩ := rep
  have greater := found.greater laws
  rcases found.hit_cases laws comparator ascending with
    ⟨missed, less⟩ | ⟨b, tail, e, rest, n, rfl, rfl, equal, node, hits⟩
  · have cut := found.cut
    rw [← comparator] at cut
    obtain ⟨sl', done, towers, same, entries⟩ := set_inserts val bits found.towers cut missed
    rw [found.split, assocSet_missed greater less] at sorted ⊢
    refine ⟨sl', done, same.trans comparator, ⟨_, towers, ?_⟩, sorted⟩
    rw [entries]
    exact map_update_between towers.nodup found.left found.right ⟨key, val⟩
  · have cut := found.cut
    have search := seek_spec found.towers cut
    rw [← comparator] at search
    rw [found.split, assocSet_matched greater equal] at sorted ⊢
    refine ⟨{ sl with nodes := update sl.nodes b (some { n with key := key, val := val }) }, ?_, comparator,
      ⟨passed ++ b :: tail, ?_, ?_⟩, sorted⟩
    · rw [opSkiplistSet, search]
      simp only [Option.bind_eq_bind, Option.bind_some, hits, node.val]
    · rw [view_rewrite node.node]
      exact found.towers.rewrite (by simp) ⟨key, val⟩
    · rw [view_rewrite node.node]
      exact map_update_between found.towers.nodup found.left (List.cons.inj found.right).2 ⟨key, val⟩

lemma Represents.del (rep : Represents cmp sl l) (key : P) :
    ∃ sl', opSkiplistDel sl key = some (sl', (assocDel cmp l key).2) ∧ Represents cmp sl' (assocDel cmp l key).1 := by
  have sorted : Ascending cmp (assocDel cmp l key).1 := List.Pairwise.sublist eraseP_sublist rep.ascending
  obtain ⟨passed, behind, low, high, found⟩ := rep.reach laws key
  have comparator := rep.comparator
  have greater := found.greater laws
  have cut := found.cut
  rcases found.hit_cases laws comparator rep.ascending with
    ⟨missed, less⟩ | ⟨b, tail, e, rest, n, rfl, rfl, equal, node, hits⟩
  · have search := seek_spec found.towers cut
    rw [← comparator] at search
    rw [found.split, assocDel_missed greater less, ← found.split]
    refine ⟨sl, ?_, rep⟩
    rw [opSkiplistDel, search]
    simp [missed]
  · obtain ⟨here, right⟩ := List.cons.inj found.right
    have same := comparator ▸ laws.eq_zero_symm equal
    rw [← comparator] at cut
    obtain ⟨sl', done, towers, kept, entries⟩ := del_removes found.towers cut here same
    rw [found.split, assocDel_matched greater equal] at sorted ⊢
    refine ⟨sl', done, kept.trans comparator, ⟨_, towers, ?_⟩, sorted⟩
    rw [entries, map_update_of_fresh found.towers.removed_fresh.1, map_append, found.left, right, map_append]

lemma Represents.step (rep : Represents cmp sl l) (op : SlOp P) :
    ∃ sl', skiplistStep sl op = some (sl', (skiplistSpec cmp l op).2) ∧
      Represents cmp sl' (skiplistSpec cmp l op).1 := by
  cases op with
  | set key val bits =>
    obtain ⟨sl', done, next⟩ := rep.set laws key val bits
    exact ⟨sl', by simp [skiplistStep, skiplistSpec, assocStep, SlOp.request, done], next⟩
  | del key =>
    obtain ⟨sl', done, next⟩ := rep.del laws key
    exact ⟨sl', by simp [skiplistStep, skiplistSpec, assocStep, SlOp.request, done], next⟩

lemma run_represents (ops : List (SlOp P)) : ∃ sl, runReplies skiplistStep (opSkiplistCreate cmp) ops =
        some (sl, (specReplies (skiplistSpec cmp) [] ops).2) ∧
      Represents cmp sl (specReplies (skiplistSpec cmp) [] ops).1 :=
  runReplies_simulates (fun _ _ op _ rep => rep.step laws op) (create_represents cmp)

end LibOp.Skiplist

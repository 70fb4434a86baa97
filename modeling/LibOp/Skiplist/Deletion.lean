import LibOp.Skiplist.Insertion

namespace LibOp.Skiplist

open Foundation Rbt List Option View Function

variable {P : Type}

section

def View.unspliced (v : View P) (a : Nat) (us : Nat → Loc) (j : Nat) : View P :=
  { v with next := fun i => if i < j then update (v.next i) (us i) (v.next i (.node a)) else v.next i }

def View.parted (v : View P) (before : Loc) (r : List Nat) : Loc → Option Loc :=
  match r.head? with
  | none => v.back
  | some b => update v.back (.node b) (some before)

def View.part (v : View P) (l r : List Nat) : View P :=
  { v with back := v.parted (lastLoc l) r, tail := if r.head? = none then l.getLast? else v.tail }

variable {v v' : View P} {l r : List Nat} {a : Nat}

variable (towers : Towers v (l ++ a :: r))

include towers

lemma Towers.removed_fresh : a ∉ l ++ r ∧ (l ++ r).Nodup :=
  List.nodup_cons.mp (List.perm_middle.nodup_iff.mp towers.nodup)

lemma Towers.back_removed : LinkedFrom (v.parted (lastLoc l) r) (some (lastLoc (l ++ r))) (trail (l ++ r)).reverse := by
  have link := towers.prev_eq
  have chain := towers.back
  have nodup := trail_nodup towers.nodup
  rw [trail_append, ← nodup_reverse] at nodup
  rw [trail_append] at chain
  simp only [map_cons, reverse_append, reverse_cons, append_assoc, singleton_append] at chain nodup
  unfold View.parted
  cases r with
  | nil =>
    have rest := chain.after
    rw [link] at rest
    simpa using rest
  | cons b r =>
    simp only [map_cons, reverse_cons, append_assoc, singleton_append] at chain nodup
    have removed := chain.removeAfter nodup
    rw [link] at removed
    have last : lastLoc (l ++ a :: b :: r) = lastLoc (l ++ b :: r) := by simp [lastLoc, getLast?_append, getLast?_cons]
    rw [last] at removed
    rw [trail_append]
    simpa using removed

lemma Towers.chain_removed (bound : i < skiplistMaxLevel) :
    LinkedFrom ((v.unspliced a (fun i => lastLoc (v.onLevel i l)) (v.height a)).next i) (some .head)
      (trail (v.onLevel i (l ++ r))) := by
  have chain := towers.chains i bound
  simp only [unspliced]
  split
  next reached =>
    obtain ⟨front, shape⟩ := trail_append_last (v.onLevel i l)
    have nodup := trail_nodup (towers.nodup.sublist (v.onLevel_sublist i (l ++ a :: r)))
    have here : v.onLevel i (a :: r) = a :: v.onLevel i r := by simp [onLevel, reached]
    rw [onLevel_append, here, shape] at chain nodup
    rw [onLevel_append, shape]
    exact chain.removeAfter nodup
  next short =>
    have whole : v.onLevel i (l ++ a :: r) = v.onLevel i (l ++ r) := by simp [onLevel, short]
    rw [whole] at chain
    exact chain

lemma Towers.remove (entry : v'.entry = update v.entry a none)
    (height : v'.height = update v.height a 0) (headLength : v'.headLength = v.headLength)
    (level : 0 < v'.level ∧ v'.level ≤ v.level) (empty : ∀ i, v'.level ≤ i → i < v.level → v'.next i .head = none)
    (next : ∀ i, v'.next i =
      update ((v.unspliced a (fun i => lastLoc (v.onLevel i l)) (v.height a)).next i) (.node a) none)
    (back : v'.back = update (v.parted (lastLoc l) r) (.node a) none)
    (tail : v'.tail = if r.head? = none then l.getLast? else v.tail) (size : v'.size = v.size - 1)
    (unused : v'.unused = v.unused) : Towers v' (l ++ r) := by
  obtain ⟨fresh, nodup⟩ := towers.removed_fresh
  have within := List.Sublist.append_left (sublist_cons_self a r) l
  have levels (i : Nat) : v'.onLevel i (l ++ r) = v.onLevel i (l ++ r) := onLevel_of_fresh height fresh
  have chains : ∀ i < skiplistMaxLevel, LinkedFrom (v'.next i) (some .head) (trail (v'.onLevel i (l ++ r))) := by
    intro i bound
    have outside : Loc.node a ∉ trail (v.onLevel i (l ++ r)) := by
      intro mem
      exact fresh (mem_onLevel.mp (node_mem_trail.mp mem)).1
    rw [levels, next]
    exact LinkedFrom.frame none outside (towers.chain_removed bound)
  have kept (b : Nat) (mem : b ∈ l ++ r) : v'.height b = v.height b := by
    have other : b ≠ a := fun same => fresh (same ▸ mem)
    rw [height, update_of_ne other]
  have top := towers.level
  refine ⟨nodup, ?_, ?_, ?_, headLength.trans towers.headLength, chains, ?_, ?_, ?_, ?_⟩
  · intro b
    rw [entry]
    by_cases same : b = a
    · subst same
      simpa using fresh
    · rw [update_of_ne same, towers.stored]
      simp [same]
  · intro b mem
    have bounds := towers.tall b (within.subset mem)
    have same := kept b mem
    refine ⟨by omega, ?_⟩
    by_cases inside : v'.level < v.level
    · have chain := chains v'.level (by omega)
      exact height_le_of_empty chain (empty v'.level le_rfl inside) b mem
    · omega
  · exact ⟨level.1, Nat.le_trans level.2 top.2⟩
  · rw [back]
    apply towers.back_removed.frame
    rw [mem_reverse, node_mem_trail]
    exact fresh
  · rw [tail, towers.tail]
    cases r with
    | nil => simp
    | cons b r => simp [getLast?_append, getLast?_cons]
  · rw [size, towers.size]
    simp only [length_append, length_cons]
    omega
  · intro b mem
    rw [unused]
    exact towers.unused b (within.subset mem)

end

variable {sl : OpSkiplist P} {update : List Loc} {l r : List Nat} {a : Nat}

lemma unspliced_succ (v : View P) (a : Nat) (us : Nat → Loc) (j : Nat) :
    (v.unspliced a us j).relink j (us j) (v.next j (.node a)) = v.unspliced a us (j + 1) := by
  simp only [relink, unspliced, View.mk.injEq, and_self, and_true, Nat.lt_irrefl, ↓reduceIte]
  funext i
  by_cases same : i = j
  · subst same
    simp
  · have order : i < j + 1 ↔ i < j := by omega
    simp [same, order]

lemma spliceOut_run (towers : Towers v (l ++ a :: r))
    (named : ∀ i < v.level, update[i]? = some (lastLoc (v.onLevel i l)))
    (count : i + rounds = v.level) (low : i ≤ v.height a)
    (view : sl.view = v.unspliced a (fun i => lastLoc (v.onLevel i l)) i) :
    ∃ sl', spliceOut a update rounds i sl = some sl' ∧
      sl'.view = v.unspliced a (fun i => lastLoc (v.onLevel i l)) (v.height a) := by
  have tall := (towers.tall a (by simp)).2
  have levels := towers.level
  induction rounds generalizing i sl with
  | zero =>
    obtain rfl : i = v.height a := by omega
    exact ⟨sl, rfl, view⟩
  | succ rounds ih =>
    obtain ⟨slot, behind⟩ := towers.next_behind (by omega : i < skiplistMaxLevel)
    have here : sl.view.Slot i (lastLoc (v.onLevel i l)) := by
      rw [view]
      exact slot.congr rfl rfl
    have same : sl.view.next i = v.next i := by
      rw [view]
      simp [unspliced]
    rw [spliceOut, named i (by omega)]
    by_cases reached : i < v.height a
    · have first : (v.onLevel i (a :: r)).head? = some a := by simp [onLevel, reached]
      rw [first] at behind
      have read : sl.forward (lastLoc (v.onLevel i l)) i = some (some a) := by
        apply forward_eq here
        rw [same]
        exact behind
      have own : sl.view.Slot i (.node a) := by
        rw [view]
        exact reached
      obtain ⟨p, after, link⟩ := forward_read own
      obtain ⟨next, wrote, result⟩ := setForward_view here p
      have nextView : next.view = v.unspliced a (fun i => lastLoc (v.onLevel i l)) (i + 1) := by
        rw [result, ← link, same, view, unspliced_succ v a (fun i => lastLoc (v.onLevel i l)) i]
      obtain ⟨final, ran, done⟩ := ih (by omega) (by omega) nextView
      refine ⟨final, ?_, done⟩
      simp [read, after, wrote, ran]
    · obtain rfl : i = v.height a := by omega
      have read : sl.forward (lastLoc (v.onLevel (v.height a) l)) (v.height a) =
          some (v.onLevel (v.height a) (a :: r)).head? := by
        apply forward_eq here
        rw [same]
        exact behind
      have other : (v.onLevel (v.height a) (a :: r)).head? ≠ some a := by
        intro first
        exact reached (mem_onLevel.mp (mem_of_head? first)).2
      exact ⟨sl, by simp [read, other], view⟩

lemma partBack_view (others : ∀ b ∈ r, (sl.view.entry b).isSome = true) :
    ∃ sl', partBack sl r.head? (some (lastLoc l)) = some sl' ∧ sl'.view = sl.view.part l r := by
  unfold partBack part View.parted
  cases start : r.head? with
  | none =>
    refine ⟨_, rfl, ?_⟩
    rcases eq_nil_or_concat l with rfl | ⟨front, p, rfl⟩
    · rfl
    · simp [lastLoc, OpSkiplist.view, OpSkiplist.forward]
  | some b =>
    obtain ⟨e, stored⟩ := Option.isSome_iff_exists.mp (others b (mem_of_head? start))
    obtain ⟨linked, wrote, view⟩ := setPrev_view stored (some (lastLoc l))
    refine ⟨linked, wrote, ?_⟩
    rw [view]
    simp [rejoin]

lemma shrink_spec (head : List (Option Nat)) {level : Nat} (low : 0 < level) (high : level ≤ head.length) :
    ∃ lvl, shrink head level = some lvl ∧ 0 < lvl ∧ lvl ≤ level ∧ ∀ i, lvl ≤ i → i < level → head[i]? = some none := by
  induction level with
  | zero => cases low
  | succ level ih =>
    cases level with
    | zero => exact ⟨1, rfl, Nat.one_pos, Nat.le_refl 1, fun i above below => absurd above (by omega)⟩
    | succ level =>
      obtain ⟨top, read⟩ : ∃ top, head[level + 1]? = some top := ⟨_, getElem?_eq_getElem (by omega)⟩
      rw [shrink, read]
      simp only [bind_eq_bind, bind_some]
      split
      next empty =>
        obtain ⟨lvl, result, pos, below, clear⟩ := ih (by omega) (by omega)
        refine ⟨lvl, result, pos, by omega, ?_⟩
        intro i above inside
        by_cases last : i = level + 1
        · rw [last, read, empty]
        · exact clear i above (by omega)
      · exact ⟨level + 2, rfl, by omega, Nat.le_refl _, fun i above below => absurd above (by omega)⟩

lemma spliced_node (towers : Towers v (l ++ a :: r))
    (stored : v.entry a = some e) (view : sl.view = v.unspliced a (fun i => lastLoc (v.onLevel i l)) j) :
    ∃ n, sl.nodes a = some n ∧ n.key = e.key ∧ n.val = e.val ∧ n.prev = some (lastLoc l) ∧
      n.forward[0]? = some r.head? := by
  have fresh := towers.removed_fresh.1
  have still : sl.view.entry a = some e := by
    rw [view]
    exact stored
  obtain ⟨n, read, key, val, prev, -⟩ := node_of_entry still
  have whole : Towers v ((l ++ [a]) ++ r) := by
    rw [append_assoc, singleton_append]
    exact towers
  obtain ⟨slot, link⟩ := whole.next_zero
  have last : lastLoc (l ++ [a]) = .node a := by simp [lastLoc]
  rw [last] at slot link
  have apart : Loc.node a ≠ lastLoc (v.onLevel 0 l) := by
    intro same
    have mem := lastLoc_mem_trail (v.onLevel_sublist 0 l)
    rw [← same] at mem
    exact fresh (mem_append_left r (node_mem_trail.mp mem))
  have forward : sl.forward (.node a) 0 = some r.head? := by
    apply forward_eq
    · rw [view]
      exact slot.congr rfl rfl
    · rw [view]
      simp only [unspliced]
      split
      · rw [update_of_ne apart]
        exact link
      · exact link
  refine ⟨n, read, key, val, ?_, ?_⟩
  · rw [prev, view]
    exact towers.prev_eq
  · rwa [OpSkiplist.forward, read] at forward

variable [Inhabited P]

lemma del_removes {key : P} {e : RbtEntry P} (towers : Towers sl.view (l ++ a :: r))
    (cut : Cut sl.view (fun k => sl.cmp k key < 0) l (a :: r)) (stored : sl.view.entry a = some e)
    (equal : sl.cmp e.key key = 0) :
    ∃ sl', opSkiplistDel sl key = some (sl', e.val) ∧ Towers sl'.view (l ++ r) ∧ sl'.cmp = sl.cmp ∧
      sl'.view.entry = Function.update sl.view.entry a none := by
  have levels := towers.level
  let us := fun i => lastLoc (sl.view.onLevel i l)
  obtain ⟨old, found⟩ : ∃ n, hit sl key (some a) = some (some (a, n)) := by
    obtain ⟨n, here, same, -⟩ := node_of_entry stored
    exact ⟨n, by simp [hit, here, same, equal]⟩
  have named : ∀ i < sl.view.level, ((List.range sl.level).map us)[i]? = some (us i) := by
    intro i below
    have inside : i < sl.level := below
    simp [inside]
  obtain ⟨spliced, ran, view⟩ : ∃ spliced, spliceOut a ((List.range sl.level).map us) sl.level 0 sl = some spliced ∧
      spliced.view = sl.view.unspliced a us (sl.view.height a) :=
    spliceOut_run towers named (Nat.zero_add _) (Nat.zero_le _) (by simp [unspliced])
  obtain ⟨n, read, -, val, prev, next⟩ := spliced_node towers stored view
  have others : ∀ b ∈ r, (spliced.view.entry b).isSome = true := by
    intro b mem
    rw [view]
    exact (towers.stored b).mpr (mem_append_right l (mem_cons_of_mem a mem))
  obtain ⟨linked, parted, after⟩ : ∃ linked, partBack spliced r.head? (some (lastLoc l)) = some linked ∧
      linked.view = spliced.view.part l r := partBack_view others
  rw [view] at after
  have level : linked.level = sl.level := congrArg View.level after
  have length : linked.head.length = skiplistMaxLevel := (congrArg View.headLength after).trans towers.headLength
  have low := Nat.lt_of_lt_of_eq levels.1 level.symm
  have high : linked.level ≤ linked.head.length := by
    rw [level, length]
    exact levels.2
  obtain ⟨lvl, shrunk, pos, below, clear⟩ := shrink_spec linked.head low high
  let final : OpSkiplist P :=
    { linked with level := lvl, nodes := update linked.nodes a none, size := linked.size - 1 }
  have whole : final.view =
      { ((sl.view.unspliced a us (sl.view.height a)).part l r).free a with level := lvl, size := sl.size - 1 } := by
    have freed := view_free { linked with level := lvl, size := linked.size - 1 } a
    have rest : ({ linked with level := lvl, size := linked.size - 1 } : OpSkiplist P).view =
        { linked.view with level := lvl, size := linked.view.size - 1 } := rfl
    rw [rest, after] at freed
    exact freed
  refine ⟨final, ?_, ?_, congrArg View.cmp whole, congrArg View.entry whole⟩
  · unfold opSkiplistDel
    simp only [seek_spec towers cut, head?_cons, found, bind_eq_bind, bind_some]
    refine Option.bind_eq_some_iff.mpr ⟨spliced, ran, Option.bind_eq_some_iff.mpr ⟨n, read, ?_⟩⟩
    rw [next, bind_some, prev]
    exact Option.bind_eq_some_iff.mpr ⟨linked, parted, Option.bind_eq_some_iff.mpr ⟨lvl, shrunk, by rw [val]⟩⟩
  · rw [whole]
    have lowered := Nat.le_trans below (Nat.le_of_eq level)
    refine towers.remove rfl rfl rfl ⟨pos, lowered⟩ ?_ (fun i => rfl) rfl rfl rfl rfl
    intro i above inside
    have empty := clear i above (Nat.lt_of_lt_of_eq inside level.symm)
    have first : linked.view.next i .head = none := by simp [OpSkiplist.view, OpSkiplist.forward, empty]
    rw [after] at first
    exact first

end LibOp.Skiplist

import LibOp.Skiplist.Search

namespace LibOp.Skiplist

open Foundation Rbt List Function Option Nat

variable {P : Type}

section

def View.spliced (v : View P) (a : Nat) (us : Nat → Loc) (j : Nat) : View P :=
  { v with
    next := fun i =>
      if i < j then
        Function.update (Function.update (v.next i) (.node a) (v.next i (us i))) (us i) (some (.node a))
      else v.next i }

variable {v v' : View P} {l r : List Nat} {a lvl : Nat} {e : RbtEntry P} {i : Nat}

lemma onLevel_of_fresh (heights : v'.height = Function.update v.height a lvl) (fresh : a ∉ l) :
    v'.onLevel i l = v.onLevel i l := by
  apply filter_congr
  intro b mem
  have other : b ≠ a := fun same => fresh (same ▸ mem)
  rw [heights, update_of_ne other]

lemma onLevel_inserted (i : Nat) (heights : v'.height = Function.update v.height a lvl) (fresh : a ∉ l ++ r) :
    v'.onLevel i (l ++ a :: r) = v.onLevel i l ++ if i < lvl then a :: v.onLevel i r else v.onLevel i r := by
  rw [mem_append, not_or] at fresh
  rw [View.onLevel_append, onLevel_of_fresh heights fresh.1]
  apply congrArg
  have rest := onLevel_of_fresh (i := i) heights fresh.2
  unfold View.onLevel at rest ⊢
  rw [filter_cons, heights, update_self, ← heights, rest]
  simp

def View.rejoined (v : View P) (a : Nat) (before : Loc) (r : List Nat) : Loc → Option Loc :=
  match r.head? with
  | none => Function.update v.back (.node a) (some before)
  | some b => Function.update (Function.update v.back (.node a) (some before)) (.node b) (some (.node a))

def View.join (v : View P) (a : Nat) (before : Loc) (r : List Nat) : View P :=
  { v with back := v.rejoined a before r, tail := if r.head? = none then some a else v.tail }

lemma Towers.back_inserted (towers : Towers v (l ++ r)) (fresh : a ∉ l ++ r) :
    LinkedFrom (v.rejoined a (lastLoc l) r) (some (lastLoc (l ++ a :: r))) (trail (l ++ a :: r)).reverse := by
  have chain := towers.back
  have outside : Loc.node a ∉ (trail (l ++ r)).reverse := by
    rw [mem_reverse, node_mem_trail]
    exact fresh
  rw [trail_append] at chain outside
  rw [trail_append]
  unfold View.rejoined
  cases r with
  | nil =>
    rw [map_nil, append_nil] at outside
    simp only [append_nil, map_nil] at chain
    have pushed := chain.push outside
    simpa [lastLoc] using pushed
  | cons b r =>
    have nodup := trail_nodup towers.nodup
    rw [trail_append, ← nodup_reverse] at nodup
    simp only [map_cons, reverse_append, reverse_cons, append_assoc, singleton_append,
      head?_cons] at chain outside nodup ⊢
    have inserted := chain.insertAfter nodup outside
    rw [towers.prev_eq] at inserted
    have last : lastLoc (l ++ a :: b :: r) = lastLoc (l ++ b :: r) := by simp [lastLoc, getLast?_append, getLast?_cons]
    rw [last]
    exact inserted

lemma Towers.chain_inserted (towers : Towers v (l ++ r)) (fresh : a ∉ l ++ r) (bound : i < skiplistMaxLevel) :
    LinkedFrom ((v.spliced a (fun i => lastLoc (v.onLevel i l)) lvl).next i) (some .head)
      (trail (v.onLevel i l ++ if i < lvl then a :: v.onLevel i r else v.onLevel i r)) := by
  have chain := towers.chains i bound
  simp only [View.spliced]
  split
  · obtain ⟨front, shape⟩ := trail_append_last (v.onLevel i l)
    have nodup := trail_nodup (towers.nodup.sublist (v.onLevel_sublist i (l ++ r)))
    have outside : Loc.node a ∉ trail (v.onLevel i (l ++ r)) := by
      intro mem
      exact fresh (View.mem_onLevel.mp (node_mem_trail.mp mem)).1
    rw [View.onLevel_append, shape] at chain nodup outside
    rw [shape]
    exact chain.insertAfter nodup outside
  · rw [← View.onLevel_append]
    exact chain

def View.raise (v : View P) (lvl : Nat) : View P :=
  { v with level := if lvl > v.level then lvl else v.level, unused := v.unused + 1 }

lemma View.raise_level (v : View P) (lvl : Nat) : lvl ≤ (v.raise lvl).level ∧ v.level ≤ (v.raise lvl).level := by
  simp only [View.raise]
  split <;> omega

lemma Towers.raise (towers : Towers v l) (high : lvl ≤ skiplistMaxLevel) : Towers (v.raise lvl) l where
  nodup := towers.nodup
  stored := towers.stored
  tall a mem := by
    obtain ⟨pos, below⟩ := towers.tall a mem
    exact ⟨pos, Nat.le_trans below (v.raise_level lvl).2⟩
  level := by
    have levels := towers.level
    simp only [View.raise]
    split <;> omega
  headLength := towers.headLength
  chains := towers.chains
  back := towers.back
  tail := towers.tail
  size := towers.size
  unused a mem := lt_succ_of_lt (towers.unused a mem)

lemma Towers.insert (towers : Towers v (l ++ r)) (fresh : a ∉ l ++ r) (low : 0 < lvl) (high : lvl ≤ v.level)
    (claimed : a < v.unused) (entry : v'.entry = Function.update v.entry a (some e))
    (height : v'.height = Function.update v.height a lvl) (level : v'.level = v.level)
    (headLength : v'.headLength = v.headLength)
    (next : v'.next = (v.spliced a (fun i => lastLoc (v.onLevel i l)) lvl).next)
    (back : v'.back = v.rejoined a (lastLoc l) r) (tail : v'.tail = if r.head? = none then some a else v.tail)
    (size : v'.size = v.size + 1) (unused : v'.unused = v.unused) : Towers v' (l ++ a :: r) := by
  refine ⟨?_, ?_, ?_, ?_, ?_, ?_, ?_, ?_, ?_, ?_⟩
  · exact (List.perm_middle.nodup_iff).mpr (List.nodup_cons.mpr ⟨fresh, towers.nodup⟩)
  · intro b
    rw [entry]
    by_cases same : b = a
    · simp [same]
    · rw [update_of_ne same, towers.stored]
      simp [same]
  · intro b mem
    rw [height, level]
    by_cases same : b = a
    · rw [same, update_self]
      exact ⟨low, high⟩
    · have old : b ∈ l ++ r := by simpa [same] using mem
      rw [update_of_ne same]
      exact towers.tall b old
  · rw [level]
    exact towers.level
  · rw [headLength]
    exact towers.headLength
  · intro i bound
    rw [next, onLevel_inserted i height fresh]
    exact towers.chain_inserted fresh bound
  · rw [back]
    exact towers.back_inserted fresh
  · rw [tail, towers.tail]
    cases r with
    | nil => simp
    | cons b r => simp [getLast?_append, getLast?_cons]
  · rw [size, towers.size]
    simp only [length_append, length_cons]
    omega
  · intro b mem
    rw [unused]
    by_cases same : b = a
    · rw [same]
      exact claimed
    · have old : b ∈ l ++ r := by simpa [same] using mem
      exact towers.unused b old

lemma Towers.spliced_place (towers : Towers v (l ++ r)) (fresh : a ∉ l ++ r) (low : 0 < lvl)
    (view : w = (v.place a e lvl).spliced a (fun i => lastLoc (v.onLevel i l)) lvl) :
    w.entry a = some e ∧ w.Slot 0 (.node a) ∧ w.next 0 (.node a) = r.head?.map .node ∧
      ∀ b ∈ r, (w.entry b).isSome = true := by
  subst view
  have tall : ((v.place a e lvl).spliced a (fun i => lastLoc (v.onLevel i l)) lvl).height a = lvl :=
    update_self _ _ _
  have apart : Loc.node a ≠ lastLoc l := by
    intro same
    have mem := lastLoc_mem_trail (sublist_append_left l r)
    rw [← same] at mem
    exact fresh (node_mem_trail.mp mem)
  refine ⟨update_self _ _ _, lt_of_lt_of_eq low tall.symm, ?_, ?_⟩
  · simp only [View.spliced, low, ↓reduceIte, towers.onLevel_zero (sublist_append_left l r),
      update_of_ne apart, update_self]
    exact towers.next_zero.2
  · intro b mem
    have old := mem_append_right l mem
    have other : b ≠ a := fun same => fresh (same ▸ old)
    simp only [View.spliced, View.place, update_of_ne other]
    exact (towers.stored b).mpr old

end

variable {sl : OpSkiplist P} {update : List Loc} {us : Nat → Loc} {a : Nat}

lemma spliceIn_view (named : update[i]? = some u) (here : sl.view.Slot i (.node a))
    (there : sl.view.Slot i u) : ∃ sl', spliceIn a update sl i = some sl' ∧
      sl'.view = (sl.view.relink i (.node a) (sl.view.next i u)).relink i u (some (.node a)) := by
  obtain ⟨p, read, link⟩ := forward_read there
  obtain ⟨first, wrote, view⟩ := setForward_view here p
  have slot : first.view.Slot i u := by
    rw [view]
    exact there.congr rfl rfl
  obtain ⟨second, done, after⟩ := setForward_view slot (some a)
  refine ⟨second, ?_, ?_⟩
  · simp [spliceIn, named, read, wrote, done]
  · rw [after, view, link]
    rfl

lemma spliced_succ (v : View P) (a : Nat) (us : Nat → Loc) (j : Nat) :
    ((v.spliced a us j).relink j (.node a) ((v.spliced a us j).next j (us j))).relink j (us j) (some (.node a)) =
      v.spliced a us (j + 1) := by
  simp only [View.relink, View.spliced, View.mk.injEq, and_self, and_true, update_self, Nat.lt_irrefl,
    ↓reduceIte, update_idem]
  funext i
  by_cases same : i = j
  · subst same
    simp
  · have order : i < j + 1 ↔ i < j := by omega
    simp [same, order]

lemma spliceIn_run (named : ∀ i < j, update[i]? = some (us i)) (tall : j ≤ sl.view.height a)
    (slots : ∀ i < j, sl.view.Slot i (us i)) :
    ∃ sl', (List.range j).foldlM (spliceIn a update) sl = some sl' ∧ sl'.view = sl.view.spliced a us j := by
  induction j with
  | zero => exact ⟨sl, rfl, by simp [View.spliced]⟩
  | succ j ih =>
    obtain ⟨before, ran, view⟩ := ih (fun i below => named i (by omega)) (by omega) (fun i below => slots i (by omega))
    have here : before.view.Slot j (.node a) := by
      rw [view]
      exact (by omega : j < sl.view.height a)
    have there : before.view.Slot j (us j) := by
      rw [view]
      exact (slots j (lt_succ_self j)).congr rfl rfl
    obtain ⟨after, stepped, result⟩ := spliceIn_view (named j (lt_succ_self j)) here there
    refine ⟨after, ?_, ?_⟩
    · rw [range_succ, foldlM_append, ran]
      simp [stepped]
    · rw [result, view, spliced_succ]

lemma randomLevelLoop_bounds (bits : Nat → UInt32) (rounds lvl : Nat) :
    lvl ≤ randomLevelLoop bits rounds lvl ∧ randomLevelLoop bits rounds lvl ≤ lvl + rounds := by
  induction rounds generalizing lvl with
  | zero => exact ⟨le_rfl, le_rfl⟩
  | succ rounds ih =>
    have next := ih (lvl + 1)
    rw [randomLevelLoop]
    split <;> omega

lemma randomLevel_bounds (bits : Nat → UInt32) : 0 < randomLevel bits ∧ randomLevel bits ≤ skiplistMaxLevel := by
  have bounds := randomLevelLoop_bounds bits (skiplistMaxLevel - 1) 1
  have max : skiplistMaxLevel = 32 := rfl
  unfold randomLevel
  omega

lemma update_named (towers : Towers v (l ++ r)) (below : i < lvl) :
    (((List.range v.level).map fun i => lastLoc (v.onLevel i l)) ++ List.replicate (lvl - v.level) .head)[i]? =
      some (lastLoc (v.onLevel i l)) := by
  by_cases inside : i < v.level
  · rw [getElem?_append_left (by simpa using inside)]
    simp [inside]
  · rw [getElem?_append_right (by simpa using inside), towers.onLevel_top (sublist_append_left l r)
      (Nat.not_lt.mp inside)]
    have room : i - v.level < lvl - v.level := by omega
    simp [room, lastLoc]

lemma joinBack_view {first : Loc} (stored : sl.view.entry a = some e)
    (slot : sl.view.Slot 0 (.node a)) (link : sl.view.next 0 (.node a) = r.head?.map .node)
    (others : ∀ b ∈ r, (sl.view.entry b).isSome = true) :
    ∃ sl', joinBack sl a first = some sl' ∧ sl'.view = sl.view.join a first r := by
  obtain ⟨linked, wrote, view⟩ := setPrev_view stored (some first)
  have read : linked.forward (.node a) 0 = some r.head? := by
    apply forward_eq
    · rw [view]
      exact slot
    · rw [view]
      exact link
  unfold joinBack View.join View.rejoined
  simp only [wrote, read, bind_eq_bind, bind_some]
  cases start : r.head? with
  | none =>
    refine ⟨_, rfl, ?_⟩
    have rest : ({ linked with tail := some a } : OpSkiplist P).view = { linked.view with tail := some a } := rfl
    rw [rest, view]
    rfl
  | some b =>
    obtain ⟨f, behind⟩ := isSome_iff_exists.mp (others b (mem_of_head? start))
    have behindView : linked.view.entry b = some f := by
      rw [view]
      exact behind
    obtain ⟨ended, done, after⟩ := setPrev_view behindView (some (.node a))
    refine ⟨ended, done, ?_⟩
    rw [after, view]
    simp [View.rejoin]

lemma alloc_spliced (free : sl.nodes a = none) (key val : P)
    (named : ∀ i < lvl, update[i]? = some (us i)) (slots : ∀ i < lvl, sl.view.Slot i (us i)) :
    ∃ spliced, (List.range lvl).foldlM (spliceIn a update)
        { sl with nodes := Function.update sl.nodes a (some (nodeNew lvl key val)) } = some spliced ∧
      spliced.view = (sl.view.place a ⟨key, val⟩ lvl).spliced a us lvl := by
  have view := view_alloc sl free lvl key val
  rw [← view]
  apply spliceIn_run named
  · rw [view]
    exact Nat.le_of_eq (update_self a lvl sl.view.height).symm
  · intro i below
    have slot := slots i below
    rw [view]
    cases place : us i with
    | head => rwa [place] at slot
    | node b =>
      rw [place] at slot
      have other : b ≠ a := by
        rintro rfl
        obtain ⟨n, found, -⟩ := node_of_height slot
        rw [free] at found
        cases found
      have same : (sl.view.place a ⟨key, val⟩ lvl).height b = sl.view.height b := update_of_ne other _ _
      exact lt_of_lt_of_eq slot same.symm

variable [Inhabited P]

lemma set_inserts (val : P) (bits : Nat → UInt32) (towers : Towers sl.view (l ++ r))
    (cut : Cut sl.view (fun k => sl.cmp k key < 0) l r) (missed : hit sl key r.head? = some none) :
    ∃ sl', opSkiplistSet sl key val bits = some (sl', 1, default) ∧
      Towers sl'.view (l ++ sl.unused :: r) ∧ sl'.cmp = sl.cmp ∧
      sl'.view.entry = Function.update sl.view.entry sl.unused (some ⟨key, val⟩) := by
  have fresh := towers.unused_fresh
  have free : sl.nodes sl.unused = none := by
    have absent := (not_congr (towers.stored sl.unused)).mpr fresh
    simpa [OpSkiplist.view] using absent
  obtain ⟨low, high⟩ := randomLevel_bounds bits
  let raised : OpSkiplist P := { sl with
    level := if randomLevel bits > sl.level then randomLevel bits else sl.level
    unused := sl.unused + 1 }
  have grown : Towers raised.view (l ++ r) := towers.raise high
  have slots : ∀ i < randomLevel bits, raised.view.Slot i (lastLoc (raised.view.onLevel i l)) := by
    intro i below
    exact (grown.next_behind (by omega : i < skiplistMaxLevel)).1
  let update := ((List.range sl.level).map fun i => lastLoc (sl.view.onLevel i l)) ++
    List.replicate (randomLevel bits - sl.level) .head
  have named : ∀ i < randomLevel bits, update[i]? = some (lastLoc (raised.view.onLevel i l)) :=
    fun i below => update_named towers below
  have first := named 0 low
  rw [grown.onLevel_zero (sublist_append_left l r)] at first
  have freeRaised : raised.nodes sl.unused = none := free
  obtain ⟨spliced, ran, view⟩ := alloc_spliced freeRaised key val named slots
  obtain ⟨stored, slot, link, others⟩ := grown.spliced_place fresh low view
  obtain ⟨linked, joined, after⟩ : ∃ linked, joinBack spliced sl.unused (lastLoc l) = some linked ∧
      linked.view = spliced.view.join sl.unused (lastLoc l) r := joinBack_view stored slot link others
  have whole : ({ linked with size := linked.size + 1 } : OpSkiplist P).view =
      { ((raised.view.place sl.unused ⟨key, val⟩ (randomLevel bits)).spliced sl.unused
          (fun i => lastLoc (raised.view.onLevel i l)) (randomLevel bits)).join sl.unused (lastLoc l) r with
        size := sl.size + 1 } := by
    have counted : ({ linked with size := linked.size + 1 } : OpSkiplist P).view =
        { linked.view with size := linked.view.size + 1 } := rfl
    rw [counted, after, view]
    rfl
  refine ⟨{ linked with size := linked.size + 1 }, ?_, ?_, ?_, ?_⟩
  · unfold opSkiplistSet
    simp only [seek_spec towers cut, missed, bind_eq_bind, bind_some]
    exact bind_eq_some_iff.mpr ⟨spliced, ran, bind_eq_some_iff.mpr ⟨lastLoc l, first,
      bind_eq_some_iff.mpr ⟨linked, joined, rfl⟩⟩⟩
  · have room : randomLevel bits ≤ raised.view.level := (sl.view.raise_level (randomLevel bits)).1
    rw [whole]
    exact grown.insert fresh low room (lt_succ_self _) rfl rfl rfl rfl rfl rfl rfl rfl rfl
  · exact congrArg View.cmp whole
  · exact congrArg View.entry whole

end LibOp.Skiplist

import LibOp.Skiplist.Towers

namespace LibOp.Skiplist

open Foundation List Option

variable {P : Type} {sl : OpSkiplist P} {before : P → Bool}

structure Cut (v : View P) (before : P → Bool) (l r : List Nat) : Prop where
  passed : ∀ a ∈ l, ∃ e, v.entry a = some e ∧ before e.key = true
  stopped : ∀ b ∈ r, ∃ e, v.entry b = some e ∧ before e.key = false

lemma advance_spec (slot : sl.view.Slot i x) (slots : ∀ a ∈ l, i < sl.view.height a) (cut : Cut sl.view before l r)
    (chain : LinkedFrom (sl.view.next i) (sl.view.next i x) ((l ++ r).map .node)) (enough : l.length < rounds) :
    advance sl before i rounds x = some (l.getLast?.elim x .node) := by
  induction l generalizing x rounds with
  | nil =>
    obtain ⟨rounds, rfl⟩ : ∃ k, rounds = k + 1 := ⟨rounds - 1, by simp at enough; omega⟩
    have link : sl.view.next i x = r.head?.map Loc.node := by rw [chain.start_eq, nil_append, head?_map]
    rw [advance, forward_eq slot link]
    cases stop : r.head? with
    | none => rfl
    | some b =>
      obtain ⟨e, stored, refused⟩ := cut.stopped b (mem_of_head? stop)
      obtain ⟨n, found, key, -⟩ := node_of_entry stored
      simp [found, key, refused]
  | cons a l ih =>
    obtain ⟨rounds, rfl⟩ : ∃ k, rounds = k + 1 := ⟨rounds - 1, by simp at enough; omega⟩
    obtain ⟨link, rest⟩ := chain
    obtain ⟨e, stored, accepted⟩ := cut.passed a mem_cons_self
    obtain ⟨n, found, key, -⟩ := node_of_entry stored
    have here : sl.forward x i = some (some a) := forward_eq slot link
    have fewer : l.length < rounds := by
      simp at enough
      omega
    have reached : sl.view.Slot i (.node a) := slots a mem_cons_self
    have next := ih reached (forall_mem_cons.mp slots).2
      ⟨fun b mem => cut.passed b (mem_cons_of_mem a mem), cut.stopped⟩ rest fewer
    rw [advance, here]
    simp only [bind_eq_bind, bind_some, found, key, accepted, ↓reduceIte, next, getLast?_cons]
    cases l.getLast? <;> rfl

variable {v : View P}

lemma Cut.sublist (cut : Cut v before l r) (left : l'.Sublist l) (right : r'.Sublist r) : Cut v before l' r' :=
  ⟨fun a mem => cut.passed a (left.subset mem), fun b mem => cut.stopped b (right.subset mem)⟩

variable {l r : List Nat}

lemma descend_spec (towers : Towers sl.view (l ++ r)) (cut : Cut sl.view before l r) (bound : j ≤ skiplistMaxLevel) :
    descend sl before j (lastLoc (sl.view.onLevel j l)) =
      some (lastLoc l, (List.range j).map fun i => lastLoc (sl.view.onLevel i l)) := by
  induction j with
  | zero =>
    rw [towers.onLevel_zero (sublist_append_left l r)]
    rfl
  | succ j ih =>
    have start := lastLoc_mem_trail (sl.view.onLevel_succ j l)
    obtain ⟨front, rest, shape, last, within⟩ := trail_split start
    have whole : trail (sl.view.onLevel j (l ++ r)) = front ++ lastLoc (sl.view.onLevel (j + 1) l) ::
        (rest ++ sl.view.onLevel j r).map .node := by
      rw [View.onLevel_append, trail_append, shape, append_assoc, cons_append, map_append]
    have chain := towers.chain (by omega) whole
    have slot := towers.slot (i := j) (x := lastLoc (sl.view.onLevel (j + 1) l)) (by omega) (by rw [whole]; simp)
    have few : rest.length < sl.size + 1 := by
      have size : sl.size = (l ++ r).length := towers.size
      have short := (within.trans (sl.view.onLevel_sublist j l)).length_le
      rw [length_append] at size
      omega
    have step := advance_spec slot (fun a mem => (View.mem_onLevel.mp (within.subset mem)).2)
      (cut.sublist (within.trans (sl.view.onLevel_sublist j l)) (sl.view.onLevel_sublist j r)) chain few
    rw [descend, step, ← last]
    simp [ih (by omega), range_succ]

lemma Towers.next_behind (towers : Towers v (l ++ r)) (bound : i < skiplistMaxLevel) :
    v.Slot i (lastLoc (v.onLevel i l)) ∧ v.next i (lastLoc (v.onLevel i l)) = (v.onLevel i r).head?.map .node := by
  obtain ⟨front, shape⟩ := trail_append_last (v.onLevel i l)
  have whole : trail (v.onLevel i (l ++ r)) = front ++ lastLoc (v.onLevel i l) :: (v.onLevel i r).map .node := by
    rw [View.onLevel_append, shape]
  constructor
  · apply towers.slot bound
    rw [whole]
    simp
  · rw [(towers.chain bound whole).start_eq, head?_map]

lemma Towers.next_zero (towers : Towers v (l ++ r)) :
    v.Slot 0 (lastLoc l) ∧ v.next 0 (lastLoc l) = r.head?.map .node := by
  have behind := towers.next_behind (by decide : 0 < skiplistMaxLevel)
  rw [towers.onLevel_zero (sublist_append_left l r), towers.onLevel_zero (sublist_append_right l r)] at behind
  exact behind

lemma seek_spec (towers : Towers sl.view (l ++ r)) (cut : Cut sl.view before l r) :
    seek sl before = some (r.head?, (List.range sl.level).map fun i => lastLoc (sl.view.onLevel i l)) := by
  have top : lastLoc (sl.view.onLevel sl.level l) = .head := by
    rw [towers.onLevel_top (sublist_append_left l r) (Nat.le_refl sl.level)]
    rfl
  have found := descend_spec towers cut (j := sl.level) towers.level.2
  rw [top] at found
  obtain ⟨slot, link⟩ := towers.next_zero
  rw [seek, found]
  simp [forward_eq slot link]

end LibOp.Skiplist

import LibOp.Foundation.Chains
import LibOp.Rbt.OrderedMap
import LibOp.Skiplist.Nodes

namespace LibOp.Skiplist

open Rbt Option OpSkiplist Function

/-- The links of each level and the backward links as functions, the entries, and the levels of each node. -/
structure View (P : Type) where
  next : Nat → Loc → Option Loc
  back : Loc → Option Loc
  entry : Nat → Option (RbtEntry P)
  height : Nat → Nat
  headLength : Nat
  unused : Nat
  tail : Option Nat
  cmp : P → P → Int
  size : Nat
  level : Nat

variable {P : Type}

def OpSkiplist.view (sl : OpSkiplist P) : View P where
  next i x := (sl.forward x i).join.map Loc.node
  back
    | .head => none
    | .node a => (sl.nodes a).bind SlNode.prev
  entry a := (sl.nodes a).map fun n => ⟨n.key, n.val⟩
  height a := ((sl.nodes a).map fun n => n.forward.length).getD 0
  headLength := sl.head.length
  unused := sl.unused
  tail := sl.tail
  cmp := sl.cmp
  size := sl.size
  level := sl.level

def View.relink (v : View P) (i : Nat) (x : Loc) (p : Option Loc) : View P :=
  { v with next := update v.next i (update (v.next i) x p) }

def View.rejoin (v : View P) (x : Loc) (p : Option Loc) : View P := { v with back := update v.back x p }

def View.place (v : View P) (a : Nat) (e : RbtEntry P) (lvl : Nat) : View P :=
  { v with entry := update v.entry a (some e), height := update v.height a lvl }

def View.free (v : View P) (a : Nat) : View P :=
  { v with
    next := fun i => update (v.next i) (.node a) none
    back := update v.back (.node a) none
    entry := update v.entry a none
    height := update v.height a 0 }

def View.Slot (v : View P) (i : Nat) : Loc → Prop
  | .head => i < v.headLength
  | .node a => i < v.height a

variable {i a : Nat} {x : Loc}

lemma View.Slot.congr {v w : View P} (slot : v.Slot i x) (head : w.headLength = v.headLength)
    (height : w.height = v.height) : w.Slot i x := by
  cases x with
  | head => exact Nat.lt_of_lt_of_eq slot head.symm
  | node a => exact Nat.lt_of_lt_of_eq slot (congrFun height a).symm

variable {sl : OpSkiplist P} {e : RbtEntry P}

lemma node_of_entry (stored : sl.view.entry a = some e) :
    ∃ n, sl.nodes a = some n ∧ n.key = e.key ∧ n.val = e.val ∧ n.prev = sl.view.back (.node a) ∧
      n.forward.length = sl.view.height a := by
  obtain ⟨n, found, rfl⟩ := Option.map_eq_some_iff.mp stored
  exact ⟨n, found, rfl, rfl, by simp [view, found], by simp [view, found]⟩

lemma node_of_height (tall : i < sl.view.height a) : ∃ n, sl.nodes a = some n ∧ i < n.forward.length := by
  simp only [view] at tall
  cases found : sl.nodes a with
  | none =>
    rw [found] at tall
    exact absurd tall (Nat.not_lt_zero i)
  | some n =>
    rw [found] at tall
    exact ⟨n, rfl, tall⟩

lemma forward_read (slot : sl.view.Slot i x) : ∃ p, sl.forward x i = some p ∧ sl.view.next i x = p.map Loc.node := by
  obtain ⟨p, read⟩ : ∃ p, sl.forward x i = some p := by
    cases x with
    | head => exact ⟨_, List.getElem?_eq_getElem slot⟩
    | node a =>
      obtain ⟨n, found, tall⟩ := node_of_height slot
      exact ⟨_, by rw [OpSkiplist.forward, found, bind_some, List.getElem?_eq_getElem tall]⟩
  exact ⟨p, read, by simp [view, read]⟩

lemma forward_eq (slot : sl.view.Slot i x) (link : sl.view.next i x = p.map Loc.node) : sl.forward x i = some p := by
  obtain ⟨q, read, same⟩ := forward_read slot
  have injective : Function.Injective Loc.node := fun _ _ h => Loc.node.inj h
  rw [read, map_injective injective (same.symm.trans link)]

lemma view_write (sl : OpSkiplist P) (a : Nat) (m : Option (SlNode P)) :
    ({ sl with nodes := update sl.nodes a m } : OpSkiplist P).view = { sl.view with
      next := fun i => update (sl.view.next i) (.node a)
        ((m.bind fun n => n.forward[i]?).join.map Loc.node)
      back := update sl.view.back (.node a) (m.bind SlNode.prev)
      entry := update sl.view.entry a (m.map fun n => ⟨n.key, n.val⟩)
      height := update sl.view.height a ((m.map fun n => n.forward.length).getD 0) } := by
  simp only [view, View.mk.injEq, and_self, and_true]
  refine ⟨?_, ?_, ?_, ?_⟩
  · funext i y
    cases y with
    | head => simp [OpSkiplist.forward]
    | node b =>
      by_cases same : b = a
      · subst same
        simp [OpSkiplist.forward]
      · simp [OpSkiplist.forward, same]
  · funext y
    cases y with
    | head => simp
    | node b =>
      by_cases same : b = a
      · subst same
        simp
      · simp [same]
  · funext b
    by_cases same : b = a
    · subst same
      simp
    · simp [same]
  · funext b
    by_cases same : b = a
    · subst same
      simp
    · simp [same]

lemma update_same {ι β : Type*} [DecidableEq ι] {f : ι → β} {x : ι} {b : β} (same : f x = b) : update f x b = f := by
  rw [← same, Function.update_eq_self]

lemma setForward_view (slot : sl.view.Slot i x) (p : Option Nat) :
    ∃ sl', sl.setForward i p x = some sl' ∧ sl'.view = sl.view.relink i x (p.map Loc.node) := by
  cases x with
  | head =>
    have bound : i < sl.head.length := slot
    refine ⟨_, if_pos bound, ?_⟩
    simp only [view, View.relink, View.mk.injEq, List.length_set, and_self, and_true]
    funext j y
    by_cases level : j = i
    · subst level
      cases y with
      | head => simp [OpSkiplist.forward, bound]
      | node b => simp [OpSkiplist.forward]
    · rw [update_of_ne level]
      have other : ¬ i = j := fun same => level same.symm
      cases y with
      | head => simp [OpSkiplist.forward, other]
      | node b => simp [OpSkiplist.forward]
  | node a =>
    obtain ⟨n, found, tall⟩ := node_of_height slot
    refine ⟨{ sl with nodes := update sl.nodes a (some { n with forward := n.forward.set i p }) }, ?_, ?_⟩
    · simp [setForward, found, tall]
    · rw [view_write, update_same (f := sl.view.back), update_same (f := sl.view.entry),
        update_same (f := sl.view.height), View.relink]
      · simp only [View.mk.injEq, and_self, and_true]
        funext j
        by_cases level : j = i
        · subst level
          simp [tall]
        · have other : ¬ i = j := fun same => level same.symm
          rw [update_of_ne level]
          apply update_same
          simp [view, OpSkiplist.forward, found, other]
      all_goals simp [view, found]

lemma setPrev_view (stored : sl.view.entry a = some e) (p : Option Loc) :
    ∃ sl', sl.setPrev a p = some sl' ∧ sl'.view = sl.view.rejoin (.node a) p := by
  obtain ⟨n, found, -⟩ := node_of_entry stored
  refine ⟨{ sl with nodes := update sl.nodes a (some { n with prev := p }) }, ?_, ?_⟩
  · simp [setPrev, found]
  · rw [view_write, update_same (f := sl.view.entry), update_same (f := sl.view.height), View.rejoin]
    · simp only [bind_some, View.mk.injEq, and_self, and_true]
      funext i
      apply update_same
      simp [view, OpSkiplist.forward, found]
    all_goals simp [view, found]

lemma view_alloc (sl : OpSkiplist P) (free : sl.nodes a = none) (lvl : Nat) (key val : P) :
    ({ sl with nodes := update sl.nodes a (some (nodeNew lvl key val)) } : OpSkiplist P).view =
      sl.view.place a ⟨key, val⟩ lvl := by
  rw [view_write, update_same (f := sl.view.back), View.place]
  · simp only [nodeNew, map_some, List.length_replicate, getD_some, View.mk.injEq, and_self, and_true]
    funext i
    apply update_same
    by_cases inside : i < lvl
    · simp [view, OpSkiplist.forward, free, inside]
    · simp [view, OpSkiplist.forward, free, inside]
  · simp [view, free, nodeNew]

lemma view_rewrite {n : SlNode P} (found : sl.nodes a = some n) (key val : P) :
    ({ sl with nodes := update sl.nodes a (some { n with key := key, val := val }) } : OpSkiplist P).view =
      { sl.view with entry := update sl.view.entry a (some ⟨key, val⟩) } := by
  rw [view_write, update_same (f := sl.view.back), update_same (f := sl.view.height)]
  · simp only [map_some, View.mk.injEq, and_self, and_true]
    funext i
    apply update_same
    simp [view, OpSkiplist.forward, found]
  all_goals simp [view, found]

lemma view_free (sl : OpSkiplist P) (a : Nat) :
    ({ sl with nodes := update sl.nodes a none } : OpSkiplist P).view = sl.view.free a := view_write sl a none

end LibOp.Skiplist

import Mathlib

namespace LibOp.Foundation

open List Option

inductive BitTrie (V : Type*) where
  | nil
  | node (data : Option V) (zero one : BitTrie V)

namespace BitTrie

variable {V : Type*}

def isNil : BitTrie V → Bool
  | nil => true
  | node _ _ _ => false

def data : BitTrie V → Option V
  | nil => none
  | node d _ _ => d

def child (b : Bool) : BitTrie V → BitTrie V
  | nil => nil
  | node _ zero one => if b then one else zero

def withChild (t : BitTrie V) (b : Bool) (c : BitTrie V) : BitTrie V :=
  if b then node t.data (t.child false) c else node t.data c (t.child true)

def withData (t : BitTrie V) (d : Option V) : BitTrie V := node d (t.child false) (t.child true)

def find (t : BitTrie V) : List Bool → Option V
  | [] => t.data
  | b :: p => (t.child b).find p

def put (d : Option V) (t : BitTrie V) : List Bool → BitTrie V
  | [] => t.withData d
  | b :: p => t.withChild b ((t.child b).put d p)

def reaches (t : BitTrie V) : List Bool → Bool
  | [] => !t.isNil
  | b :: p => !t.isNil && (t.child b).reaches p

def entries : BitTrie V → List (List Bool × V)
  | nil => []
  | node d zero one =>
    (d.map fun v => ([], v)).toList ++ (zero.entries.map fun e => (false :: e.1, e.2)) ++
      one.entries.map fun e => (true :: e.1, e.2)

def FitsIn : Nat → BitTrie V → Prop
  | _, nil => True
  | 0, node _ zero one => zero = nil ∧ one = nil
  | n + 1, node _ zero one => zero.FitsIn n ∧ one.FitsIn n

variable (b : Bool)

@[simp] lemma child_nil : (nil : BitTrie V).child b = nil := rfl

@[simp] lemma data_withChild (c t : BitTrie V) : (t.withChild b c).data = t.data := by
  cases b <;> rfl

@[simp] lemma child_withChild_self (c t : BitTrie V) : (t.withChild b c).child b = c := by
  cases b <;> rfl

@[simp] lemma child_withChild_not (c t : BitTrie V) : (t.withChild b c).child (!b) = t.child (!b) := by
  cases b <;> rfl

variable (d : Option V)

@[simp] lemma data_withData (t : BitTrie V) : (t.withData d).data = d := rfl

@[simp] lemma child_withData (t : BitTrie V) (b : Bool) : (t.withData d).child b = t.child b := by
  cases b <;> rfl

@[simp] lemma find_nil (p : List Bool) : (nil : BitTrie V).find p = none := by
  induction p with
  | nil => rfl
  | cons b p ih => exact ih

@[simp] lemma withChild_self (zero one : BitTrie V) (b : Bool) :
    (node d zero one).withChild b ((node d zero one).child b) = node d zero one := by
  cases b <;> rfl

@[simp] lemma reaches_nil (p : List Bool) : (nil : BitTrie V).reaches p = false := by
  cases p <;> rfl

@[simp] lemma reaches_node_cons (zero one : BitTrie V) (b : Bool) (p : List Bool) :
    (node d zero one).reaches (b :: p) = ((node d zero one).child b).reaches p := rfl

lemma find_put (t : BitTrie V) (p q : List Bool) : (t.put d p).find q = if q = p then d else t.find q := by
  induction p generalizing t q with
  | nil =>
    cases q with
    | nil | cons b q => simp [put, find]
  | cons b p ih =>
    cases q with
    | nil => simp [put, find]
    | cons b' q =>
      rw [put, find]
      by_cases same : b' = b
      · subst same
        rw [child_withChild_self, ih]
        simp [find]
      · have other : b' = !b := by
          cases b <;> cases b' <;> simp_all
        rw [other, child_withChild_not]
        simp [find]

variable {t : BitTrie V} {p : List Bool}

lemma find_eq_none_of_not_reaches (missing : t.reaches p = false) : t.find p = none := by
  induction p generalizing t with
  | nil =>
    cases t with
    | nil => rfl
    | node => cases missing
  | cons b p ih =>
    cases t with
    | nil => exact find_nil (b :: p)
    | node d zero one => exact ih (by simpa [reaches, isNil] using missing)

variable {v : V}

lemma mem_entries : (p, v) ∈ t.entries ↔ t.find p = some v := by
  induction t generalizing p with
  | nil => simp [entries]
  | node d zero one left right =>
    cases p with
    | nil => cases d <;> simp [entries, find, data, eq_comm]
    | cons b p => cases b <;> simp [entries, find, child, left, right]

lemma nodup_map_cons {l : List (List Bool × V)} (nodup : (l.map Prod.fst).Nodup) (b : Bool) :
    (l.map fun e => b :: e.1).Nodup := by
  have mapped := nodup.map (cons_injective (a := b))
  rwa [List.map_map] at mapped

lemma entries_nodup (t : BitTrie V) : (t.entries.map Prod.fst).Nodup := by
  induction t with
  | nil => exact nodup_nil
  | node d zero one left right =>
    have apart : List.Disjoint (zero.entries.map fun e => false :: e.1) (one.entries.map fun e => true :: e.1) := by
      intro p low high
      obtain ⟨e, -, rfl⟩ := List.mem_map.mp low
      obtain ⟨e', -, same⟩ := List.mem_map.mp high
      cases same
    have both := List.Nodup.append (nodup_map_cons left false) (nodup_map_cons right true) apart
    cases d with
    | none | some v => simpa [entries, Function.comp_def] using both

lemma length_entries (t : BitTrie V) : t.entries.length =
      (if t.data.isSome then 1 else 0) + (t.child false).entries.length + (t.child true).entries.length := by
  cases t with
  | nil => rfl
  | node d zero one =>
    rw [entries, length_append, length_append, length_map, length_map]
    cases d <;> rfl

lemma length_entries_put (t : BitTrie V) (p : List Bool) :
    (t.put d p).entries.length + (if (t.find p).isSome then 1 else 0) =
      t.entries.length + if d.isSome then 1 else 0 := by
  induction p generalizing t with
  | nil =>
    rw [length_entries t, length_entries (t.put d []), put, data_withData, child_withData, child_withData, find]
    omega
  | cons b p ih =>
    have below := ih (t.child b)
    rw [length_entries t, length_entries (t.put d (b :: p)), put, data_withChild, find]
    cases b with
    | false =>
      rw [child_withChild_self, show (t.withChild false _).child true = t.child true from rfl]
      omega
    | true =>
      rw [child_withChild_self, show (t.withChild true _).child false = t.child false from rfl]
      omega

@[simp] lemma fitsIn_nil (n : Nat) : (nil : BitTrie V).FitsIn n := by
  cases n <;> exact trivial

variable {n : Nat}

lemma FitsIn.child (fits : t.FitsIn (n + 1)) (b : Bool) : (t.child b).FitsIn n := by
  cases t with
  | nil => exact fitsIn_nil n
  | node d zero one =>
    cases b with
    | false => exact fits.1
    | true => exact fits.2

lemma FitsIn.length_le (fits : t.FitsIn n) (stored : t.find p = some v) : p.length ≤ n := by
  induction p generalizing n t with
  | nil => exact Nat.zero_le n
  | cons b p ih =>
    cases n with
    | zero =>
      cases t with
      | nil => simp at stored
      | node d zero one =>
        obtain ⟨rfl, rfl⟩ := fits
        cases b <;> simp [find, BitTrie.child] at stored
    | succ n => exact Nat.succ_le_succ (ih (fits.child b) stored)

lemma FitsIn.put (fits : t.FitsIn n) (d : Option V) (short : p.length ≤ n) : (t.put d p).FitsIn n := by
  induction p generalizing n t with
  | nil =>
    cases n with
    | zero =>
      cases t with
      | nil => exact ⟨rfl, rfl⟩
      | node d' zero one => exact fits
    | succ n => exact ⟨fits.child false, fits.child true⟩
  | cons b p ih =>
    cases n with
    | zero => cases short
    | succ n =>
      have inside := ih (fits.child b) (Nat.le_of_succ_le_succ short)
      cases b with
      | false => exact ⟨inside, fits.child true⟩
      | true => exact ⟨fits.child false, inside⟩

def firstAlong (t : BitTrie V) : List Bool → Option V
  | [] => t.data
  | b :: p => t.data.or ((t.child b).firstAlong p)

def lastAlong (t : BitTrie V) : List Bool → Option V
  | [] => t.data
  | b :: p => ((t.child b).lastAlong p).or t.data

@[simp] lemma firstAlong_nil (p : List Bool) : (nil : BitTrie V).firstAlong p = none := by
  induction p with
  | nil => rfl
  | cons b p ih => exact ih

@[simp] lemma lastAlong_nil (p : List Bool) : (nil : BitTrie V).lastAlong p = none := by
  induction p with
  | nil => rfl
  | cons b p ih => rw [lastAlong, child_nil, ih, none_or, data]

lemma forall_prefix_cons {P : List Bool → Prop} {b : Bool} :
    (∀ q, q <+: b :: p → P q) ↔ P [] ∧ ∀ q, q <+: p → P (b :: q) := by
  constructor
  · intro all
    exact ⟨all [] nil_prefix, fun q covers => all (b :: q) ((prefix_cons_inj b).mpr covers)⟩
  · intro parts q covers
    cases q with
    | nil => exact parts.1
    | cons b' q =>
      obtain ⟨rfl, inside⟩ := List.cons_prefix_cons.mp covers
      exact parts.2 q inside

lemma firstAlong_eq_none : t.firstAlong p = none ↔ ∀ q, q <+: p → t.find q = none := by
  induction p generalizing t with
  | nil => simp [firstAlong, find]
  | cons b p ih =>
    rw [firstAlong, or_eq_none_iff, ih, forall_prefix_cons]
    rfl

lemma lastAlong_eq_none : t.lastAlong p = none ↔ ∀ q, q <+: p → t.find q = none := by
  induction p generalizing t with
  | nil => simp [lastAlong, find]
  | cons b p ih =>
    rw [lastAlong, or_eq_none_iff, ih, forall_prefix_cons, and_comm]
    rfl

lemma firstAlong_shortest (found : t.firstAlong p = some v) :
    ∃ q, q <+: p ∧ t.find q = some v ∧ ∀ q' w, q' <+: p → t.find q' = some w → q.length ≤ q'.length := by
  induction p generalizing t with
  | nil => exact ⟨[], nil_prefix, found, fun _ _ _ _ => Nat.zero_le _⟩
  | cons b p ih =>
    rw [firstAlong] at found
    cases here : t.data with
    | some w =>
      rw [here] at found
      exact ⟨[], nil_prefix, here.trans found, fun _ _ _ _ => Nat.zero_le _⟩
    | none =>
      rw [here, none_or] at found
      obtain ⟨q, covers, stored, least⟩ := ih found
      refine ⟨b :: q, (prefix_cons_inj b).mpr covers, stored, ?_⟩
      intro q' w covers' stored'
      cases q' with
      | nil => cases here.symm.trans stored'
      | cons b' q' =>
        obtain ⟨rfl, inside⟩ := List.cons_prefix_cons.mp covers'
        exact Nat.succ_le_succ (least q' w inside stored')

lemma lastAlong_longest (found : t.lastAlong p = some v) :
    ∃ q, q <+: p ∧ t.find q = some v ∧ ∀ q' w, q' <+: p → t.find q' = some w → q'.length ≤ q.length := by
  induction p generalizing t with
  | nil =>
    refine ⟨[], nil_prefix, found, ?_⟩
    intro q' w covers' stored'
    exact Nat.le_of_eq (congrArg List.length (List.prefix_nil.mp covers'))
  | cons b p ih =>
    rw [lastAlong] at found
    cases below : (t.child b).lastAlong p with
    | some w =>
      rw [below, some_or] at found
      cases found
      obtain ⟨q, covers, stored, greatest⟩ := ih below
      refine ⟨b :: q, (prefix_cons_inj b).mpr covers, stored, ?_⟩
      intro q' w covers' stored'
      cases q' with
      | nil => exact Nat.zero_le _
      | cons b' q' =>
        obtain ⟨rfl, inside⟩ := List.cons_prefix_cons.mp covers'
        exact Nat.succ_le_succ (greatest q' w inside stored')
    | none =>
      rw [below, none_or] at found
      refine ⟨[], nil_prefix, found, ?_⟩
      intro q' w covers' stored'
      cases q' with
      | nil => exact le_rfl
      | cons b' q' =>
        obtain ⟨rfl, inside⟩ := List.cons_prefix_cons.mp covers'
        cases (lastAlong_eq_none.mp below q' inside).symm.trans stored'

end BitTrie

end LibOp.Foundation

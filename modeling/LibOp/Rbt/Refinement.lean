import LibOp.Rbt.Tree

namespace LibOp.Rbt

open Foundation LlrbTree

variable {P : Type}

section

variable [Inhabited P]

def assocFind (cmp : P → P → Int) (key : P) (l : List (RbtEntry P)) : Option (RbtEntry P) :=
  l.find? fun e => cmp key e.key = 0

def assocSet (cmp : P → P → Int) (l : List (RbtEntry P)) (key val : P) : List (RbtEntry P) × Nat × P :=
  let found := assocFind cmp key l
  (insertSorted (fun e => cmp key e.key) ⟨key, val⟩ (fun _ => ⟨key, val⟩) l, if found.isNone then 1 else 0,
    foundVal found)

def assocDel (cmp : P → P → Int) (l : List (RbtEntry P)) (key : P) : List (RbtEntry P) × P :=
  (l.eraseP fun e => cmp key e.key = 0, foundVal (assocFind cmp key l))

def assocStep (cmp : P → P → Int) (l : List (RbtEntry P)) : RbtOp P → List (RbtEntry P) × RbtReply P
  | .set key val =>
    let (next, inserted, oldVal) := assocSet cmp l key val
    (next, .set inserted oldVal)
  | .del key =>
    let (next, foundVal) := assocDel cmp l key
    (next, .del foundVal)

end

variable {cmp : P → P → Int}

def Ascending (cmp : P → P → Int) (l : List (RbtEntry P)) : Prop := l.Pairwise fun a b => cmp a.key b.key < 0

structure Represents (cmp : P → P → Int) (t : OpRbt P) (l : List (RbtEntry P)) : Prop where
  comparator : t.cmp = cmp
  contents : t.root.toList = l
  ascending : Ascending cmp l
  balanced : ∃ n, LlrbTree.Balanced .black n t.root
  size : t.size = l.length

lemma create_represents (cmp : P → P → Int) : Represents cmp (opRbtCreate cmp) [] :=
  ⟨rfl, rfl, List.Pairwise.nil, ⟨0, .nil⟩, rfl⟩

variable (laws : TotalPreorder cmp)

include laws

lemma Ascending.sortedFor (ascending : Ascending cmp l) (key : P) : SortedFor (fun e => cmp key e.key) l := by
  apply List.Pairwise.imp _ ascending
  intro a b before reached
  by_contra other
  exact absurd (laws.lt_of_le_of_lt (Int.not_lt.mp other) before) (Int.not_lt.mpr reached)

lemma insertLaws (key val : P) : InsertLaws (fun a b : RbtEntry P => cmp a.key b.key < 0)
    (fun e => cmp key e.key) ⟨key, val⟩ (fun _ => ⟨key, val⟩) := by
  apply InsertLaws.mk
  · intro u v w first second
    exact laws.lt_of_lt_of_le first (Int.le_of_lt second)
  · intro v less
    exact less
  · intro v greater
    exact (laws.swap v.key key).mpr greater
  · intro v w equal less
    exact laws.lt_of_le_of_lt (Int.le_of_eq equal) less
  · intro u v equal less
    exact laws.lt_of_lt_of_le less (Int.le_of_eq (laws.eq_zero_symm equal))

variable [Inhabited P] {t : OpRbt P} {l : List (RbtEntry P)}

lemma Represents.set (rep : Represents cmp t l) (key val : P) :
    ∃ t', opRbtSet t key val = some (t', (assocSet cmp l key val).2) ∧
      Represents cmp t' (assocSet cmp l key val).1 := by
  obtain ⟨rfl, rfl, ascending, ⟨n, balanced⟩, size⟩ := rep
  obtain ⟨root, found, inserted, black, contents, search⟩ := insert_root noNote (fun e => t.cmp key e.key)
    ⟨key, val⟩ () (fun _ => ⟨key, val⟩) (Ascending.sortedFor laws ascending key) balanced
  have ne : root.isNil = false := by
    rw [← Bool.not_eq_true, isNil_iff_toList, contents]
    exact insertSorted_ne_nil _ _ _
  refine ⟨⟨root.blacken, t.cmp, t.size + if found.isNone then 1 else 0⟩, ?_, rfl, ?_, ?_, black, ?_⟩
  · simp [opRbtSet, insert, inserted, ne, assocSet, assocFind, search]
  · rw [toList_blacken, contents]
    rfl
  · exact pairwise_insertSorted (insertLaws laws key val) ascending
  · rw [assocSet, length_insertSorted _ _ (Ascending.sortedFor laws ascending key), search, size]

lemma Represents.del (rep : Represents cmp t l) (key : P) :
    ∃ t', opRbtDel t key = some (t', (assocDel cmp l key).2) ∧ Represents cmp t' (assocDel cmp l key).1 := by
  obtain ⟨rfl, rfl, ascending, ⟨n, balanced⟩, size⟩ := rep
  have enough : t.root.toList.length < t.root.size + 1 := by
    rw [size_eq_length]
    exact Nat.lt_succ_self _
  obtain ⟨root, found, deleted, black, contents, search⟩ := del_root noNote (fun _ => none) id id
    (fun s => rfl) (Ascending.sortedFor laws ascending key) balanced enough
  rw [List.map_id, List.map_id, eraseSorted_eq_eraseP] at contents
  refine ⟨⟨root.blacken, t.cmp, if found.isSome then t.size - 1 else t.size⟩, ?_, rfl, ?_, ?_, black, ?_⟩
  · simp [opRbtDel, Rbt.del, deleted, assocDel, assocFind, search]
  · rw [toList_blacken, contents]
    rfl
  · exact List.Pairwise.sublist List.eraseP_sublist ascending
  · have present : found.isSome = t.root.toList.any fun e => t.cmp key e.key = 0 := by
      rw [Bool.eq_iff_iff, search, List.find?_isSome, List.any_eq_true]
    rw [assocDel, List.length_eraseP, present, size]

lemma Represents.step (rep : Represents cmp t l) (op : RbtOp P) :
    ∃ t', rbtStep t op = some (t', (assocStep cmp l op).2) ∧ Represents cmp t' (assocStep cmp l op).1 := by
  cases op with
  | set key val =>
    obtain ⟨t', done, next⟩ := rep.set laws key val
    exact ⟨t', by simp [rbtStep, assocStep, done], next⟩
  | del key =>
    obtain ⟨t', done, next⟩ := rep.del laws key
    exact ⟨t', by simp [rbtStep, assocStep, done], next⟩

lemma run_represents (ops : List (RbtOp P)) :
    ∃ t, runReplies rbtStep (opRbtCreate cmp) ops = some (t, (specReplies (assocStep cmp) [] ops).2) ∧
      Represents cmp t (specReplies (assocStep cmp) [] ops).1 :=
  runReplies_simulates (fun _ _ op _ rep => rep.step laws op) (create_represents cmp)

end LibOp.Rbt

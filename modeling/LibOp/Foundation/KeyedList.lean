import Mathlib

namespace LibOp.Foundation

open List

variable {α : Type*}

/-- `a[i] = a[--n]`: the last element takes the place of element `i`. -/
def swapRemove (l : List α) (i : Nat) : List α :=
  match l.getLast? with
  | none => []
  | some last => (l.set i last).dropLast

lemma swapRemove_middle (before after : List α) (x y : α) :
    swapRemove (before ++ x :: (after ++ [y])) before.length = before ++ y :: after := by
  have shape : before ++ x :: (after ++ [y]) = (before ++ x :: after) ++ [y] := by simp
  have last : (before ++ x :: (after ++ [y])).getLast? = some y := by rw [shape, getLast?_concat]
  have placed : (before ++ x :: (after ++ [y])).set before.length y = (before ++ y :: after) ++ [y] := by
    simp
  rw [swapRemove, last]
  simp only [placed, dropLast_concat]

lemma swapRemove_last (before : List α) (x : α) : swapRemove (before ++ [x]) before.length = before := by
  simp [swapRemove]

section

variable (l : List α) (i : Nat) (bound : i < l.length)

include l i bound

lemma swapRemove_split : ∃ rest, swapRemove l i = l.take i ++ rest ∧ rest.Perm (l.drop (i + 1)) := by
  obtain ⟨before, x, rest, shape, length⟩ : ∃ before x rest, l = before ++ x :: rest ∧
      before.length = i := by
    refine ⟨l.take i, l[i], l.drop (i + 1), ?_, ?_⟩
    · rw [getElem_cons_drop, take_append_drop]
    · exact length_take_of_le (Nat.le_of_lt bound)
  subst length shape
  have front : (before ++ x :: rest).take before.length = before := by simp
  have back : (before ++ x :: rest).drop (before.length + 1) = rest := by simp
  rw [front, back]
  rcases eq_nil_or_concat rest with rfl | ⟨after, y, rfl⟩
  · exact ⟨[], by rw [swapRemove_last, append_nil], List.Perm.refl _⟩
  · rw [concat_eq_append, swapRemove_middle]
    exact ⟨y :: after, rfl, (perm_append_singleton y after).symm⟩

lemma swapRemove_perm : l.Perm (l[i] :: swapRemove l i) := by
  obtain ⟨rest, shape, p⟩ := swapRemove_split l i bound
  have parts : l = l.take i ++ l[i] :: l.drop (i + 1) := by rw [getElem_cons_drop, take_append_drop]
  rw [shape]
  conv_lhs => rw [parts]
  exact List.perm_middle.trans (List.Perm.cons _ (p.symm.append_left _))

lemma length_swapRemove : (swapRemove l i).length + 1 = l.length := by
  have same := (swapRemove_perm l i bound).length_eq
  simpa using same.symm

end

variable {κ : Type*} [DecidableEq κ] (key : α → κ)

def lookup (l : List α) (k : κ) : Option α := l.find? (fun a => decide (key a = k))

lemma lookup_eq_none (l : List α) (k : κ) : lookup key l k = none ↔ k ∉ l.map key := by
  simp [lookup, find?_eq_none]

lemma lookup_eq_some (l : List α) (nodup : (l.map key).Nodup) (k : κ) (a : α) :
    lookup key l k = some a ↔ a ∈ l ∧ key a = k := by
  constructor
  · intro found
    exact ⟨mem_of_find?_eq_some found, by simpa using find?_some found⟩
  · rintro ⟨mem, rfl⟩
    cases found : lookup key l (key a) with
    | none => exact absurd (mem_map_of_mem mem) ((lookup_eq_none key l _).mp found)
    | some b =>
      have stored := mem_of_find?_eq_some found
      have same : key b = key a := by simpa using find?_some found
      rw [inj_on_of_nodup_map nodup stored mem same]

variable {l : List α} {k : κ} {i : Nat}

lemma lookup_congr (nodup : (l.map key).Nodup) (p : l.Perm l') (k : κ) : lookup key l' k = lookup key l k := by
  have distinct' := (p.map key).nodup_iff.mp nodup
  apply Option.ext
  intro a
  rw [lookup_eq_some key l' distinct', lookup_eq_some key l nodup, p.mem_iff]

lemma findIdx_eq_none (l : List α) (k : κ) :
    l.findIdx? (fun a => decide (key a = k)) = none ↔ lookup key l k = none := by
  simp [lookup]

lemma findIdx_eq_some (found : l.findIdx? (fun a => decide (key a = k)) = some i) :
    ∃ bound : i < l.length, lookup key l k = some l[i] ∧ key l[i] = k := by
  rw [findIdx?_eq_some_iff_getElem] at found
  obtain ⟨bound, matched, first⟩ := found
  refine ⟨bound, ?_, by simpa using matched⟩
  rw [lookup, find?_eq_some_iff_getElem]
  exact ⟨matched, i, bound, rfl, fun j earlier => by simpa using first j earlier⟩

lemma mem_modify (mem : a ∈ l.modify i f) : a ∈ l ∨ ∃ b ∈ l, a = f b := by
  induction l generalizing i with
  | nil => simp at mem
  | cons b rest ih =>
    cases i with
    | zero =>
      rcases List.mem_cons.mp (by simpa using mem) with rfl | later
      · exact .inr ⟨b, mem_cons_self, rfl⟩
      · exact .inl (mem_cons_of_mem _ later)
    | succ i =>
      rcases List.mem_cons.mp (by simpa using mem) with rfl | later
      · exact .inl mem_cons_self
      · rcases ih later with old | ⟨c, stored, same⟩
        · exact .inl (mem_cons_of_mem _ old)
        · exact .inr ⟨c, mem_cons_of_mem _ stored, same⟩

omit [DecidableEq κ] in
lemma map_key_modify (l : List α) (i : Nat) (f : α → α) (keeps : ∀ a, key (f a) = key a) :
    (l.modify i f).map key = l.map key := by
  induction l generalizing i with
  | nil => simp
  | cons a rest ih => cases i <;> simp [keeps, ih]

lemma lookup_modify (f : α → α) (keeps : ∀ a, key (f a) = key a)
    (found : l.findIdx? (fun a => decide (key a = k)) = some i) (other : κ) : lookup key (l.modify i f) other =
      if other = k then (lookup key l k).map f else lookup key l other := by
  induction l generalizing i with
  | nil => simp at found
  | cons a rest ih =>
    rw [findIdx?_cons] at found
    by_cases first : key a = k
    · simp only [first, decide_true, ↓reduceIte, Option.some.injEq] at found
      subst found
      by_cases same : other = k
      · simp [lookup, first, same, keeps]
      · have apart : k ≠ other := fun h => same h.symm
        simp [lookup, first, same, keeps, apart]
    · have skip : decide (key a = k) = false := by simpa using first
      simp only [skip, Bool.false_eq_true, ↓reduceIte, Option.map_eq_some_iff] at found
      obtain ⟨j, located, rfl⟩ := found
      have tail := ih located
      by_cases here : key a = other
      · have apart : other ≠ k := fun h => first (here.trans h)
        simp [lookup, here, apart]
      · have skipOther : decide (key a = other) = false := by simpa using here
        simpa [lookup, find?_cons, skip, skipOther] using tail

omit [DecidableEq κ] in
lemma map_key_swapRemove (l : List α) (nodup : (l.map key).Nodup) (i : Nat)
    (bound : i < l.length) : ((swapRemove l i).map key).Nodup := by
  have p := (swapRemove_perm l i bound).map key
  rw [p.nodup_iff, map_cons, nodup_cons] at nodup
  exact nodup.2

lemma lookup_swapRemove (nodup : (l.map key).Nodup) (found : l.findIdx? (fun a => decide (key a = k)) = some i)
    (other : κ) : lookup key (swapRemove l i) other = if other = k then none else lookup key l other := by
  obtain ⟨bound, _, here⟩ := findIdx_eq_some key found
  have p := swapRemove_perm l i bound
  have moved := lookup_congr key nodup p other
  have tail := (p.map key).nodup_iff.mp nodup
  rw [map_cons, nodup_cons, here] at tail
  by_cases same : other = k
  · rw [if_pos same, same, lookup_eq_none]
    exact tail.1
  · have apart : ¬ k = other := fun h => same h.symm
    rw [if_neg same, ← moved]
    simp [lookup, here, apart]

lemma lookup_append_fresh (l : List α) (a : α) (fresh : key a ∉ l.map key) (other : κ) :
    lookup key (l ++ [a]) other = if other = key a then some a else lookup key l other := by
  unfold lookup
  rw [find?_append]
  by_cases same : other = key a
  · have missing := (lookup_eq_none key l (key a)).mpr fresh
    unfold lookup at missing
    simp [same, missing]
  · have apart : ¬ key a = other := fun h => same h.symm
    cases l.find? (fun b => decide (key b = other)) <;> simp [same, apart]

omit [DecidableEq κ] in
lemma map_key_append_fresh (l : List α) (nodup : (l.map key).Nodup) (a : α)
    (fresh : key a ∉ l.map key) : ((l ++ [a]).map key).Nodup := by
  rw [map_append, nodup_append]
  refine ⟨nodup, by simp, ?_⟩
  rintro x mem y single rfl
  have last : x = key a := by simpa using single
  exact fresh (last ▸ mem)

omit [DecidableEq κ] in
lemma map_key_filterMap (l : List α) (f : α → Option α) (keeps : ∀ a b, f a = some b → key b = key a) :
    ((l.filterMap f).map key).Sublist (l.map key) := by
  induction l with
  | nil => simp
  | cons a rest ih =>
    cases kept : f a with
    | none => simpa [filterMap_cons, kept] using ih.cons (key a)
    | some b =>
      have same := keeps a b kept
      simpa [filterMap_cons, kept, same] using ih

lemma lookup_filterMap (l : List α) (nodup : (l.map key).Nodup) (f : α → Option α)
    (keeps : ∀ a b, f a = some b → key b = key a) (k : κ) : lookup key (l.filterMap f) k = (lookup key l k).bind f := by
  have distinct' := nodup.sublist (map_key_filterMap key l f keeps)
  apply Option.ext
  intro b
  rw [lookup_eq_some key _ distinct', mem_filterMap, Option.bind_eq_some_iff]
  constructor
  · rintro ⟨⟨a, mem, kept⟩, same⟩
    refine ⟨a, (lookup_eq_some key l nodup k a).mpr ⟨mem, ?_⟩, kept⟩
    rw [← keeps a b kept, same]
  · rintro ⟨a, located, kept⟩
    obtain ⟨mem, same⟩ := (lookup_eq_some key l nodup k a).mp located
    exact ⟨⟨a, mem, kept⟩, (keeps a b kept).trans same⟩

end LibOp.Foundation

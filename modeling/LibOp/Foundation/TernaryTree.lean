import Mathlib

namespace LibOp.Foundation

open List

/-- Siblings are ordered by symbol; the subtree of a node continues the keys with its symbol. -/
inductive TernaryTree (α V : Type*) where
  | nil
  | node (c : α) (val : Option V) (lo eq hi : TernaryTree α V)

namespace TernaryTree

variable {α V : Type*}

def val : TernaryTree α V → Option V
  | nil => none
  | node _ v _ _ _ => v

def path (v : V) : List α → TernaryTree α V
  | [] => nil
  | a :: rest => node a (if rest = [] then some v else none) nil (path v rest) nil

def prune : TernaryTree α V → TernaryTree α V
  | node _ none nil nil nil => nil
  | t => t

def heads : TernaryTree α V → List α
  | nil => []
  | node c _ lo _ hi => lo.heads ++ c :: hi.heads

def Symbols (P : α → Prop) : TernaryTree α V → Prop
  | nil => True
  | node c _ lo eq hi => P c ∧ lo.Symbols P ∧ eq.Symbols P ∧ hi.Symbols P

def extend (c : α) (val : Option V) (l : List (List α × V)) : List (List α × V) :=
  (val.map fun v => ([c], v)).toList ++ l.map fun e => (c :: e.1, e.2)

def entries : TernaryTree α V → List (List α × V)
  | nil => []
  | node c val lo eq hi => lo.entries ++ (extend c val eq.entries ++ hi.entries)

variable {t : TernaryTree α V}

lemma mem_heads_prune (mem : a ∈ t.prune.heads) : a ∈ t.heads := by
  unfold prune at mem
  split at mem
  · cases mem
  · exact mem

variable {key : List α}

lemma Symbols.path (v : V) (all : ∀ a ∈ key, P a) : (path v key).Symbols P := by
  induction key with
  | nil => trivial
  | cons a rest ih => exact ⟨all a mem_cons_self, trivial, ih (forall_mem_cons.mp all).2, trivial⟩

lemma Symbols.prune (symbols : t.Symbols P) : t.prune.Symbols P := by
  unfold TernaryTree.prune
  split
  · trivial
  · exact symbols

lemma mem_extend {val : Option V} :
    (key, v) ∈ extend c val l ↔ (key = [c] ∧ val = some v) ∨ ∃ rest, key = c :: rest ∧ (rest, v) ∈ l := by
  simp only [extend, mem_append, Option.mem_toList, Option.map_eq_some_iff, mem_map, Prod.mk.injEq, Prod.exists]
  grind

lemma head_of_mem_entries (mem : e ∈ t.entries) : ∃ a rest, e.1 = a :: rest ∧ a ∈ t.heads := by
  induction t with
  | nil => cases mem
  | node c val lo eq hi left middle right =>
    rcases List.mem_append.mp mem with inLo | later
    · obtain ⟨a, rest, same, head⟩ := left inLo
      exact ⟨a, rest, same, mem_append_left _ head⟩
    · rcases List.mem_append.mp later with own | inHi
      · rcases mem_extend.mp own with ⟨same, -⟩ | ⟨rest, same, -⟩
        · exact ⟨c, [], same, mem_append_right _ mem_cons_self⟩
        · exact ⟨c, rest, same, mem_append_right _ mem_cons_self⟩
      · obtain ⟨a, rest, same, head⟩ := right inHi
        exact ⟨a, rest, same, mem_append_right _ (mem_cons_of_mem c head)⟩

lemma length_extend (c : α) (val : Option V) (l : List (List α × V)) :
    (extend c val l).length = (if val = none then 0 else 1) + l.length := by
  rw [extend, length_append, length_map]
  cases val <;> rfl

lemma length_entries_path (v : V) (key : List α) (ne : key ≠ []) : (path v key).entries.length = 1 := by
  induction key with
  | nil => exact absurd rfl ne
  | cons a rest ih =>
    rw [path, entries, length_append, length_append, length_extend]
    cases rest with
    | nil => rfl
    | cons b rest => simpa [entries] using ih (cons_ne_nil b rest)

lemma entries_prune (t : TernaryTree α V) : t.prune.entries = t.entries := by
  unfold prune
  split
  · rfl
  · rfl

section Prefixes

variable [DecidableEq α] {rest : List α}

lemma filter_eq_nil (absent : a ∉ t.heads) : t.entries.filter (fun e => a :: rest <+: e.1) = [] := by
  rw [filter_eq_nil_iff]
  intro e mem starts
  obtain ⟨b, others, same, head⟩ := head_of_mem_entries mem
  rw [same, decide_eq_true_eq, cons_prefix_cons] at starts
  exact absent (starts.1 ▸ head)

lemma filter_extend (c : α) (val : Option V) (l : List (List α × V)) (rest : List α) :
    (extend c val l).filter (fun e => c :: rest <+: e.1) =
      extend c (if rest = [] then val else none) (l.filter fun e => rest <+: e.1) := by
  have tails : (l.map fun e => (c :: e.1, e.2)).filter (fun e => c :: rest <+: e.1) =
      (l.filter fun e => rest <+: e.1).map fun e => (c :: e.1, e.2) := by
    rw [filter_map]
    simp [Function.comp_def, cons_prefix_cons]
  rw [extend, extend, filter_append, tails]
  congr 1
  cases val with
  | none => simp
  | some v => cases rest <;> simp

lemma filter_extend_of_ne (apart : a ≠ c) (val : Option V) (l : List (List α × V)) (rest : List α) :
    (extend c val l).filter (fun e => a :: rest <+: e.1) = [] := by
  rw [filter_eq_nil_iff]
  intro e mem starts
  rw [decide_eq_true_eq] at starts
  rcases mem_extend.mp mem with ⟨same, -⟩ | ⟨others, same, -⟩
  all_goals rw [same, cons_prefix_cons] at starts
  all_goals exact apart starts.1

end Prefixes

section Operations

variable [LT α] [DecidableLT α]

def find : TernaryTree α V → List α → Option V
  | nil, _ => none
  | node _ _ _ _ _, [] => none
  | node c val lo eq hi, a :: rest =>
    if a < c then lo.find (a :: rest)
    else if c < a then hi.find (a :: rest)
    else if rest = [] then val
    else eq.find rest

def insert (v : V) : TernaryTree α V → List α → TernaryTree α V
  | nil, key => path v key
  | node c val lo eq hi, [] => node c val lo eq hi
  | node c val lo eq hi, a :: rest =>
    if a < c then node c val (lo.insert v (a :: rest)) eq hi
    else if c < a then node c val lo eq (hi.insert v (a :: rest))
    else if rest = [] then node c (some v) lo eq hi
    else node c val lo (eq.insert v rest) hi

def erase : TernaryTree α V → List α → TernaryTree α V
  | nil, _ => nil
  | node c val lo eq hi, [] => node c val lo eq hi
  | node c val lo eq hi, a :: rest =>
    prune <|
      if a < c then node c val (lo.erase (a :: rest)) eq hi
      else if c < a then node c val lo eq (hi.erase (a :: rest))
      else if rest = [] then node c none lo eq hi
      else node c val lo (eq.erase rest) hi

def entriesFrom : TernaryTree α V → List α → List (List α × V)
  | nil, _ => []
  | node c val lo eq hi, [] => (node c val lo eq hi).entries
  | node c val lo eq hi, a :: rest =>
    if a < c then lo.entriesFrom (a :: rest)
    else if c < a then hi.entriesFrom (a :: rest)
    else extend c (if rest = [] then val else none) (eq.entriesFrom rest)

@[simp] lemma find_empty (t : TernaryTree α V) : t.find [] = none := by
  cases t <;> rfl

@[simp] lemma entriesFrom_empty (t : TernaryTree α V) : t.entriesFrom [] = t.entries := by
  cases t <;> rfl

lemma find_prune (t : TernaryTree α V) (key : List α) : t.prune.find key = t.find key := by
  unfold prune
  split
  · cases key with
    | nil => rfl
    | cons a rest => grind [find]
  · rfl

lemma mem_heads_insert (mem : b ∈ (t.insert v (a :: rest)).heads) : b ∈ t.heads ∨ b = a := by
  induction t with
  | nil => simpa [insert, path, heads] using mem
  | node c val lo eq hi left middle right =>
    rw [insert] at mem
    split_ifs at mem with less greater last
    all_goals grind [heads]

lemma mem_heads_erase (mem : b ∈ (t.erase key).heads) : b ∈ t.heads := by
  induction t generalizing key with
  | nil => exact mem
  | node c val lo eq hi left middle right =>
    cases key with
    | nil => exact mem
    | cons a rest =>
      have kept := mem_heads_prune mem
      split_ifs at kept with less greater last
      all_goals grind [heads]

lemma Symbols.insert (symbols : t.Symbols P) (v : V) (all : ∀ a ∈ key, P a) : (t.insert v key).Symbols P := by
  induction t generalizing key with
  | nil => exact Symbols.path v all
  | node c val lo eq hi left middle right =>
    obtain ⟨own, inLo, inEq, inHi⟩ := symbols
    cases key with
    | nil => exact ⟨own, inLo, inEq, inHi⟩
    | cons a rest =>
      rw [TernaryTree.insert]
      split_ifs with less greater last
      · exact ⟨own, left inLo all, inEq, inHi⟩
      · exact ⟨own, inLo, inEq, right inHi all⟩
      · exact ⟨own, inLo, inEq, inHi⟩
      · exact ⟨own, inLo, middle inEq (forall_mem_cons.mp all).2, inHi⟩

lemma Symbols.erase (symbols : t.Symbols P) (key : List α) : (t.erase key).Symbols P := by
  induction t generalizing key with
  | nil => trivial
  | node c val lo eq hi left middle right =>
    obtain ⟨own, inLo, inEq, inHi⟩ := symbols
    cases key with
    | nil => exact ⟨own, inLo, inEq, inHi⟩
    | cons a rest =>
      apply Symbols.prune
      split_ifs with less greater last
      · exact ⟨own, left inLo _, inEq, inHi⟩
      · exact ⟨own, inLo, inEq, right inHi _⟩
      · exact ⟨own, inLo, inEq, inHi⟩
      · exact ⟨own, inLo, middle inEq _, inHi⟩

lemma length_entries_insert (v : V) (t : TernaryTree α V) (key : List α) (ne : key ≠ []) :
    (t.insert v key).entries.length = t.entries.length + if t.find key = none then 1 else 0 := by
  induction t generalizing key with
  | nil => exact length_entries_path v key ne
  | node c val lo eq hi left middle right =>
    cases key with
    | nil => exact absurd rfl ne
    | cons a rest =>
      rw [insert, find]
      split_ifs with less greater last
      all_goals simp only [entries, length_append, length_extend]
      all_goals grind

lemma length_entries_erase (t : TernaryTree α V) (key : List α) :
    (t.erase key).entries.length + (if t.find key = none then 0 else 1) = t.entries.length := by
  induction t generalizing key with
  | nil => rfl
  | node c val lo eq hi left middle right =>
    cases key with
    | nil => rfl
    | cons a rest =>
      rw [erase, entries_prune, find]
      split_ifs with less greater last
      all_goals simp only [entries, length_append, length_extend]
      all_goals grind

end Operations

def Ordered [LT α] : TernaryTree α V → Prop
  | nil => True
  | node c _ lo eq hi => (∀ a ∈ lo.heads, a < c) ∧ (∀ a ∈ hi.heads, c < a) ∧ lo.Ordered ∧ eq.Ordered ∧ hi.Ordered

variable [LT α] [DecidableLT α]

omit [DecidableLT α] in
lemma Ordered.path (v : V) (key : List α) : (path v key).Ordered := by
  induction key with
  | nil => trivial
  | cons a rest ih => exact ⟨by simp [heads], by simp [heads], trivial, ih, trivial⟩

lemma Ordered.insert (ordered : t.Ordered) (v : V) (key : List α) : (t.insert v key).Ordered := by
  induction t generalizing key with
  | nil => exact Ordered.path v key
  | node c val lo eq hi left middle right =>
    obtain ⟨below, above, orderedLo, orderedEq, orderedHi⟩ := ordered
    cases key with
    | nil => exact ⟨below, above, orderedLo, orderedEq, orderedHi⟩
    | cons a rest =>
      rw [TernaryTree.insert]
      split_ifs with less greater last
      · refine ⟨fun b mem => ?_, above, left orderedLo _, orderedEq, orderedHi⟩
        rcases mem_heads_insert mem with old | rfl
        · exact below b old
        · exact less
      · refine ⟨below, fun b mem => ?_, orderedLo, orderedEq, right orderedHi _⟩
        rcases mem_heads_insert mem with old | rfl
        · exact above b old
        · exact greater
      · exact ⟨below, above, orderedLo, orderedEq, orderedHi⟩
      · exact ⟨below, above, orderedLo, middle orderedEq _, orderedHi⟩

omit [DecidableLT α] in
lemma Ordered.prune (ordered : t.Ordered) : t.prune.Ordered := by
  unfold TernaryTree.prune
  split
  · trivial
  · exact ordered

lemma Ordered.erase (ordered : t.Ordered) (key : List α) : (t.erase key).Ordered := by
  induction t generalizing key with
  | nil => trivial
  | node c val lo eq hi left middle right =>
    obtain ⟨below, above, orderedLo, orderedEq, orderedHi⟩ := ordered
    cases key with
    | nil => exact ⟨below, above, orderedLo, orderedEq, orderedHi⟩
    | cons a rest =>
      apply Ordered.prune
      split_ifs with less greater last
      · exact ⟨fun b mem => below b (mem_heads_erase mem), above, left orderedLo _, orderedEq, orderedHi⟩
      · exact ⟨below, fun b mem => above b (mem_heads_erase mem), orderedLo, orderedEq, right orderedHi _⟩
      · exact ⟨below, above, orderedLo, orderedEq, orderedHi⟩
      · exact ⟨below, above, orderedLo, middle orderedEq _, orderedHi⟩

variable [LE α] [DecidableEq α] [Std.IsLinearOrder α] [Std.LawfulOrderLT α]

lemma find_path (v : V) (key other : List α) (ne : key ≠ []) :
    (path v key).find other = if other = key then some v else none := by
  induction key generalizing other with
  | nil => exact absurd rfl ne
  | cons a rest ih =>
    cases other with
    | nil => rfl
    | cons b others =>
      rw [path]
      rcases Std.lt_trichotomy b a with less | rfl | greater
      · grind [find]
      · cases rest with
        | nil => grind [find, path]
        | cons c rest => grind [find]
      · grind [find]

lemma find_insert (v : V) (t : TernaryTree α V) (key other : List α) (ne : key ≠ []) :
    (t.insert v key).find other = if other = key then some v else t.find other := by
  induction t generalizing key other with
  | nil => exact find_path v key other ne
  | node c val lo eq hi left middle right =>
    cases key with
    | nil => exact absurd rfl ne
    | cons a rest =>
      cases other with
      | nil => simp
      | cons b others =>
        rw [insert]
        split_ifs with less greater last
        all_goals grind [find]

lemma find_erase (t : TernaryTree α V) (key other : List α) (ne : key ≠ []) :
    (t.erase key).find other = if other = key then none else t.find other := by
  induction t generalizing key other with
  | nil => simp [erase, find]
  | node c val lo eq hi left middle right =>
    cases key with
    | nil => exact absurd rfl ne
    | cons a rest =>
      cases other with
      | nil => simp
      | cons b others =>
        rw [erase, find_prune]
        split_ifs with less greater last
        all_goals grind [find]

omit [DecidableEq α] in
lemma mem_entries (ordered : t.Ordered) : (key, v) ∈ t.entries ↔ t.find key = some v := by
  induction t generalizing key with
  | nil => exact iff_of_false not_mem_nil (Option.some_ne_none v).symm
  | node c val lo eq hi left middle right =>
    obtain ⟨below, above, orderedLo, orderedEq, orderedHi⟩ := ordered
    have notNil : ([], v) ∉ eq.entries := by
      intro mem
      obtain ⟨a, rest, same, -⟩ := head_of_mem_entries mem
      cases same
    rw [entries, mem_append, mem_append, mem_extend, left orderedLo, right orderedHi]
    cases key with
    | nil => simp
    | cons a rest =>
      have inLo : lo.find (a :: rest) = some v → a < c := by
        intro found
        obtain ⟨b, others, same, head⟩ := head_of_mem_entries ((left orderedLo).mpr found)
        cases same
        exact below a head
      have inHi : hi.find (a :: rest) = some v → c < a := by
        intro found
        obtain ⟨b, others, same, head⟩ := head_of_mem_entries ((right orderedHi).mpr found)
        cases same
        exact above a head
      rw [find]
      split_ifs with less greater last
      · grind
      · grind
      · grind
      · grind

omit [DecidableEq α] [DecidableLT α] in
lemma pairwise_entries (ordered : t.Ordered) : t.entries.Pairwise fun e f => e.1 < f.1 := by
  induction t with
  | nil => exact List.Pairwise.nil
  | node c val lo eq hi left middle right =>
    obtain ⟨below, above, orderedLo, orderedEq, orderedHi⟩ := ordered
    have heads : ∀ e ∈ extend c val eq.entries, ∃ rest, e.1 = c :: rest := by
      intro e mem
      rcases mem_extend.mp mem with ⟨same, -⟩ | ⟨rest, same, -⟩
      · exact ⟨[], same⟩
      · exact ⟨rest, same⟩
    have own : (extend c val eq.entries).Pairwise fun e f => e.1 < f.1 := by
      rw [extend, pairwise_append, pairwise_map]
      refine ⟨?_, ?_, ?_⟩
      · cases val <;> simp
      · apply (middle orderedEq).imp
        intro e f less
        exact List.cons_lt_cons_iff.mpr (.inr ⟨rfl, less⟩)
      · intro e first f later
        obtain ⟨v, -, rfl⟩ := Option.map_eq_some_iff.mp (Option.mem_toList.mp first)
        obtain ⟨g, mem, rfl⟩ := List.mem_map.mp later
        obtain ⟨a, rest, same, -⟩ := head_of_mem_entries mem
        rw [same]
        exact List.cons_lt_cons_iff.mpr (.inr ⟨rfl, nil_lt_cons a rest⟩)
    rw [entries, pairwise_append, pairwise_append]
    refine ⟨left orderedLo, ⟨own, right orderedHi, ?_⟩, ?_⟩
    · intro e here f later
      obtain ⟨rest, first⟩ := heads e here
      obtain ⟨a, others, second, head⟩ := head_of_mem_entries later
      rw [first, second]
      exact List.cons_lt_cons_iff.mpr (.inl (above a head))
    · intro e here f later
      obtain ⟨a, others, first, head⟩ := head_of_mem_entries here
      rw [first]
      rcases List.mem_append.mp later with middle | last
      · obtain ⟨rest, second⟩ := heads f middle
        rw [second]
        exact List.cons_lt_cons_iff.mpr (.inl (below a head))
      · obtain ⟨b, rest, second, greater⟩ := head_of_mem_entries last
        rw [second]
        exact List.cons_lt_cons_iff.mpr (.inl (Std.lt_trans (below a head) (above b greater)))

lemma entriesFrom_eq_filter (ordered : t.Ordered) (start : List α) :
    t.entriesFrom start = t.entries.filter fun e => start <+: e.1 := by
  induction t generalizing start with
  | nil => rfl
  | node c val lo eq hi left middle right =>
    obtain ⟨below, above, orderedLo, orderedEq, orderedHi⟩ := ordered
    cases start with
    | nil => simp [entriesFrom]
    | cons a rest =>
      have notLo : ¬a < c → a ∉ lo.heads := fun ge mem => ge (below a mem)
      have notHi : ¬c < a → a ∉ hi.heads := fun le mem => le (above a mem)
      rw [entriesFrom, entries, filter_append, filter_append]
      rcases Std.lt_trichotomy a c with less | rfl | greater
      · rw [if_pos less, left orderedLo, filter_extend_of_ne (Std.ne_of_lt less),
          filter_eq_nil (notHi (Std.not_gt_of_lt less))]
        simp
      · rw [if_neg Std.lt_irrefl, if_neg Std.lt_irrefl, filter_eq_nil (notLo Std.lt_irrefl),
          filter_eq_nil (notHi Std.lt_irrefl), filter_extend, middle orderedEq]
        simp
      · rw [if_neg (Std.not_gt_of_lt greater), if_pos greater, right orderedHi,
          filter_extend_of_ne (Std.ne_of_lt greater).symm, filter_eq_nil (notLo (Std.not_gt_of_lt greater))]
        simp

end TernaryTree

end LibOp.Foundation

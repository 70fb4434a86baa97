import LibOp.Lru.Cache

namespace LibOp.Lru

open List

variable {K V : Type} [Inhabited V] [DecidableEq V]

/-- The entries, the most recently used first, and what was given back. -/
structure RefLru (K V : Type) where
  entries : List (LruEntry K V)
  dropped : List (LruEntry K V)

def RefLru.find (eqFn : K → K → Bool) (t : RefLru K V) (key : K) : Option (LruEntry K V) :=
  t.entries.find? fun e => eqFn e.key key

def RefLru.others (eqFn : K → K → Bool) (t : RefLru K V) (key : K) : List (LruEntry K V) :=
  t.entries.filter fun e => !eqFn e.key key

def RefLru.makeRoom (capacity : Nat) (t : RefLru K V) : RefLru K V :=
  if t.entries.length < capacity then t
  else { entries := t.entries.dropLast, dropped := t.dropped ++ t.entries.getLast?.toList }

def refStep (eqFn : K → K → Bool) (capacity : Nat) (t : RefLru K V) : LruOp K V → RefLru K V × LruReply V
  | .set key val =>
    match t.find eqFn key with
    | some e => ({ entries := { key := key, val := val } :: t.others eqFn key,
                   dropped := if e.val = val then t.dropped else t.dropped ++ [e] }, .set)
    | none => ({ t.makeRoom capacity with
                 entries := { key := key, val := val } :: (t.makeRoom capacity).entries }, .set)
  | .get key =>
    match t.find eqFn key with
    | some e => ({ t with entries := e :: t.others eqFn key }, .get e.val)
    | none => (t, .get default)
  | .delete key =>
    match t.find eqFn key with
    | some e => ({ entries := t.others eqFn key, dropped := t.dropped ++ [e] }, .delete true)
    | none => (t, .delete false)
  | .flush => ({ entries := [], dropped := t.dropped ++ t.entries.reverse }, .flush)

structure Held (K V : Type) extends LruEntry K V where
  addr : Nat
  slotKey : K

/-- The reference cache with the addresses and slot keys of the source. -/
structure Layout (K V : Type) where
  entries : List (Held K V)
  dropped : List (LruEntry K V)
  unused : Nat

namespace Layout

def empty : Layout K V := { entries := [], dropped := [], unused := 0 }

def find (eqFn : K → K → Bool) (t : Layout K V) (key : K) : Option (Held K V) :=
  t.entries.find? fun h => eqFn h.key key

def others (eqFn : K → K → Bool) (t : Layout K V) (key : K) : List (Held K V) :=
  t.entries.filter fun h => !eqFn h.key key

def update (eqFn : K → K → Bool) (t : Layout K V) (h : Held K V) (key : K) (val : V) : Layout K V :=
  { t with entries := { h with key := key, val := val } :: t.others eqFn key,
           dropped := if h.val = val then t.dropped else t.dropped ++ [h.toLruEntry] }

def insert (t : Layout K V) (key : K) (val : V) : Layout K V :=
  { t with entries := { key := key, val := val, addr := t.unused, slotKey := key } :: t.entries,
           unused := t.unused + 1 }

def evictLast (t : Layout K V) : Layout K V :=
  { t with entries := t.entries.dropLast, dropped := t.dropped ++ (t.entries.getLast?.map Held.toLruEntry).toList }

def makeRoom (capacity : Nat) (t : Layout K V) : Layout K V :=
  if t.entries.length < capacity then t else t.evictLast

def flush (t : Layout K V) : Layout K V :=
  { t with entries := [], dropped := t.dropped ++ (t.entries.map Held.toLruEntry).reverse }

def step (eqFn : K → K → Bool) (capacity : Nat) (t : Layout K V) : LruOp K V → Layout K V × LruReply V
  | .set key val =>
    match t.find eqFn key with
    | some h => (t.update eqFn h key val, .set)
    | none => ((t.makeRoom capacity).insert key val, .set)
  | .get key =>
    match t.find eqFn key with
    | some h => ({ t with entries := h :: t.others eqFn key }, .get h.val)
    | none => (t, .get default)
  | .delete key =>
    match t.find eqFn key with
    | some h => ({ t with entries := t.others eqFn key, dropped := t.dropped ++ [h.toLruEntry] }, .delete true)
    | none => (t, .delete false)
  | .flush => (t.flush, .flush)

def forget (t : Layout K V) : RefLru K V := { entries := t.entries.map Held.toLruEntry, dropped := t.dropped }

omit [Inhabited V] [DecidableEq V]

variable (eqFn : K → K → Bool) (t : Layout K V) (key : K)

variable {eqFn t key} in
lemma mem_of_find (found : t.find eqFn key = some h) : h ∈ t.entries :=
  mem_of_find?_eq_some found

variable {eqFn t key} in
lemma key_of_find (found : t.find eqFn key = some h) : eqFn h.key key = true :=
  find?_some (p := fun h : Held K V => eqFn h.key key) found

lemma evictLast_append {t : Layout K V} {front : List (Held K V)} {h : Held K V} (split : t.entries = front ++ [h]) :
    t.evictLast = { t with entries := front, dropped := t.dropped ++ [h.toLruEntry] } := by
  simp [evictLast, split]

lemma evictLast_of_nil {t : Layout K V} (empty : t.entries = []) : t.evictLast = t := by
  cases t
  simp_all [evictLast]

lemma flush_evictLast : t.evictLast.flush = t.flush := by
  rcases eq_nil_or_concat t.entries with empty | ⟨front, h, split⟩
  · simp [flush, evictLast, empty]
  · rw [concat_eq_append] at split
    simp [evictLast_append split, flush, split]

lemma makeRoom_sublist (capacity : Nat) : List.Sublist (t.makeRoom capacity).entries t.entries := by
  rw [makeRoom]
  split
  · exact List.Sublist.refl t.entries
  · exact dropLast_sublist t.entries

lemma makeRoom_length {capacity : Nat} (pos : 0 < capacity) (bounded : t.entries.length ≤ capacity) :
    (t.makeRoom capacity).entries.length < capacity := by
  rw [makeRoom]
  split
  · assumption
  · rw [evictLast, length_dropLast]
    omega

variable {eqFn t key} in
lemma find_makeRoom (capacity : Nat) (absent : t.find eqFn key = none) :
    (t.makeRoom capacity).find eqFn key = none := by
  rw [find, find?_eq_none] at absent ⊢
  exact fun h mem => absent h ((t.makeRoom_sublist capacity).subset mem)

lemma find_forget : t.forget.find eqFn key = (t.find eqFn key).map Held.toLruEntry := by
  rw [RefLru.find, forget, find?_map]
  rfl

lemma others_forget : t.forget.others eqFn key = (t.others eqFn key).map Held.toLruEntry := by
  rw [RefLru.others, forget, filter_map]
  rfl

lemma makeRoom_forget (capacity : Nat) : t.forget.makeRoom capacity = (t.makeRoom capacity).forget := by
  simp only [RefLru.makeRoom, makeRoom]
  rw [show t.forget.entries.length = t.entries.length from length_map _]
  split
  · rfl
  · simp [forget, evictLast, getLast?_map]

end Layout

variable (eqFn : K → K → Bool) (capacity : Nat)

lemma refStep_forget (t : Layout K V) (op : LruOp K V) :
    refStep eqFn capacity t.forget op = ((t.step eqFn capacity op).1.forget, (t.step eqFn capacity op).2) := by
  cases op with
  | set key val =>
    simp only [refStep, Layout.step, Layout.find_forget, Layout.makeRoom_forget, Layout.others_forget]
    cases t.find eqFn key <;> rfl
  | get key | delete key =>
    simp only [refStep, Layout.step, Layout.find_forget, Layout.others_forget]
    cases t.find eqFn key <;> rfl
  | flush => rfl

end LibOp.Lru

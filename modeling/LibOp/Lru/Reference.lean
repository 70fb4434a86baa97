import LibOp.Lru.Refinement

namespace LibOp.Lru

open Foundation HashTable List Layout RefLru

variable {K V : Type} {capacity : Nat} {evictCb : Bool} {lru : OpLru K V}

section

variable [Inhabited K] [Inhabited V] {str : K → List UInt8}

omit [Inhabited K] in
lemma htabEqStr_iff : htabEqStr str a b = true ↔ str a = str b := decide_eq_true_iff

omit [Inhabited K] in
lemma str_laws (str : K → List UInt8) : KeyLaws (fun key => htabHashStr (str key)) (htabEqStr str) where
  refl _ := htabEqStr_iff.mpr rfl
  symm _ _ same := htabEqStr_iff.mpr (htabEqStr_iff.mp same).symm
  trans _ _ _ first second := htabEqStr_iff.mpr ((htabEqStr_iff.mp first).trans (htabEqStr_iff.mp second))
  hash _ _ same := congrArg htabHashStr (htabEqStr_iff.mp same)

lemma htabCreateStr_of_le (bound : initialCap ≤ 2 ^ 63) {table : Option (Htab K (Option Nat))}
    (created : htabCreateStr str initialCap = some table) :
    initialCap < 2 ^ 61 ∧ table = some (htabCreate (fun key => htabHashStr (str key)) (htabEqStr str) initialCap) := by
  by_cases half : 2 ^ 62 < initialCap
  · simp [htabCreateStr, nextPow2_half half bound] at created
  · obtain ⟨k, -, -, pow, above⟩ := nextPow2_spec (Nat.le_of_not_lt half)
    have pos := Nat.two_pow_pos k
    by_cases large : 2 ^ 64 ≤ 2 ^ k * 24
    · rw [htabCreateStr, pow, if_pos large] at created
      cases created
    · rw [htabCreateStr, pow, if_neg large, if_neg (Nat.ne_of_gt pos)] at created
      cases created
      exact ⟨by omega, rfl⟩

lemma create_refines (bound : capacity ≤ 2 ^ 63) (created : lruCreate str capacity evictCb = some lru) :
    capacity < 2 ^ 61 ∧ Refines (str_laws str) (if capacity > 0 then capacity else 1) evictCb lru empty := by
  have initialLe : (if capacity < 16 then 16 else capacity) ≤ 2 ^ 63 := by split <;> omega
  have initialGe : capacity ≤ if capacity < 16 then 16 else capacity := by split <;> omega
  simp only [lruCreate, Option.bind_eq_bind, Option.bind_eq_some_iff] at created
  obtain ⟨table, made, same⟩ := created
  obtain ⟨small, rfl⟩ := htabCreateStr_of_le initialLe made
  cases same
  have rep := create_represents (V := Option Nat) (str_laws str) (le_of_lt (lt_trans small (by decide)))
  exact ⟨lt_of_le_of_lt initialGe small, _, ∅, lruCreateCommon_tracks rep⟩

lemma create_wraps (str : K → List UInt8) (evictCb : Bool) (above : 2 ^ 63 < capacity) (fits : capacity < 2 ^ 64) :
    lruCreate str capacity evictCb = some (lruCreateCommon capacity evictCb none : OpLru K V) := by
  have initial : (if capacity < 16 then 16 else capacity) = capacity := if_neg (by omega)
  simp [lruCreate, htabCreateStr, initial, nextPow2_wraps above (le_of_lt fits)]

end

section

variable {σ : Type} (cb : σ → LruEntry K V → σ × Bool)

lemma foreachLoop_eq {l : List (Held K V)} (content : ∀ h ∈ l, lru.entry h.addr = h.toLruEntry) {start : Option Nat}
    (chain : LinkedFrom lru.list.next start (l.map Held.addr)) {rounds : Nat} (enough : l.length < rounds) (s : σ) :
    foreachLoop lru cb rounds start s = some (visitUntil cb (l.map Held.toLruEntry) s).1 := by
  induction l generalizing start rounds s with
  | nil =>
    obtain ⟨rounds, rfl⟩ := Nat.exists_eq_add_of_lt enough
    rw [chain]
    rfl
  | cons h l ih =>
    obtain ⟨here, after⟩ := List.forall_mem_cons.mp content
    cases rounds with
    | zero => exact absurd enough (Nat.not_lt_zero _)
    | succ rounds =>
      rw [chain.1]
      simp only [foreachLoop, here, map_cons, visitUntil]
      split
      · exact ih after chain.2 (Nat.lt_of_succ_lt_succ enough) _
      · rfl

end

section

variable [Inhabited V] [DecidableEq V] (eqFn : K → K → Bool)

def recordSet (last : K → Option (LruEntry K V)) : LruOp K V → K → Option (LruEntry K V)
  | .set key val => fun other => if eqFn key other then some { key := key, val := val } else last other
  | _ => last

def lastSet (ops : List (LruOp K V)) : K → Option (LruEntry K V) := ops.foldl (recordSet eqFn) fun _ => none

def UpToDate (last : K → Option (LruEntry K V)) (t : RefLru K V) : Prop :=
  ∀ e ∈ t.entries, ∀ key, eqFn e.key key = true → last key = some e

variable {eqFn} {hashFn : K → UInt64}

omit [Inhabited V] [DecidableEq V]

lemma RefLru.mem_others {t : RefLru K V} {key : K} {e : LruEntry K V} :
    e ∈ t.others eqFn key ↔ e ∈ t.entries ∧ eqFn e.key key = false := by
  rw [RefLru.others, mem_filter, Bool.not_eq_true']

lemma RefLru.mem_of_makeRoom {t : RefLru K V} {capacity : Nat} {e : LruEntry K V}
    (mem : e ∈ (t.makeRoom capacity).entries) : e ∈ t.entries := by
  rw [makeRoom] at mem
  split at mem
  · exact mem
  · exact dropLast_subset t.entries mem

variable {last : K → Option (LruEntry K V)} {t : RefLru K V}

lemma UpToDate.subset (current : UpToDate eqFn last t)
    (inside : ∀ e ∈ other.entries, e ∈ t.entries) : UpToDate eqFn last other :=
  fun e mem => current e (inside e mem)

variable (laws : KeyLaws hashFn eqFn) (current : UpToDate eqFn last t)

include laws current

lemma UpToDate.cons {key : K} (val : V) {rest dropped : List (LruEntry K V)}
    (others : ∀ e ∈ rest, e ∈ t.entries ∧ eqFn e.key key = false) :
    UpToDate eqFn (recordSet eqFn last (.set key val))
      { entries := { key := key, val := val } :: rest, dropped := dropped } := by
  intro e mem other same
  rcases List.mem_cons.mp mem with rfl | older
  · exact if_pos same
  · obtain ⟨inside, different⟩ := others e older
    have unset : ¬eqFn key other = true := by
      intro equal
      rw [laws.trans _ _ _ same (laws.symm _ _ equal)] at different
      cases different
    exact (if_neg unset).trans (current e inside other same)

lemma UpToDate.step [Inhabited V] [DecidableEq V] (capacity : Nat) (op : LruOp K V) :
    UpToDate eqFn (recordSet eqFn last op) (refStep eqFn capacity t op).1 := by
  cases op with
  | set key val =>
    rw [refStep]
    cases found : t.find eqFn key with
    | some e => exact current.cons laws val fun e => mem_others.mp
    | none =>
      apply current.cons laws val
      intro e mem
      have inside := mem_of_makeRoom mem
      exact ⟨inside, Bool.eq_false_iff.mpr (List.find?_eq_none.mp found e inside)⟩
  | get key =>
    rw [refStep]
    cases found : t.find eqFn key with
    | some e =>
      apply current.subset
      exact List.forall_mem_cons.mpr ⟨mem_of_find?_eq_some found, fun e mem => (mem_others.mp mem).1⟩
    | none => exact current
  | delete key =>
    rw [refStep]
    cases found : t.find eqFn key with
    | some e => exact current.subset fun e mem => (mem_others.mp mem).1
    | none => exact current
  | flush => exact forall_mem_nil _

lemma UpToDate.run [Inhabited V] [DecidableEq V] (capacity : Nat) (ops : List (LruOp K V)) :
    UpToDate eqFn (ops.foldl (recordSet eqFn) last) (specReplies (refStep eqFn capacity) t ops).1 := by
  induction ops generalizing last t with
  | nil => exact current
  | cons op rest ih => exact ih (current.step laws capacity op)

end

section

variable [Inhabited K] [Inhabited V] [DecidableEq V]

def RefLru.empty : RefLru K V := { entries := [], dropped := [] }

structure Observes (eqFn : K → K → Bool) (capacity : Nat) (evictCb : Bool) (ops : List (LruOp K V)) (lru : OpLru K V)
    (t : RefLru K V) : Prop where
  recency : ∀ (σ : Type) (cb : σ → LruEntry K V → σ × Bool) (userdata : σ),
    lruForeach lru cb userdata = some (visitUntil cb t.entries userdata).1
  size : lru.size = t.entries.length
  bounded : lru.size ≤ capacity
  count : lru.ht.map htabSize = some lru.size
  hit : ∀ key e, t.find eqFn key = some e → (lruGet lru key).map Prod.snd = some e.val ∧ lastSet eqFn ops key = some e
  miss : ∀ key, t.find eqFn key = none → (lruGet lru key).map Prod.snd = some default
  handed : lru.handed = if evictCb then t.dropped else []

def RefinesReference (eqFn : K → K → Bool) (capacity : Nat) (evictCb : Bool) (lru : OpLru K V)
    (ops : List (LruOp K V)) : Prop :=
  ∃ lru', runReplies lruStep lru ops = some (lru', (specReplies (refStep eqFn capacity) RefLru.empty ops).2) ∧
    Observes eqFn capacity evictCb ops lru' (specReplies (refStep eqFn capacity) RefLru.empty ops).1

variable {hashFn : K → UInt64} {eqFn : K → K → Bool} {laws : KeyLaws hashFn eqFn} {t : Layout K V}
  {ops : List (LruOp K V)}

omit [Inhabited K] [DecidableEq V] in
lemma Refines.observes (refines : Refines laws capacity evictCb lru t)
    (current : UpToDate eqFn (lastSet eqFn ops) t.forget) : Observes eqFn capacity evictCb ops lru t.forget := by
  obtain ⟨ht, m, tracks⟩ := refines
  constructor
  case recency =>
    intro σ cb userdata
    apply foreachLoop_eq cb tracks.content tracks.linked.forward
    rw [tracks.size_eq]
    exact Nat.lt_succ_self _
  case size => rw [tracks.size_eq, forget, length_map]
  case bounded =>
    rw [tracks.size_eq]
    exact tracks.bounded
  case count =>
    rw [tracks.table, tracks.size_eq, ← tracks.card_eq, tracks.represents.card]
    rfl
  case hit =>
    intro key e found
    have listed := mem_of_find?_eq_some found
    have same : eqFn e.key key = true := find?_some (p := fun e : LruEntry K V => eqFn e.key key) found
    refine ⟨?_, current e listed key same⟩
    rw [find_forget, Option.map_eq_some_iff] at found
    obtain ⟨h, held, rfl⟩ := found
    rw [tracks.lruGet_val, held]
    rfl
  case miss =>
    intro key missing
    rw [find_forget, Option.map_eq_none_iff] at missing
    rw [tracks.lruGet_val, missing]
    rfl
  case handed => exact tracks.handed_eq

lemma Refines.reference (refines : Refines laws capacity evictCb lru empty) (small : capacity < 2 ^ 61)
    (pos : 1 ≤ capacity) (ops : List (LruOp K V)) : RefinesReference eqFn capacity evictCb lru ops := by
  have simulates : ∀ (lru : OpLru K V) (r : RefLru K V), ∀ op ∈ ops,
      (∃ t, Refines laws capacity evictCb lru t ∧ r = t.forget) →
      ∃ lru', lruStep lru op = some (lru', (refStep eqFn capacity r op).2) ∧
        ∃ t, Refines laws capacity evictCb lru' t ∧ (refStep eqFn capacity r op).1 = t.forget := by
    intro lru r op _ related
    obtain ⟨t, refines, rfl⟩ := related
    obtain ⟨lru', stepped, next⟩ := refines.step small pos op
    rw [refStep_forget]
    exact ⟨lru', stepped, _, next, rfl⟩
  obtain ⟨lru', ran, t, final, same⟩ := runReplies_simulates simulates ⟨empty, refines, rfl⟩
  have current : UpToDate eqFn (fun _ => none) (empty : RefLru K V) := forall_mem_nil _
  have recorded := current.run laws capacity ops
  change (specReplies (refStep eqFn capacity) empty ops).1 = t.forget at same
  rw [same] at recorded
  refine ⟨lru', ran, ?_⟩
  rw [same]
  exact final.observes recorded

/-- A cache refines the reference exactly up to capacity `2 ^ 63`. Above it the index has no slots. -/
theorem lru_refines_reference_iff (str : K → List UInt8) (capacity : Nat) (evictCb : Bool) (positive : 1 ≤ capacity)
    (fits : capacity < 2 ^ 64) :
    (∀ lru : OpLru K V, lruCreate str capacity evictCb = some lru →
      ∀ ops, RefinesReference (htabEqStr str) capacity evictCb lru ops) ↔ capacity ≤ 2 ^ 63 := by
  constructor
  · intro every
    by_contra above
    obtain ⟨lru', ran, -⟩ := every _ (create_wraps str evictCb (Nat.lt_of_not_le above) fits) [.get default]
    cases ran
  · intro bound lru created ops
    obtain ⟨small, refines⟩ := create_refines bound created
    rw [if_pos (Nat.lt_of_succ_le positive)] at refines
    exact refines.reference small positive ops

end

/-- The pointers `2 n` and `2 n + 1` point to one string. -/
def letterAt (p : Nat) : List UInt8 := [UInt8.ofNat (97 + p / 2)]

theorem lru_refines_reference_iff_two : ∃ lru : OpLru Nat Nat, lruCreate letterAt 2 true = some lru ∧
      ∀ ops, RefinesReference (htabEqStr letterAt) 2 true lru ops := by
  obtain ⟨lru, created⟩ := Option.isSome_iff_exists.mp
    (by decide : (lruCreate letterAt 2 true : Option (OpLru Nat Nat)).isSome = true)
  have refines := (lru_refines_reference_iff (V := Nat) letterAt 2 true (by decide) (by decide)).mpr (by decide)
  exact ⟨lru, created, refines lru created⟩

theorem unlimited_capacity_reads_outside :
    ∃ lru : OpLru Nat Nat, lruCreate letterAt (2 ^ 64 - 1) true = some lru ∧ lruStep lru (.set 0 7) = none :=
  ⟨_, create_wraps letterAt true (by decide) (by decide), rfl⟩

end LibOp.Lru

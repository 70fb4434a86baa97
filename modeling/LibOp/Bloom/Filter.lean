import LibOp.Foundation.Runs

namespace LibOp.Bloom

open Foundation List UInt8 Function

section Source

def cellGet (cells : Nat → UInt8) (i : Nat) : UInt8 :=
  if i % 2 = 1 then (cells (i / 2) >>> 4) &&& 0xF else cells (i / 2) &&& 0xF

def cellInc (cells : Nat → UInt8) (i : Nat) : Nat → UInt8 :=
  if i % 2 = 1 then
    let hi := (cells (i / 2) >>> 4) &&& 0xF
    if hi < 15 then update cells (i / 2) (cells (i / 2) + 0x10) else cells
  else
    let lo := cells (i / 2) &&& 0xF
    if lo < 15 then update cells (i / 2) (cells (i / 2) + 1) else cells

def cellDec (cells : Nat → UInt8) (i : Nat) : Nat → UInt8 :=
  if i % 2 = 1 then
    let hi := (cells (i / 2) >>> 4) &&& 0xF
    if hi > 0 then update cells (i / 2) (cells (i / 2) - 0x10) else cells
  else
    let lo := cells (i / 2) &&& 0xF
    if lo > 0 then update cells (i / 2) (cells (i / 2) - 1) else cells

/-- The hash functions and the keys are arbitrary. -/
structure Hashes (K : Type) where
  siphash13 : K → UInt64
  fnv1a64 : K → UInt64

structure OpBloom where
  m : UInt64
  k : Nat
  n : Nat
  cells : Nat → UInt8

variable {K : Type} (h : Hashes K)

def positions (m : UInt64) (k : Nat) (key : K) : List Nat :=
  let h1 := h.siphash13 key
  let h2 := h.fnv1a64 key ||| 1
  (List.range k).map fun i => ((h1 + UInt64.ofNat i * h2) % m).toNat

def opBloomNew (m : UInt64) (k : Nat) : OpBloom := { m := m, k := k, n := 0, cells := fun _ => 0 }

def opBloomAdd (b : OpBloom) (key : K) : OpBloom × Bool :=
  let (cells, wasPresent) := (positions h b.m b.k key).foldl
    (fun acc pos => (cellInc acc.1 pos, acc.2 && cellGet acc.1 pos != 0)) (b.cells, true)
  ({ b with cells := cells, n := if wasPresent then b.n else b.n + 1 }, wasPresent)

def opBloomTest (b : OpBloom) (key : K) : Bool := (positions h b.m b.k key).all fun pos => cellGet b.cells pos != 0

def opBloomRemove (b : OpBloom) (key : K) : OpBloom :=
  if opBloomTest h b key then
    { b with cells := (positions h b.m b.k key).foldl cellDec b.cells, n := if b.n > 0 then b.n - 1 else b.n }
  else b

end Source

section Cells

variable (cells : Nat → UInt8)

def value (i : Nat) : Nat := (cellGet cells i).toNat

variable (i : Nat)

lemma value_eq : value cells i = if i % 2 = 1 then (cells (i / 2)).toNat / 16 else (cells (i / 2)).toNat % 16 := by
  have small := (cells (i / 2)).toNat_lt
  rw [value, cellGet]
  split
  · simp only [UInt8.toNat_and, UInt8.toNat_shiftRight, UInt8.reduceToNat, Nat.reduceMod, Nat.shiftRight_eq_div_pow]
    rw [show (15 : Nat) = 2 ^ 4 - 1 from rfl, Nat.and_two_pow_sub_one_eq_mod]
    omega
  · exact Nat.and_two_pow_sub_one_eq_mod _ 4

lemma value_le : value cells i ≤ 15 := by
  have small := (cells (i / 2)).toNat_lt
  rw [value_eq]
  split <;> omega

lemma value_update {i : Nat} {byte : UInt8} {new : Nat}
    (self : (if i % 2 = 1 then byte.toNat / 16 else byte.toNat % 16) = new)
    (other : (if i % 2 = 1 then byte.toNat % 16 else byte.toNat / 16) =
      if i % 2 = 1 then (cells (i / 2)).toNat % 16 else (cells (i / 2)).toNat / 16) (c : Nat) :
    value (update cells (i / 2) byte) c = if c = i then new else value cells c := by
  rw [value_eq, value_eq]
  by_cases same : c / 2 = i / 2
  · rw [same, update_self]
    split_ifs at self other ⊢ <;> omega
  · rw [update_of_ne same, if_neg fun equal => same (congrArg (· / 2) equal)]

lemma cellInc_eq : cellInc cells i =
    if value cells i < 15 then update cells (i / 2) (cells (i / 2) + if i % 2 = 1 then 0x10 else 1) else cells := by
  unfold cellInc value cellGet
  split <;> simp only [lt_iff_toNat_lt, reduceToNat]

lemma cellDec_eq : cellDec cells i =
    if 0 < value cells i then update cells (i / 2) (cells (i / 2) - if i % 2 = 1 then 0x10 else 1) else cells := by
  unfold cellDec value cellGet
  split <;> simp only [gt_iff_lt, lt_iff_toNat_lt, reduceToNat]

lemma value_cellInc (i c : Nat) :
    value (cellInc cells i) c = if c = i then min 15 (value cells i + 1) else value cells c := by
  have small := (cells (i / 2)).toNat_lt
  have current := value_eq cells i
  rw [cellInc_eq]
  split
  next room =>
    apply value_update cells <;> rw [UInt8.toNat_add] <;> split_ifs at current ⊢ <;>
      simp only [reduceToNat] <;> omega
  · have atMost := value_le cells i
    split
    next same =>
      rw [same]
      omega
    · rfl

lemma value_cellDec (i c : Nat) : value (cellDec cells i) c = if c = i then value cells i - 1 else value cells c := by
  have small := (cells (i / 2)).toNat_lt
  have current := value_eq cells i
  rw [cellDec_eq]
  split
  next room =>
    apply value_update cells <;> rw [UInt8.toNat_sub] <;> split_ifs at current ⊢ <;>
      simp only [reduceToNat] <;> omega
  · split
    next same =>
      rw [same]
      omega
    · rfl

lemma value_foldl_cellInc (ps : List Nat) (c : Nat) :
    value (ps.foldl cellInc cells) c = min 15 (value cells c + ps.count c) := by
  induction ps generalizing cells with
  | nil => exact (Nat.min_eq_right (value_le cells c)).symm
  | cons i ps ih =>
    rw [foldl_cons, ih, value_cellInc, count_cons]
    by_cases same : c = i
    · rw [same, if_pos rfl, if_pos (beq_self_eq_true i)]
      omega
    · rw [if_neg same, if_neg (by simpa using Ne.symm same), Nat.add_zero]

lemma value_foldl_cellDec (ps : List Nat) (c : Nat) :
    value (ps.foldl cellDec cells) c = value cells c - ps.count c := by
  induction ps generalizing cells with
  | nil => rfl
  | cons i ps ih =>
    rw [foldl_cons, ih, value_cellDec, count_cons]
    by_cases same : c = i
    · rw [same, if_pos rfl, if_pos (beq_self_eq_true i)]
      omega
    · rw [if_neg same, if_neg (by simpa using Ne.symm same), Nat.add_zero]

end Cells

section Histories

variable {K : Type} [DecidableEq K]

inductive BloomOp (K : Type) where
  | add (key : K)
  | remove (key : K)

/-- The filter, and the keys added and not removed since. -/
structure History (K : Type) where
  b : OpBloom
  held : List K

variable (h : Hashes K)

def historyStep (s : History K) : BloomOp K → History K
  | .add key => { b := (opBloomAdd h s.b key).1, held := key :: s.held }
  | .remove key => { b := opBloomRemove h s.b key, held := s.held.erase key }

def History.owed (s : History K) (c : Nat) : Nat := (s.held.flatMap (positions h s.b.m s.b.k)).count c

def Bounded (bound : Nat) (s : History K) (op : BloomOp K) : Prop :=
  (match op with
    | .add _ => True
    | .remove key => key ∈ s.held) ∧
  ∀ c, (historyStep h s op).owed h c ≤ bound

def start (m : UInt64) (k : Nat) : History K := { b := opBloomNew m k, held := [] }

def History.Exact (s : History K) : Prop := ∀ c, value s.b.cells c = s.owed h c

variable {h} {s : History K}

omit [DecidableEq K] in
lemma opBloomAdd_cells (b : OpBloom) (key : K) :
    (opBloomAdd h b key).1.cells = (positions h b.m b.k key).foldl cellInc b.cells := by
  have loop (ps : List Nat) (acc : (Nat → UInt8) × Bool) :
      (ps.foldl (fun acc pos => (cellInc acc.1 pos, acc.2 && cellGet acc.1 pos != 0)) acc).1 =
        ps.foldl cellInc acc.1 := by
    induction ps generalizing acc with
    | nil => rfl
    | cons pos ps ih => exact ih _
  exact loop _ (b.cells, true)

omit [DecidableEq K] in
lemma History.Exact.test (exact : s.Exact h) (mem : key ∈ s.held) : opBloomTest h s.b key = true := by
  rw [opBloomTest, all_eq_true]
  intro pos inside
  have positive : 0 < value s.b.cells pos := by
    rw [exact]
    exact List.count_pos_iff.mpr (List.mem_flatMap.mpr ⟨key, mem, inside⟩)
  rw [bne_iff_ne]
  intro zero
  rw [value, zero] at positive
  exact Nat.lt_irrefl 0 positive

lemma History.Exact.step (exact : s.Exact h) (bounded : Bounded h 15 s op) : (historyStep h s op).Exact h := by
  obtain ⟨legal, few⟩ := bounded
  cases op with
  | add key =>
    intro c
    have before := exact c
    have total : (historyStep h s (.add key)).owed h c = (positions h s.b.m s.b.k key).count c + s.owed h c :=
      count_append
    have atMost := few c
    change value (opBloomAdd h s.b key).1.cells c = _
    rw [opBloomAdd_cells, value_foldl_cellInc]
    omega
  | remove key =>
    have present := exact.test legal
    have same : historyStep h s (.remove key) =
        { b := { s.b with
            cells := (positions h s.b.m s.b.k key).foldl cellDec s.b.cells
            n := if s.b.n > 0 then s.b.n - 1 else s.b.n }
          held := s.held.erase key } := by
      rw [historyStep, opBloomRemove, if_pos present]
    rw [same]
    intro c
    have before := exact c
    have total : s.owed h c = (positions h s.b.m s.b.k key).count c +
        ((s.held.erase key).flatMap (positions h s.b.m s.b.k)).count c := by
      rw [← count_append]
      exact ((perm_cons_erase legal).flatMap_right _).count_eq c
    change value _ c = ((s.held.erase key).flatMap (positions h s.b.m s.b.k)).count c
    rw [value_foldl_cellDec]
    omega

end Histories

section Single

def constant : Hashes Unit := ⟨fun _ => 0, fun _ => 0⟩

/-- The value of the one counter and how often the key is in the filter. -/
structure Single (s : History Unit) (v n : Nat) : Prop where
  m : s.b.m = 16
  k : s.b.k = 1
  value : value s.b.cells 0 = v
  held : s.held = List.replicate n ()

variable {s : History Unit} {v n bound : Nat}

section

variable (single : Single s v n)

include single

lemma Single.positions : positions constant s.b.m s.b.k () = [0] := by
  rw [single.m, single.k]
  decide

lemma Single.owed_le (c : Nat) : s.owed constant c ≤ n := by
  apply Nat.le_trans count_le_length
  simp [single.held, single.positions]

lemma Single.add : Single (historyStep constant s (.add ())) (min 15 (v + 1)) (n + 1) where
  m := single.m
  k := single.k
  value := by
    change Bloom.value (opBloomAdd constant s.b ()).1.cells 0 = _
    rw [opBloomAdd_cells, value_foldl_cellInc, single.positions, single.value]
    rfl
  held := congrArg (List.cons ()) single.held

lemma Single.test : opBloomTest constant s.b () = decide (0 < v) := by
  rw [opBloomTest, single.positions, ← single.value, Bloom.value, all_cons, all_nil, Bool.and_true,
    Bool.eq_iff_iff, bne_iff_ne, decide_eq_true_eq, Nat.pos_iff_ne_zero, ← UInt8.toNat_zero, ne_eq, ne_eq, UInt8.toNat_inj]

lemma Single.remove : Single (historyStep constant s (.remove ())) (v - 1) (n - 1) := by
  have held : s.held.erase () = List.replicate (n - 1) () := by
    rw [single.held]
    cases n <;> rfl
  rw [historyStep, opBloomRemove, single.test]
  by_cases pos : 0 < v
  · rw [if_pos (decide_eq_true pos)]
    refine ⟨single.m, single.k, ?_, held⟩
    rw [value_foldl_cellDec, single.positions, single.value]
    rfl
  · rw [if_neg (by simpa using pos)]
    exact ⟨single.m, single.k, by rw [single.value]; omega, held⟩

lemma Single.adds (a : Nat) (few : n + a ≤ bound) (start : v = min 15 n) :
    Permitted (Bounded constant bound) (historyStep constant) s (List.replicate a (.add ())) ∧
      Single ((List.replicate a (.add ())).foldl (historyStep constant) s) (min 15 (n + a)) (n + a) := by
  induction a generalizing s v n with
  | zero => exact ⟨trivial, start ▸ single⟩
  | succ a ih =>
    have next := single.add
    obtain ⟨permitted, final⟩ := ih next (by omega) (by omega)
    rw [Nat.add_right_comm, Nat.add_assoc] at final
    exact ⟨⟨⟨trivial, fun c => Nat.le_trans (next.owed_le c) (by omega)⟩, permitted⟩, final⟩

lemma Single.removes (r : Nat) (enough : r ≤ n) (few : n ≤ bound) :
    Permitted (Bounded constant bound) (historyStep constant) s (List.replicate r (.remove ())) ∧
      Single ((List.replicate r (.remove ())).foldl (historyStep constant) s) (v - r) (n - r) := by
  induction r generalizing s v n with
  | zero => exact ⟨trivial, single⟩
  | succ r ih =>
    have next := single.remove
    have mem : () ∈ s.held := by
      rw [single.held, mem_replicate]
      exact ⟨by omega, rfl⟩
    obtain ⟨permitted, final⟩ := ih next (by omega) (by omega)
    rw [Nat.sub_sub, Nat.sub_sub, Nat.add_comm 1] at final
    exact ⟨⟨⟨mem, fun c => Nat.le_trans (next.owed_le c) (by omega)⟩, permitted⟩, final⟩

end

def saturating : List (BloomOp Unit) := List.replicate 16 (.add ()) ++ List.replicate 15 (.remove ())

lemma single_saturated (many : 16 ≤ bound) :
    Permitted (Bounded constant bound) (historyStep constant) (start 16 1) saturating ∧
      Single (saturating.foldl (historyStep constant) (start 16 1)) 0 1 := by
  have fresh : Single (start 16 1) 0 0 := ⟨rfl, rfl, rfl, rfl⟩
  have full := fresh.adds 16 (by omega : 0 + 16 ≤ bound) rfl
  have empty := full.2.removes 15 (by omega) (by omega : 0 + 16 ≤ bound)
  rw [saturating, permitted_append, foldl_append]
  exact ⟨⟨full.1, empty.1⟩, empty.2⟩

theorem saturated_key_lost : (saturating.foldl (historyStep constant) (start 16 1)).held = [()] ∧
      opBloomTest constant (saturating.foldl (historyStep constant) (start 16 1)).b () = false := by
  obtain ⟨-, lost⟩ := single_saturated (Nat.le_refl 16)
  exact ⟨lost.held, lost.test⟩

end Single

/-- No key is lost while no cell is owed more than the bound, exactly for the bounds up to 15. -/
theorem no_false_negatives_iff (bound : Nat) :
    (∀ (K : Type) [DecidableEq K] (h : Hashes K) (m : UInt64) (k : Nat) (ops : List (BloomOp K)),
      Permitted (Bounded h bound) (historyStep h) (start m k) ops →
        ∀ key ∈ (ops.foldl (historyStep h) (start m k)).held,
          opBloomTest h (ops.foldl (historyStep h) (start m k)).b key = true) ↔ bound ≤ 15 := by
  constructor
  · intro always
    by_contra many
    obtain ⟨permitted, lost⟩ := single_saturated (Nat.lt_of_not_le many)
    have found := always Unit constant 16 1 _ permitted () (by rw [lost.held]; exact mem_cons_self)
    rw [lost.test] at found
    cases found
  · intro few K _ h m k ops permitted key mem
    have fresh : (start m k : History K).Exact h := by
      intro c
      rw [value_eq]
      split
      · exact Nat.zero_div 16
      · exact Nat.zero_mod 16
    have exact : (ops.foldl (historyStep h) (start m k)).Exact h := by
      apply Permitted.preserves _ fresh permitted
      intro s op exact bounded
      exact exact.step ⟨bounded.1, fun c => Nat.le_trans (bounded.2 c) few⟩
    exact exact.test mem

end LibOp.Bloom

import LibOp.HashTable.Table

namespace LibOp.Strings

open HashTable List

structure CStr where
  bytes : List UInt8
  noNul : 0 ∉ bytes

def CStr.image (s : CStr) : List UInt8 := s.bytes ++ [0]

/-- The folding of `op_htab_hash_istr` and `htab_eq_istr`. -/
def foldIrc (c : UInt8) : UInt8 :=
  if c ≥ 0x41 ∧ c ≤ 0x5A then c ||| 0x20
  else if c ≥ 0x5B ∧ c ≤ 0x5E then c + 0x20
  else c

def hashIstrLoop : List UInt8 → UInt64 → UInt64
  | c :: rest, h => if c ≠ 0 then hashIstrLoop rest ((h ^^^ (foldIrc c).toUInt64) * 1099511628211) else h
  | [], h => h

def htabHashIstr (key : CStr) : UInt64 := fixHash (hashIstrLoop key.image 14695981039346656037)

def eqIstrLoop : List UInt8 → List UInt8 → Bool
  | a :: ua, b :: ub =>
    let ca := foldIrc a
    let cb := foldIrc b
    if ca = cb ∧ ca ≠ 0 then eqIstrLoop ua ub else decide (ca = cb)
  | _, _ => false

def htabEqIstr (a b : CStr) : Bool := eqIstrLoop a.image b.image

/-- The C locale's `tolower`. -/
def tolower (c : UInt8) : UInt8 := if c ≥ 0x41 ∧ c ≤ 0x5A then c + 0x20 else c

def strcasecmpLoop : List UInt8 → List UInt8 → Int
  | a :: us1, b :: us2 =>
    if tolower a = tolower b then (if a = 0 then 0 else strcasecmpLoop us1 us2)
    else (tolower a).toNat - (tolower b).toNat
  | _, _ => 0

def opStrcasecmp (s1 s2 : CStr) : Int := strcasecmpLoop s1.image s2.image

def rbtCmpIstr (a b : CStr) : Int := opStrcasecmp a b

def skiplistCmpIstr (a b : CStr) : Int := opStrcasecmp a b

lemma or_case_bit : ∀ n < 32, (64 + n) ||| 32 = 64 + n + 32 := by decide

lemma add_case_bit {c : UInt8} (small : c.toNat ≤ 94) : (c + 0x20).toNat = c.toNat + 32 := by
  apply Nat.mod_eq_of_lt
  change c.toNat + 32 < 256
  omega

variable (c : UInt8)

lemma foldIrc_toNat : (foldIrc c).toNat = if 65 ≤ c.toNat ∧ c.toNat ≤ 94 then c.toNat + 32 else c.toNat := by
  simp only [foldIrc, ge_iff_le, UInt8.le_iff_toNat_le, UInt8.reduceToNat]
  split
  next letter =>
    have set := or_case_bit (c.toNat - 64) (by omega)
    rw [if_pos (by omega), UInt8.toNat_or]
    rwa [Nat.add_sub_cancel' (by omega)] at set
  · split
    next bracket => rw [if_pos (by omega), add_case_bit bracket.2]
    · rw [if_neg (by omega)]

lemma tolower_toNat : (tolower c).toNat = if 65 ≤ c.toNat ∧ c.toNat ≤ 90 then c.toNat + 32 else c.toNat := by
  simp only [tolower, ge_iff_le, UInt8.le_iff_toNat_le, UInt8.reduceToNat]
  split
  next letter => exact add_case_bit (Nat.le_trans letter.2 (by omega))
  · rfl

/-- One of the four bytes `[`, `\`, `]`, `^` against its counterpart. -/
def BracketPair (x y : UInt8) : Prop :=
  (0x5B ≤ x ∧ x ≤ 0x5E ∧ y = x + 0x20) ∨ (0x5B ≤ y ∧ y ≤ 0x5E ∧ x = y + 0x20)

lemma bracketPair_iff (x y : UInt8) : BracketPair x y ↔ (91 ≤ x.toNat ∧ x.toNat ≤ 94 ∧ y.toNat = x.toNat + 32) ∨
      (91 ≤ y.toNat ∧ y.toNat ≤ 94 ∧ x.toNat = y.toNat + 32) := by
  simp only [BracketPair, UInt8.le_iff_toNat_le, ← UInt8.toNat_inj, UInt8.reduceToNat]
  constructor
  · intro pair
    rcases pair with ⟨low, high, other⟩ | ⟨low, high, other⟩
    · rw [add_case_bit high] at other
      exact .inl ⟨low, high, other⟩
    · rw [add_case_bit high] at other
      exact .inr ⟨low, high, other⟩
  · intro pair
    rcases pair with ⟨low, high, other⟩ | ⟨low, high, other⟩
    · rw [add_case_bit high]
      exact .inl ⟨low, high, other⟩
    · rw [add_case_bit high]
      exact .inr ⟨low, high, other⟩

lemma tolower_eq_iff (x y : UInt8) : tolower x = tolower y ↔ foldIrc x = foldIrc y ∧ ¬ BracketPair x y := by
  rw [bracketPair_iff, ← UInt8.toNat_inj, ← UInt8.toNat_inj, tolower_toNat, tolower_toNat, foldIrc_toNat, foldIrc_toNat]
  split <;> split <;> split <;> split <;> omega

lemma foldIrc_eq_zero : foldIrc c = 0 ↔ c = 0 := by
  rw [← UInt8.toNat_inj, ← UInt8.toNat_inj, foldIrc_toNat, UInt8.toNat_zero]
  split <;> omega

lemma tolower_eq_zero : tolower c = 0 ↔ c = 0 := by
  rw [← UInt8.toNat_inj, ← UInt8.toNat_inj, tolower_toNat, UInt8.toNat_zero]
  split <;> omega

variable (a b : List UInt8)

lemma eqIstrLoop_iff (noNulA : 0 ∉ a) (noNulB : 0 ∉ b) :
    eqIstrLoop (a ++ [0]) (b ++ [0]) = true ↔ a.map foldIrc = b.map foldIrc := by
  induction a generalizing b with
  | nil =>
    cases b with
    | nil => decide
    | cons y b =>
      have nonzero : foldIrc 0 ≠ foldIrc y := by
        intro same
        apply noNulB
        rw [(foldIrc_eq_zero y).mp same.symm]
        exact mem_cons_self
      simp [eqIstrLoop, nonzero]
  | cons x a ih =>
    rw [mem_cons, not_or] at noNulA
    have pos : foldIrc x ≠ 0 := fun zero => noNulA.1 ((foldIrc_eq_zero x).mp zero).symm
    cases b with
    | nil =>
      have apart : foldIrc x ≠ foldIrc 0 := pos
      simp [eqIstrLoop, apart]
    | cons y b =>
      rw [mem_cons, not_or] at noNulB
      by_cases same : foldIrc x = foldIrc y
      · have tail := ih b noNulA.2 noNulB.2
        simp only [cons_append, eqIstrLoop, same, ne_eq, map_cons, List.cons.injEq, true_and]
        rw [if_pos (by rw [← same]; exact pos)]
        exact tail
      · simp [eqIstrLoop, same]

lemma strcasecmpLoop_iff (noNulA : 0 ∉ a) (noNulB : 0 ∉ b) :
    strcasecmpLoop (a ++ [0]) (b ++ [0]) = 0 ↔ a.map tolower = b.map tolower := by
  have apart (x y : UInt8) (unequal : tolower x ≠ tolower y) : ((tolower x).toNat : Int) - (tolower y).toNat ≠ 0 := by
    intro zero
    apply unequal
    rw [← UInt8.toNat_inj]
    omega
  induction a generalizing b with
  | nil =>
    cases b with
    | nil => decide
    | cons y b =>
      have nonzero : tolower 0 ≠ tolower y := by
        intro same
        apply noNulB
        rw [(tolower_eq_zero y).mp same.symm]
        exact mem_cons_self
      simpa [strcasecmpLoop, nonzero] using apart 0 y nonzero
  | cons x a ih =>
    rw [mem_cons, not_or] at noNulA
    have pos : x ≠ 0 := fun zero => noNulA.1 zero.symm
    cases b with
    | nil =>
      have nonzero : tolower x ≠ tolower 0 := fun same => pos ((tolower_eq_zero x).mp same)
      simpa [strcasecmpLoop, nonzero] using apart x 0 nonzero
    | cons y b =>
      rw [mem_cons, not_or] at noNulB
      by_cases same : tolower x = tolower y
      · have tail := ih b noNulA.2 noNulB.2
        simpa [strcasecmpLoop, same, pos] using tail
      · simpa [strcasecmpLoop, same] using apart x y same

lemma hashIstrLoop_eq (s : List UInt8) (noNul : 0 ∉ s) (h : UInt64) :
    hashIstrLoop (s ++ [0]) h = (s.map foldIrc).foldl (fun h c => (h ^^^ c.toUInt64) * 1099511628211) h := by
  induction s generalizing h with
  | nil => rfl
  | cons c s ih =>
    rw [mem_cons, not_or] at noNul
    have pos : c ≠ 0 := fun zero => noNul.1 zero.symm
    rw [cons_append, hashIstrLoop, if_pos pos, ih noNul.2]
    rfl

lemma htabEqIstr_iff (a b : CStr) : htabEqIstr a b = true ↔ a.bytes.map foldIrc = b.bytes.map foldIrc :=
  eqIstrLoop_iff a.bytes b.bytes a.noNul b.noNul

lemma opStrcasecmp_iff (a b : CStr) : opStrcasecmp a b = 0 ↔ a.bytes.map tolower = b.bytes.map tolower :=
  strcasecmpLoop_iff a.bytes b.bytes a.noNul b.noNul

lemma htabHashIstr_congr {a b : CStr} (equal : htabEqIstr a b = true) : htabHashIstr a = htabHashIstr b := by
  rw [htabEqIstr_iff] at equal
  unfold htabHashIstr CStr.image
  rw [hashIstrLoop_eq a.bytes a.noNul, hashIstrLoop_eq b.bytes b.noNul, equal]

lemma map_tolower_eq_iff :
    a.map tolower = b.map tolower ↔ a.map foldIrc = b.map foldIrc ∧ ∀ p ∈ a.zip b, ¬ BracketPair p.1 p.2 := by
  induction a generalizing b with
  | nil => cases b <;> simp
  | cons x a ih =>
    cases b with
    | nil => simp
    | cons y b =>
      simp only [map_cons, List.cons.injEq, zip_cons_cons, forall_mem_cons, ih, tolower_eq_iff]
      constructor
      · intro parts
        exact ⟨⟨parts.1.1, parts.2.1⟩, parts.1.2, parts.2.2⟩
      · intro parts
        exact ⟨⟨parts.1.1, parts.2.1⟩, parts.1.2, parts.2.2⟩

theorem istr_identity_agrees_iff (a b : CStr) :
    (((rbtCmpIstr a b = 0 ↔ skiplistCmpIstr a b = 0) ∧ (skiplistCmpIstr a b = 0 ↔ htabEqIstr a b = true)) ∧
        (htabEqIstr a b = true → htabHashIstr a = htabHashIstr b)) ↔
      (htabEqIstr a b = true → ∀ p ∈ a.bytes.zip b.bytes, ¬ BracketPair p.1 p.2) := by
  have folded := map_tolower_eq_iff a.bytes b.bytes
  rw [← opStrcasecmp_iff, ← htabEqIstr_iff] at folded
  constructor
  · intro agree equal
    exact (folded.mp (agree.1.2.mpr equal)).2
  · intro apart
    refine ⟨⟨Iff.rfl, ?_⟩, htabHashIstr_congr⟩
    constructor
    · intro zero
      exact (folded.mp zero).1
    · intro equal
      exact folded.mpr ⟨equal, apart equal⟩

theorem open_bracket_brace :
    htabEqIstr ⟨[0x5B], by decide⟩ ⟨[0x7B], by decide⟩ = true ∧ rbtCmpIstr ⟨[0x5B], by decide⟩ ⟨[0x7B], by decide⟩ ≠ 0 ∧
      skiplistCmpIstr ⟨[0x5B], by decide⟩ ⟨[0x7B], by decide⟩ ≠ 0 := by
  decide

end LibOp.Strings

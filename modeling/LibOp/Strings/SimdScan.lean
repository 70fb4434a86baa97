import Mathlib

namespace LibOp.Strings

open List Nat Option

/-- `movemask` of a comparison: bit `i` is lane `i`. -/
def movemask : List Bool → Nat
  | [] => 0
  | lane :: lanes => (if lane then 1 else 0) + 2 * movemask lanes

/-- `__builtin_ctz` of a nonzero mask. -/
def ctz (mask : Nat) : Nat := if mask = 0 ∨ mask % 2 = 1 then 0 else ctz (mask / 2) + 1

/-- `if (mask) ... __builtin_ctz(mask)` -/
def firstSet (mask : Nat) : Option Nat := if mask = 0 then none else some (ctz mask)

def laneBytes (lanes : List Bool) : List UInt8 := lanes.map fun lane => if lane then 0xFF else 0x00

/-- `vshrn_n_u16(vreinterpretq_u16_u8(v), 4)` -/
def shiftRightNarrow : List UInt8 → List UInt8
  | low :: high :: rest => UInt8.ofNat ((high.toNat <<< 8 ||| low.toNat) >>> 4) :: shiftRightNarrow rest
  | _ => []

def littleEndian : List UInt8 → Nat
  | [] => 0
  | b :: bytes => b.toNat + 256 * littleEndian bytes

def neonMask (lanes : List Bool) : Nat := littleEndian (shiftRightNarrow (laneBytes lanes))

variable {mask p width : Nat}

lemma ctz_odd (odd : mask % 2 = 1) : ctz mask = 0 := by
  rw [ctz, if_pos (.inr odd)]

lemma ctz_double (nonzero : mask ≠ 0) : ctz (2 * mask) = ctz mask + 1 := by
  rw [ctz, if_neg (by omega), Nat.mul_div_cancel_left mask (by decide)]

lemma ctz_two_pow_mul (nonzero : mask ≠ 0) (k : Nat) : ctz (2 ^ k * mask) = ctz mask + k := by
  induction k with
  | zero => rw [pow_zero, one_mul, add_zero]
  | succ k ih =>
    rw [Nat.pow_succ', Nat.mul_assoc, ctz_double (Nat.mul_ne_zero (Nat.pos_iff_ne_zero.mp (Nat.two_pow_pos k)) nonzero),
      ih, add_assoc]

variable (lanes : List Bool)

lemma movemask_lt : movemask lanes < 2 ^ lanes.length := by
  induction lanes with
  | nil => exact one_pos
  | cons lane lanes ih =>
    rw [movemask, length_cons, pow_succ]
    split_ifs <;> omega

lemma movemask_not : 2 ^ lanes.length - 1 - movemask lanes = movemask (lanes.map not) := by
  induction lanes with
  | nil => rfl
  | cons lane lanes ih =>
    have below := movemask_lt lanes
    rw [map_cons, movemask, movemask, ← ih, length_cons, pow_succ]
    cases lane <;> simp <;> omega

lemma firstSet_add_two_mul (lane : Bool) (mask : Nat) :
    firstSet ((if lane then 1 else 0) + 2 * mask) = if lane then some 0 else (firstSet mask).map (· + 1) := by
  unfold firstSet
  cases lane with
  | true =>
    simp only [if_true]
    rw [if_neg (by omega), ctz_odd (by omega)]
  | false =>
    simp only [Bool.false_eq_true, if_false, zero_add]
    by_cases zero : mask = 0
    · rw [if_pos zero, if_pos (by omega), map_none]
    · rw [if_neg zero, if_neg (by omega), ctz_double zero, map_some]

lemma firstSet_movemask : firstSet (movemask lanes) = lanes.findIdx? id := by
  induction lanes with
  | nil => rfl
  | cons lane lanes ih =>
    rw [movemask, firstSet_add_two_mul, ih, findIdx?_cons]
    rfl

lemma narrow_pair (low high : Bool) : UInt8.toNat (UInt8.ofNat (((if high then (0xFF : UInt8) else 0x00).toNat <<< 8 |||
      (if low then (0xFF : UInt8) else 0x00).toNat) >>> 4)) =
      (if low then 15 else 0) + 16 * (if high then 15 else 0) := by
  cases low <;> cases high <;> decide

lemma neonMask_cons (low high : Bool) (lanes : List Bool) : neonMask (low :: high :: lanes) =
      (if low then 15 else 0) + 16 * ((if high then 15 else 0) + 16 * neonMask lanes) := by
  simp only [neonMask, laneBytes, map_cons, shiftRightNarrow, littleEndian, narrow_pair]
  omega

lemma firstSet_nibble (lane : Bool) (mask : Nat) : (firstSet ((if lane then 15 else 0) + 16 * mask)).map (· >>> 2) =
      if lane then some 0 else ((firstSet mask).map (· >>> 2)).map (· + 1) := by
  unfold firstSet
  cases lane with
  | true =>
    simp only [if_true]
    rw [if_neg (by omega), ctz_odd (by omega)]
    rfl
  | false =>
    simp only [Bool.false_eq_true, if_false, zero_add]
    by_cases zero : mask = 0
    · rw [if_pos zero, if_pos (by omega)]
      rfl
    · rw [if_neg zero, if_neg (by omega), show 16 * mask = 2 ^ 4 * mask from rfl, ctz_two_pow_mul zero]
      simp only [map_some, shiftRight_eq_div_pow]
      congr 1
      omega

lemma firstSet_neonMask (pairs : lanes.length % 2 = 0) :
    (firstSet (neonMask lanes)).map (· >>> 2) = lanes.findIdx? id := by
  induction lanes using List.twoStepInduction with
  | nil => rfl
  | singleton lane => simp at pairs
  | cons_cons low high lanes ih _ =>
    rw [neonMask_cons, firstSet_nibble, firstSet_nibble, ih (by simp only [length_cons] at pairs; omega), findIdx?_cons,
      findIdx?_cons]
    rfl

/-! ### Scanning a range

The list is the memory from `p` to `end`, and positions are counted from `p`. There is no result when a load lies
outside of the range. -/

def loadLanes (bytes : List UInt8) (p width : Nat) : Option (List UInt8) :=
  if p + width ≤ bytes.length then some ((bytes.drop p).take width) else none

def vectorScan (width : Nat) [NeZero width] (hit : List UInt8 → Option Nat) (rest : Nat → Option Nat)
    (bytes : List UInt8) (p : Nat) : Option Nat :=
  if p + width ≤ bytes.length then
    (loadLanes bytes p width).bind fun chunk =>
      match hit chunk with
      | some lane => some (p + lane)
      | none => vectorScan width hit rest bytes (p + width)
  else rest p
termination_by bytes.length - p
decreasing_by
  have := pos_of_neZero width
  omega

def findDelimFrom (d1 d2 : UInt8) (bytes : List UInt8) (p : Nat) : Option Nat :=
  if p < bytes.length then
    (bytes[p]?).bind fun c => if c = d1 ∨ c = d2 then some p else findDelimFrom d1 d2 bytes (p + 1)
  else some bytes.length
termination_by bytes.length - p

def countLeadingFrom (c : UInt8) (bytes : List UInt8) (p : Nat) : Option Nat :=
  if p < bytes.length then
    (bytes[p]?).bind fun byte => if byte = c then countLeadingFrom c bytes (p + 1) else some p
  else some p
termination_by bytes.length - p

def isDelim (d1 d2 c : UInt8) : Bool := c == d1 || c == d2

def findDelimScalar (bytes : List UInt8) (d1 d2 : UInt8) : Option Nat := findDelimFrom d1 d2 bytes 0

def countLeadingScalar (bytes : List UInt8) (c : UInt8) : Option Nat := countLeadingFrom c bytes 0

def findDelimAvx2 (bytes : List UInt8) (d1 d2 : UInt8) : Option Nat :=
  vectorScan 32 (fun chunk => firstSet (movemask (chunk.map (isDelim d1 d2)))) (findDelimFrom d1 d2 bytes) bytes 0

def countLeadingAvx2 (bytes : List UInt8) (c : UInt8) : Option Nat :=
  vectorScan 32 (fun chunk => firstSet (2 ^ 32 - 1 - movemask (chunk.map (· == c)))) (countLeadingFrom c bytes) bytes 0

def findDelimSse2 (bytes : List UInt8) (d1 d2 : UInt8) : Option Nat :=
  vectorScan 16 (fun chunk => firstSet (movemask (chunk.map (isDelim d1 d2)))) (findDelimFrom d1 d2 bytes) bytes 0

def countLeadingSse2 (bytes : List UInt8) (c : UInt8) : Option Nat :=
  vectorScan 16 (fun chunk => firstSet ((2 ^ 32 - 1 - movemask (chunk.map (· == c))) &&& 0xFFFF))
    (countLeadingFrom c bytes) bytes 0

def findDelimNeon (bytes : List UInt8) (d1 d2 : UInt8) : Option Nat :=
  vectorScan 16 (fun chunk => (firstSet (neonMask (chunk.map (isDelim d1 d2)))).map (· >>> 2))
    (findDelimFrom d1 d2 bytes) bytes 0

def countLeadingNeon (bytes : List UInt8) (c : UInt8) : Option Nat :=
  vectorScan 16 (fun chunk => (firstSet (neonMask (chunk.map (· != c)))).map (· >>> 2))
    (countLeadingFrom c bytes) bytes 0

inductive Isa where
  | avx2
  | sse2
  | neon
  | scalar
deriving DecidableEq, Repr

def opSimdFindDelim (isa : Isa) (bytes : List UInt8) (d1 d2 : UInt8) : Option Nat :=
  if bytes.length = 0 then some 0
  else match isa with
    | .avx2 => findDelimAvx2 bytes d1 d2
    | .sse2 => findDelimSse2 bytes d1 d2
    | .neon => findDelimNeon bytes d1 d2
    | .scalar => findDelimScalar bytes d1 d2

def opSimdCountLeading (isa : Isa) (bytes : List UInt8) (c : UInt8) : Option Nat :=
  if bytes.length = 0 then some 0
  else match isa with
    | .avx2 => countLeadingAvx2 bytes c
    | .sse2 => countLeadingSse2 bytes c
    | .neon => countLeadingNeon bytes c
    | .scalar => countLeadingScalar bytes c

variable {stop : UInt8 → Bool} {bytes : List UInt8}

lemma findIdx_drop_of_lt (inside : p < bytes.length) :
    (bytes.drop p).findIdx stop = if stop bytes[p] then 0 else (bytes.drop (p + 1)).findIdx stop + 1 := by
  rw [drop_eq_getElem_cons inside, findIdx_cons]
  cases stop bytes[p] <;> rfl

/-- The first position from `p` on where `stop` holds. -/
def firstFrom (stop : UInt8 → Bool) (bytes : List UInt8) (p : Nat) : Nat := p + (bytes.drop p).findIdx stop

lemma firstFrom_of_lt (inside : p < bytes.length) :
    firstFrom stop bytes p = if stop bytes[p] then p else firstFrom stop bytes (p + 1) := by
  unfold firstFrom
  rw [findIdx_drop_of_lt inside]
  split_ifs <;> omega

lemma firstFrom_length (stop : UInt8 → Bool) (bytes : List UInt8) :
    firstFrom stop bytes bytes.length = bytes.length := by
  rw [firstFrom, drop_length]
  rfl

lemma scan_eq_firstFrom {scan : Nat → Option Nat} (ended : scan bytes.length = some bytes.length)
    (step : ∀ p (inside : p < bytes.length), scan p = if stop bytes[p] then some p else scan (p + 1)) (p : Nat)
    (within : p ≤ bytes.length) : scan p = some (firstFrom stop bytes p) := by
  induction missing : bytes.length - p generalizing p with
  | zero =>
    obtain rfl : p = bytes.length := by omega
    rw [ended, firstFrom_length]
  | succ n ih =>
    have inside : p < bytes.length := by omega
    rw [step p inside, firstFrom_of_lt inside, ih (p + 1) inside (by omega), apply_ite some]

lemma findDelimFrom_eq (d1 d2 : UInt8) (bytes : List UInt8) :
    ∀ p ≤ bytes.length, findDelimFrom d1 d2 bytes p = some (firstFrom (isDelim d1 d2) bytes p) := by
  apply scan_eq_firstFrom
  · rw [findDelimFrom, if_neg (lt_irrefl _)]
  · intro p inside
    rw [findDelimFrom, if_pos inside, getElem?_eq_getElem inside, bind_some, isDelim]
    simp

lemma countLeadingFrom_eq (c : UInt8) (bytes : List UInt8) :
    ∀ p ≤ bytes.length, countLeadingFrom c bytes p = some (firstFrom (· != c) bytes p) := by
  apply scan_eq_firstFrom
  · rw [countLeadingFrom, if_neg (lt_irrefl _)]
  · intro p inside
    rw [countLeadingFrom, if_pos inside, getElem?_eq_getElem inside, bind_some]
    simp

lemma firstFrom_of_chunk_some (found : ((bytes.drop p).take width).findIdx? stop = some lane) :
    firstFrom stop bytes p = p + lane := by
  have whole := take_append_drop width (bytes.drop p)
  obtain ⟨inside, same⟩ := List.findIdx?_eq_some_iff_findIdx_eq.mp found
  rw [firstFrom, ← whole, findIdx_append, if_pos (by rw [same]; exact inside), same]

lemma firstFrom_of_chunk_none (inside : p + width ≤ bytes.length)
    (missing : ((bytes.drop p).take width).findIdx? stop = none) :
    firstFrom stop bytes p = firstFrom stop bytes (p + width) := by
  have whole := take_append_drop width (bytes.drop p)
  have same := List.findIdx?_eq_none_iff_findIdx_eq.mp missing
  have size : ((bytes.drop p).take width).length = width := by
    rw [length_take, length_drop]
    omega
  rw [firstFrom, firstFrom, ← whole, findIdx_append, if_neg (by omega), drop_drop, size]
  omega

lemma vectorScan_eq [NeZero width] {hit : List UInt8 → Option Nat}
    (lanes : ∀ chunk, chunk.length = width → hit chunk = chunk.findIdx? stop)
    (tail : ∀ p ≤ bytes.length, rest p = some (firstFrom stop bytes p)) (p : Nat) (within : p ≤ bytes.length) :
    vectorScan width hit rest bytes p = some (firstFrom stop bytes p) := by
  obtain ⟨n, bound⟩ : ∃ n, bytes.length - p < n := ⟨_, lt_succ_self _⟩
  induction n generalizing p with
  | zero => cases bound
  | succ n ih =>
    have pos := pos_of_neZero width
    rw [vectorScan]
    by_cases inside : p + width ≤ bytes.length
    · have size : ((bytes.drop p).take width).length = width := by
        rw [length_take, length_drop]
        omega
      rw [if_pos inside, loadLanes, if_pos inside, bind_some, lanes _ size]
      cases found : ((bytes.drop p).take width).findIdx? stop with
      | some lane => rw [firstFrom_of_chunk_some found]
      | none => rw [firstFrom_of_chunk_none inside found, ih (p + width) inside (by omega)]
    · rw [if_neg inside, tail p within]

lemma firstFrom_zero (stop : UInt8 → Bool) (bytes : List UInt8) : firstFrom stop bytes 0 = bytes.findIdx stop :=
  zero_add _

lemma findIdx?_lanes (stop : UInt8 → Bool) (chunk : List UInt8) :
    (chunk.map stop).findIdx? id = chunk.findIdx? stop := by
  rw [findIdx?_map, Function.id_comp]

lemma map_bne_eq (c : UInt8) (chunk : List UInt8) : (chunk.map (· == c)).map not = chunk.map (· != c) := by
  rw [List.map_map]
  rfl

lemma findDelim_eq (bytes : List UInt8) (d1 d2 : UInt8) :
    findDelimAvx2 bytes d1 d2 = some (bytes.findIdx (isDelim d1 d2)) ∧
      findDelimSse2 bytes d1 d2 = some (bytes.findIdx (isDelim d1 d2)) ∧
      findDelimNeon bytes d1 d2 = some (bytes.findIdx (isDelim d1 d2)) ∧
      findDelimScalar bytes d1 d2 = some (bytes.findIdx (isDelim d1 d2)) := by
  have tail := findDelimFrom_eq d1 d2 bytes
  rw [← firstFrom_zero]
  refine ⟨?_, ?_, ?_, tail 0 (zero_le _)⟩ <;> apply vectorScan_eq _ tail 0 (zero_le _) <;> intro chunk size
  · rw [firstSet_movemask, findIdx?_lanes]
  · rw [firstSet_movemask, findIdx?_lanes]
  · rw [firstSet_neonMask _ (by rw [length_map, size]), findIdx?_lanes]

lemma countLeading_eq (bytes : List UInt8) (c : UInt8) :
    countLeadingAvx2 bytes c = some (bytes.findIdx (· != c)) ∧ countLeadingSse2 bytes c = some
    (bytes.findIdx (· != c)) ∧
      countLeadingNeon bytes c = some (bytes.findIdx (· != c)) ∧
      countLeadingScalar bytes c = some (bytes.findIdx (· != c)) := by
  have tail := countLeadingFrom_eq c bytes
  rw [← firstFrom_zero]
  refine ⟨?_, ?_, ?_, tail 0 (zero_le _)⟩ <;> apply vectorScan_eq _ tail 0 (zero_le _) <;> intro chunk size
  · have inverted := movemask_not (chunk.map (· == c))
    rw [length_map, size, map_bne_eq] at inverted
    rw [inverted, firstSet_movemask, findIdx?_lanes]
  · have inverted := movemask_not (chunk.map (· == c))
    have below := movemask_lt (chunk.map (· == c))
    rw [length_map, size] at inverted below
    rw [map_bne_eq] at inverted
    rw [show 0xFFFF = 2 ^ 16 - 1 from rfl, and_two_pow_sub_one_eq_mod,
      show (2 ^ 32 - 1 - movemask (chunk.map (· == c))) % 2 ^ 16 = 2 ^ 16 - 1 - movemask (chunk.map (· == c)) by omega,
      inverted, firstSet_movemask, findIdx?_lanes]
  · rw [firstSet_neonMask _ (by rw [length_map, size]), findIdx?_lanes]

lemma opSimdFindDelim_eq (isa : Isa) (bytes : List UInt8) (d1 d2 : UInt8) :
    opSimdFindDelim isa bytes d1 d2 = some (bytes.findIdx (isDelim d1 d2)) := by
  obtain ⟨avx2, sse2, neon, scalar⟩ := findDelim_eq bytes d1 d2
  unfold opSimdFindDelim
  split_ifs with empty
  · rw [List.length_eq_zero_iff.mp empty]
    rfl
  · cases isa <;> assumption

lemma opSimdCountLeading_eq (isa : Isa) (bytes : List UInt8) (c : UInt8) :
    opSimdCountLeading isa bytes c = some (bytes.findIdx (· != c)) := by
  obtain ⟨avx2, sse2, neon, scalar⟩ := countLeading_eq bytes c
  unfold opSimdCountLeading
  split_ifs with empty
  · rw [List.length_eq_zero_iff.mp empty]
    rfl
  · cases isa <;> assumption

/-- Every load lies inside of the buffer, since there is a result. -/
theorem vector_scans_scalar (isa : Isa) (bytes : List UInt8) (d1 d2 c : UInt8) :
    (opSimdFindDelim isa bytes d1 d2 = opSimdFindDelim .scalar bytes d1 d2 ∧
      (opSimdFindDelim isa bytes d1 d2).isSome) ∧
    (opSimdCountLeading isa bytes c = opSimdCountLeading .scalar bytes c ∧ (opSimdCountLeading isa bytes c).isSome) ∧
    (findDelimAvx2 bytes d1 d2 = findDelimScalar bytes d1 d2 ∧ findDelimSse2 bytes d1 d2 = findDelimScalar bytes d1 d2 ∧
      findDelimNeon bytes d1 d2 = findDelimScalar bytes d1 d2 ∧ (findDelimScalar bytes d1 d2).isSome) ∧
    countLeadingAvx2 bytes c = countLeadingScalar bytes c ∧ countLeadingSse2 bytes c = countLeadingScalar bytes c ∧
      countLeadingNeon bytes c = countLeadingScalar bytes c ∧ (countLeadingScalar bytes c).isSome := by
  obtain ⟨avx2, sse2, neon, scalar⟩ := findDelim_eq bytes d1 d2
  obtain ⟨avx2', sse2', neon', scalar'⟩ := countLeading_eq bytes c
  rw [opSimdFindDelim_eq, opSimdFindDelim_eq, opSimdCountLeading_eq, opSimdCountLeading_eq, avx2, sse2, neon, scalar,
    avx2', sse2', neon', scalar']
  exact ⟨⟨rfl, rfl⟩, ⟨rfl, rfl⟩, ⟨rfl, rfl, rfl, rfl⟩, rfl, rfl, rfl, rfl⟩

end LibOp.Strings

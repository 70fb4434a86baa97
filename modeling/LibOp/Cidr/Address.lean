import Mathlib

namespace LibOp.Cidr

open BitVec Nat

inductive Af where
  | inet
  | inet6
deriving DecidableEq

def Af.octets : Af → Nat
  | .inet => 4
  | .inet6 => 16

abbrev Address (af : Af) := Fin af.octets → BitVec 8

abbrev InAddr := Address .inet

abbrev In6Addr := Address .inet6

def octet {n : Nat} (addr : Fin n → BitVec 8) (i : Nat) : BitVec 8 := if inside : i < n then addr ⟨i, inside⟩ else 0#8

/-- `ntohl` of `s_addr`, on a host of either byte order. -/
def ntohl (addr : InAddr) : BitVec 32 := octet addr 0 ++ octet addr 1 ++ octet addr 2 ++ octet addr 3

def htonl (host : BitVec 32) : InAddr := fun i => host.extractLsb' (24 - 8 * i) 8

/-- `none` is a shift by a negative number, which is undefined. -/
def bit4 (addr : InAddr) (depth : Nat) : Option Bool :=
  if depth ≤ 31 then some ((ntohl addr >>> (31 - depth)) &&& 1#32 == 1#32) else none

/-- `none` is a read behind the address. -/
def bit6 (addr : In6Addr) (depth : Nat) : Option Bool :=
  if depth / 8 < 16 then some ((octet addr (depth / 8) >>> (7 - depth % 8)) &&& 1#8 == 1#8) else none

def addrBit : (af : Af) → Address af → Nat → Option Bool
  | .inet, addr, depth => bit4 addr depth
  | .inet6, addr, depth => bit6 addr depth

def writeBit {w : Nat} (word mask : BitVec w) (bit : Bool) : BitVec w := if bit then word ||| mask else word &&& ~~~mask

def setAddrBit : (af : Af) → Address af → Nat → Bool → Option (Address af)
  | .inet, ss, depth, bit =>
    if depth ≤ 31 then some (htonl (writeBit (ntohl ss) (1#32 <<< (31 - depth)) bit)) else none
  | .inet6, ss, depth, bit =>
    if depth / 8 < 16 then
      some fun i => if i = depth / 8 then writeBit (ss i) (1#8 <<< (7 - depth % 8)) bit else ss i
    else none

/-- The branches of `set_addr_bit` for a bit that is 0. -/
def clrAddrBit (af : Af) (ss : Address af) (depth : Nat) : Option (Address af) := setAddrBit af ss depth false

def Af.width (af : Af) : Nat := 8 * af.octets

def bitAt {n : Nat} (addr : Fin n → BitVec 8) (d : Nat) : Bool := (octet addr (d / 8)).getMsbD (d % 8)

def addrBits (af : Af) (addr : Address af) : List Bool := (List.range af.width).map (bitAt addr)

def addressOf (af : Af) (p : List Bool) : Address af := fun i =>
  let b (j : Nat) := p.getD (8 * i + j) false
  BitVec.ofBoolListBE [b 0, b 1, b 2, b 3, b 4, b 5, b 6, b 7]

section Bits

variable {w : Nat} {d : Nat}

lemma shifted_and_one (x : BitVec w) (inside : d < w) : ((x >>> (w - 1 - d)) &&& 1#w == 1#w) = x.getMsbD d := by
  rw [and_one_eq_setWidth_ofBool_getLsbD, getLsbD_ushiftRight, getMsbD_eq_getLsbD, Nat.add_zero,
    decide_eq_true inside, Bool.true_and]
  cases x.getLsbD (w - 1 - d) with
  | false =>
    have differ : (0#w) ≠ 1#w := by
      intro same
      have bits := congrArg (getLsbD · 0) same
      simp [Nat.ne_zero_of_lt inside] at bits
    simpa using differ
  | true =>
    have same : setWidth w 1#1 = 1#w := eq_of_toNat_eq (by simp)
    simpa using same

lemma getMsbD_mask (k : Nat) (inside : d < w) : (1#w <<< (w - 1 - d)).getMsbD k = decide (k = d) := by
  rw [getMsbD_shiftLeft, getMsbD_one]
  have same : k + (w - 1 - d) = w - 1 ↔ k = d := by omega
  simp [same, decide_eq_true (zero_lt_of_lt inside), Bool.and_true]

lemma getMsbD_writeBit (word : BitVec w) (bit : Bool) (inside : d < w) (there : k < w) :
    (writeBit word (1#w <<< (w - 1 - d)) bit).getMsbD k = if k = d then bit else word.getMsbD k := by
  cases bit with
  | false =>
    simp only [writeBit, Bool.false_eq_true, if_false, getMsbD_and, getMsbD_not, getMsbD_mask k inside]
    by_cases same : k = d <;> simp [same, there]
  | true =>
    simp only [writeBit, if_true, getMsbD_or, getMsbD_mask k inside]
    by_cases same : k = d <;> simp [same]

lemma getMsbD_ntohl (addr : InAddr) (inside : d < 32) : (ntohl addr).getMsbD d = bitAt addr d := by
  have quarter : d / 8 = 0 ∨ d / 8 = 1 ∨ d / 8 = 2 ∨ d / 8 = 3 := by omega
  simp only [ntohl, bitAt, getMsbD_append]
  rcases quarter with h | h | h | h
  · rw [if_neg (by omega), if_neg (by omega), if_neg (by omega), h, show d % 8 = d by omega]
  · rw [if_neg (by omega), if_neg (by omega), if_pos (by omega), h, show d % 8 = d - 8 by omega]
  · rw [if_neg (by omega), if_pos (by omega), h, show d % 8 = d - 16 by omega]
  · rw [if_pos (by omega), h, show d % 8 = d - 24 by omega]

lemma bitAt_htonl (host : BitVec 32) (inside : d < 32) : bitAt (htonl host) d = host.getMsbD d := by
  have here : d / 8 < Af.inet.octets := by
    change d / 8 < 4
    omega
  rw [bitAt, octet, dif_pos here, htonl, getMsbD_extractLsb']
  have low : 24 - 8 * (d / 8) + 8 - d % 8 ≤ 32 := by omega
  have place : 32 - (24 - 8 * (d / 8) + 8 - d % 8) = d := by omega
  rw [decide_eq_true (mod_lt d (by omega)), decide_eq_true low, place, Bool.true_and, Bool.true_and]

end Bits

variable {af : Af}

lemma addrBit_eq (addr : Address af) (inside : d < af.width) : addrBit af addr d = some (bitAt addr d) := by
  cases af with
  | inet =>
    have low : d < 32 := inside
    rw [addrBit, bit4, if_pos (le_of_lt_succ low), ← getMsbD_ntohl addr low]
    exact congrArg some (shifted_and_one (ntohl addr) low)
  | inet6 =>
    have low : d / 8 < 16 := Nat.div_lt_of_lt_mul inside
    rw [addrBit, bit6, if_pos low]
    exact congrArg some (shifted_and_one (octet addr (d / 8)) (mod_lt d (by omega)))

lemma bitAt_setAddrBit (ss : Address af) (inside : d < af.width) (bit : Bool) :
    ∃ ss', setAddrBit af ss d bit = some ss' ∧ ∀ k < af.width, bitAt ss' k = if k = d then bit else bitAt ss k := by
  cases af with
  | inet =>
    have low : d < 32 := inside
    refine ⟨_, if_pos (le_of_lt_succ low), ?_⟩
    intro k there
    rw [bitAt_htonl _ there, ← getMsbD_ntohl ss there]
    exact getMsbD_writeBit (ntohl ss) bit low there
  | inet6 =>
    have low : d / 8 < 16 := Nat.div_lt_of_lt_mul inside
    refine ⟨_, if_pos low, ?_⟩
    intro k there
    have here := Nat.div_lt_of_lt_mul there
    have same : octet ss (k / 8) = ss ⟨k / 8, here⟩ := dif_pos here
    rw [bitAt, bitAt, same, octet, dif_pos here]
    dsimp only
    split
    next equal =>
      have whole : k = d ↔ k % 8 = d % 8 := by omega
      simp only [whole]
      exact getMsbD_writeBit (ss ⟨k / 8, here⟩) bit (mod_lt d (by omega)) (mod_lt k (by omega))
    next other => rw [if_neg (fun equal => other (congrArg (· / 8) equal))]

lemma address_ext {addr addr' : Address af} (same : ∀ k < af.width, bitAt addr k = bitAt addr' k) : addr = addr' := by
  funext i
  apply eq_of_getMsbD_eq
  intro j inside
  have place : (8 * i.val + j) / 8 = i := by omega
  have offset : (8 * i.val + j) % 8 = j := by omega
  have bits := same (8 * i + j) (by have := i.isLt; unfold Af.width; omega)
  simpa [bitAt, octet, place, offset] using bits

lemma bitAt_addressOf (p : List Bool) (inside : k < af.width) : bitAt (addressOf af p) k = p.getD k false := by
  have here := Nat.div_lt_of_lt_mul inside
  rw [bitAt, octet, dif_pos here, addressOf]
  refine getMsbD_ofBoolListBE.trans ?_
  rw [show p.getD k false = p.getD (8 * (k / 8) + k % 8) false by rw [div_add_mod]]
  have offset : k % 8 = 0 ∨ k % 8 = 1 ∨ k % 8 = 2 ∨ k % 8 = 3 ∨ k % 8 = 4 ∨ k % 8 = 5 ∨ k % 8 = 6 ∨ k % 8 = 7 := by
    omega
  rcases offset with h | h | h | h | h | h | h | h <;> rw [h] <;> rfl

variable {p : List Bool}

lemma address_ext_of_prefix (same : ∀ k < af.width, bitAt addr k = p.getD k false) : addr = addressOf af p := by
  apply address_ext
  intro k inside
  rw [same k inside, bitAt_addressOf p inside]

lemma addressOf_nil : (fun _ => 0#8 : Address af) = addressOf af [] := by
  apply address_ext_of_prefix
  intro k _
  rw [bitAt, octet]
  split <;> simp

lemma getD_concat (p : List Bool) (bit : Bool) (k : Nat) :
    (p ++ [bit]).getD k false = if k = p.length then bit else p.getD k false := by
  grind

lemma setAddrBit_addressOf (short : p.length < af.width) (bit : Bool) :
    setAddrBit af (addressOf af p) p.length bit = some (addressOf af (p ++ [bit])) := by
  obtain ⟨ss, written, bits⟩ := bitAt_setAddrBit (addressOf af p) short bit
  rw [written]
  apply congrArg some
  apply address_ext_of_prefix
  intro k inside
  rw [bits k inside, bitAt_addressOf p inside, getD_concat]

lemma clrAddrBit_addressOf (short : p.length < af.width) (bit : Bool) :
    clrAddrBit af (addressOf af (p ++ [bit])) p.length = some (addressOf af p) := by
  obtain ⟨ss, written, bits⟩ := bitAt_setAddrBit (addressOf af (p ++ [bit])) short false
  rw [clrAddrBit, written]
  apply congrArg some
  apply address_ext_of_prefix
  intro k inside
  rw [bits k inside, bitAt_addressOf _ inside, getD_concat]
  split
  next last => simp [last]
  next => rfl

lemma addrBits_addressOf (short : p.length ≤ af.width) :
    addrBits af (addressOf af p) = p ++ List.replicate (af.width - p.length) false := by
  apply List.ext_getElem
  · simp [addrBits, short]
  · intro k inside there
    have low : k < af.width := by simpa [addrBits] using inside
    simp only [addrBits, List.getElem_map, List.getElem_range, bitAt_addressOf p low]
    grind

end LibOp.Cidr

import LibOp.Base64.Codec
import LibOp.Foundation.WordBits

open LibOp.Foundation List UInt8

namespace LibOp.Base64

def sextets : List UInt8 → List Nat
  | a :: b :: c :: rest =>
    a.toNat / 4 :: (a.toNat % 4 * 16 + b.toNat / 16) :: (b.toNat % 16 * 4 + c.toNat / 64) :: c.toNat % 64 :: sextets rest
  | [a, b] => [a.toNat / 4, a.toNat % 4 * 16 + b.toNat / 16, b.toNat % 16 * 4]
  | [a] => [a.toNat / 4, a.toNat % 4 * 16]
  | [] => []

def octets : List Nat → List UInt8
  | a :: b :: c :: d :: rest =>
    ofNat (a * 4 + b / 16) :: ofNat (b % 16 * 16 + c / 4) :: ofNat (c % 4 * 64 + d) :: octets rest
  | [a, b, c] => [ofNat (a * 4 + b / 16), ofNat (b % 16 * 16 + c / 4)]
  | [a, b] => [ofNat (a * 4 + b / 16)]
  | [_] => []
  | [] => []

lemma ofNat_eq (value : n = b.toNat) : UInt8.ofNat n = b := by
  rw [value, UInt8.ofNat_toNat]

lemma threes_induction {α : Type} {motive : List α → Prop} (nil : motive []) (one : ∀ a, motive [a])
    (two : ∀ a b, motive [a, b]) (three : ∀ a b c rest, motive rest → motive (a :: b :: c :: rest)) (l : List α) :
    motive l := by
  induction l using WellFounded.induction (measure List.length).wf with
  | h l ih =>
    rcases l with _ | ⟨a, _ | ⟨b, _ | ⟨c, rest⟩⟩⟩
    · exact nil
    · exact one a
    · exact two a b
    · apply three
      apply ih
      change rest.length < rest.length + 3
      omega

variable (x : List UInt8)

lemma octets_sextets : octets (sextets x) = x := by
  induction x using threes_induction with
  | nil => rfl
  | one a =>
    rw [sextets, octets, ofNat_eq (b := a)]
    omega
  | two a b =>
    have limits := And.intro a.toNat_lt b.toNat_lt
    rw [sextets, octets, ofNat_eq (b := a), ofNat_eq (b := b)] <;> omega
  | three a b c rest ih =>
    have limits := And.intro a.toNat_lt (And.intro b.toNat_lt c.toNat_lt)
    rw [sextets, octets, ih, ofNat_eq (b := a), ofNat_eq (b := b), ofNat_eq (b := c)] <;> omega

lemma sextets_lt : ∀ v ∈ sextets x, v < 64 := by
  induction x using threes_induction with
  | nil => exact forall_mem_nil _
  | one a =>
    have limit := a.toNat_lt
    simp only [sextets, forall_mem_cons]
    refine ⟨?_, ?_, forall_mem_nil _⟩ <;> omega
  | two a b =>
    have limits := And.intro a.toNat_lt b.toNat_lt
    simp only [sextets, forall_mem_cons]
    refine ⟨?_, ?_, ?_, forall_mem_nil _⟩ <;> omega
  | three a b c rest ih =>
    have limits := And.intro a.toNat_lt (And.intro b.toNat_lt c.toNat_lt)
    simp only [sextets, forall_mem_cons]
    refine ⟨?_, ?_, ?_, ?_, ih⟩ <;> omega

lemma length_sextets : (sextets x).length = (4 * x.length + 2) / 3 := by
  induction x using threes_induction with
  | nil => rfl
  | one a | two a b => simp [sextets]
  | three a b c rest ih =>
    simp only [sextets, length_cons, ih]
    omega

lemma length_octets (digits : List Nat) : (octets digits).length = 3 * digits.length / 4 := by
  fun_induction octets digits with
  | case1 a b c d rest ih =>
    simp only [length_cons, ih]
    omega
  | case2 | case3 | case4 => simp
  | case5 => rfl

set_option maxRecDepth 4000 in
lemma decodeDigit_encodeDigit (small : v < 64) : decodeDigit (encodeDigit v) = v := by
  have table : ∀ v < 64, decodeDigit (encodeDigit v) = v := by decide
  exact table v small

set_option maxRecDepth 4000 in
lemma b64Dec_entries : ∀ entry ∈ b64Dec.zipIdx,
    entry.1 < 0 ∨ entry.1 < 64 ∧ encodeDigit entry.1.toNat = ofNat entry.2 := by
  decide

set_option maxRecDepth 4000 in
lemma length_b64Dec : b64Dec.length = 256 := rfl

lemma decodeDigit_cases (c : UInt8) :
    decodeDigit c < 0 ∨ decodeDigit c < 64 ∧ encodeDigit (decodeDigit c).toNat = c := by
  have inside : c.toNat < b64Dec.length := by
    rw [length_b64Dec]
    exact c.toNat_lt
  have entry := b64Dec_entries (b64Dec[c.toNat], c.toNat) (by
    rw [mem_zipIdx_iff_getElem?]
    exact getElem?_eq_getElem inside)
  have value := getD_eq_getElem b64Dec (-1) inside
  rwa [← value, UInt8.ofNat_toNat] at entry

lemma encodeDigit_mem (small : v < 64) : encodeDigit v ∈ b64Enc := by
  have inside : v < b64Enc.length := small
  rw [encodeDigit, getD_eq_getElem b64Enc 0 inside]
  exact getElem_mem inside

lemma exists_of_mem (digit : c ∈ b64Enc) : ∃ v < 64, c = encodeDigit v := by
  obtain ⟨v, inside, rfl⟩ := getElem_of_mem digit
  exact ⟨v, inside, (getD_eq_getElem b64Enc 0 inside).symm⟩

lemma decodeDigit_nonneg_iff (c : UInt8) : 0 ≤ decodeDigit c ↔ c ∈ b64Enc := by
  constructor
  · intro nonneg
    rcases decodeDigit_cases c with negative | ⟨small, same⟩
    · omega
    · rw [← same]
      exact encodeDigit_mem (by omega)
  · intro digit
    obtain ⟨v, small, rfl⟩ := exists_of_mem digit
    rw [decodeDigit_encodeDigit small]
    exact Int.natCast_nonneg v

lemma zero_not_mem : (0 : UInt8) ∉ b64Enc := by
  rw [← decodeDigit_nonneg_iff]
  decide

lemma b64Pad_not_mem : b64Pad ∉ b64Enc := by
  rw [← decodeDigit_nonneg_iff]
  decide

def padding (len : Nat) : List UInt8 := List.replicate ((3 - len % 3) % 3) b64Pad

lemma highBits (k : Nat) (a : UInt8) : a.toNat >>> k = a.toNat / 2 ^ k := Nat.shiftRight_eq_div_pow a.toNat k

lemma secondDigit (a b : UInt8) : (a.toNat &&& 0x03) <<< 4 ||| b.toNat >>> 4 = a.toNat % 4 * 16 + b.toNat / 16 := by
  have limit := b.toNat_lt
  rw [highBits 4, lowBits 0x03 2 rfl, shift_or 4 (by omega)]
  rfl

lemma thirdDigit (b c : UInt8) : (b.toNat &&& 0x0f) <<< 2 ||| c.toNat >>> 6 = b.toNat % 16 * 4 + c.toNat / 64 := by
  have limit := c.toNat_lt
  rw [highBits 6, lowBits 0x0f 4 rfl, shift_or 2 (by omega)]
  rfl

lemma encodeLoop_eq : encodeLoop x = (sextets x).map encodeDigit ++ padding x.length := by
  induction x using threes_induction with
  | nil => rfl
  | one a =>
    rw [encodeLoop, highBits 2, lowBits 0x03 2 rfl, Nat.shiftLeft_eq]
    rfl
  | two a b =>
    rw [encodeLoop, secondDigit, highBits 2, lowBits 0x0f 4 rfl, Nat.shiftLeft_eq]
    rfl
  | three a b c rest ih =>
    have padded : padding (a :: b :: c :: rest).length = padding rest.length := by
      simp only [padding, length_cons]
      congr 2
      omega
    rw [encodeLoop, secondDigit, thirdDigit, highBits 2, lowBits 0x3f 6 rfl, ih, padded]
    rfl

lemma length_encodeLoop : (encodeLoop x).length = 4 * ((x.length + 2) / 3) := by
  rw [encodeLoop_eq, length_append, length_map, length_sextets, padding, length_replicate]
  omega

end LibOp.Base64

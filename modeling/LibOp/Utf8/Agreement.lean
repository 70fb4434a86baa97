import LibOp.Utf8.Text
import LibOp.Websocket.State

open LibOp.Foundation LibOp.Websocket List UInt8 Nat

namespace LibOp.Utf8

set_option maxRecDepth 4000 in
lemma isContinuation_iff (b : UInt8) : isContinuation b = true ↔ IsContinuation b := by
  have table : ∀ n < 256, (n &&& 0xC0 = 0x80 ↔ 128 ≤ n ∧ n ≤ 191) := by decide
  rw [isContinuation, beq_iff_eq, ← UInt8.toNat_inj, UInt8.toNat_and]
  exact table b.toNat b.toNat_lt

set_option maxRecDepth 4000 in
lemma leadBits_ne_zero {c : UInt8} (lead : 0xC2 ≤ c.toNat ∧ c.toNat < 0xE0) : (c &&& 0x1E != 0) = true := by
  have table : ∀ n < 256, 0xC2 ≤ n ∧ n < 0xE0 → n &&& 0x1E ≠ 0 := by decide
  rw [bne_iff_ne, ne_eq, ← UInt8.toNat_inj, UInt8.toNat_and]
  exact table c.toNat c.toNat_lt lead

lemma mask_continuation (range : IsContinuation b) : b.toNat &&& 0x3F = b.toNat - 128 := by
  have bits : b.toNat &&& 0x3F = b.toNat % 2 ^ 6 := and_two_pow_sub_one_eq_mod b.toNat 6
  unfold IsContinuation at range
  omega

lemma threeBits (second : y < 64) (third : z < 64) : x <<< 12 ||| y <<< 6 ||| z = (x * 64 + y) * 64 + z := by
  rw [show x <<< 12 = (x <<< 6) <<< 6 from by rw [← Nat.shiftLeft_add], ← Nat.shiftLeft_or_distrib, shift_or 6 third,
    shift_or 6 second]
  rfl

lemma fourBits (second : y < 64) (third : z < 64) (fourth : w < 64) :
    x <<< 18 ||| y <<< 12 ||| z <<< 6 ||| w = ((x * 64 + y) * 64 + z) * 64 + w := by
  rw [show x <<< 18 = (x <<< 12) <<< 6 from by rw [← Nat.shiftLeft_add],
    show y <<< 12 = (y <<< 6) <<< 6 from by rw [← Nat.shiftLeft_add], ← Nat.shiftLeft_or_distrib,
    ← shiftLeft_or_distrib, shift_or 6 fourth, threeBits second third]
  rfl

lemma threeByteValue {c b₁ b₂ : UInt8} (lead : 0xE0 ≤ c.toNat ∧ c.toNat < 0xF0) (second : IsContinuation b₁)
    (third : IsContinuation b₂) :
    (c.toNat &&& 0x0F) <<< 12 ||| (b₁.toNat &&& 0x3F) <<< 6 ||| (b₂.toNat &&& 0x3F) =
      ((c.toNat - 0xE0) * 64 + (b₁.toNat - 128)) * 64 + (b₂.toNat - 128) := by
  have bits : c.toNat &&& 0x0F = c.toNat % 2 ^ 4 := and_two_pow_sub_one_eq_mod c.toNat 4
  have head : c.toNat &&& 0x0F = c.toNat - 0xE0 := by omega
  rw [mask_continuation second, mask_continuation third, head, threeBits]
  all_goals
    unfold IsContinuation at second third
    omega

lemma fourByteValue {c b₁ b₂ b₃ : UInt8} (lead : 0xF0 ≤ c.toNat ∧ c.toNat < 0xF8) (second : IsContinuation b₁)
    (third : IsContinuation b₂) (fourth : IsContinuation b₃) :
    (c.toNat &&& 0x07) <<< 18 ||| (b₁.toNat &&& 0x3F) <<< 12 ||| (b₂.toNat &&& 0x3F) <<< 6 ||| (b₃.toNat &&& 0x3F) =
      (((c.toNat - 0xF0) * 64 + (b₁.toNat - 128)) * 64 + (b₂.toNat - 128)) * 64 + (b₃.toNat - 128) := by
  have bits : c.toNat &&& 0x07 = c.toNat % 2 ^ 3 := and_two_pow_sub_one_eq_mod c.toNat 3
  have head : c.toNat &&& 0x07 = c.toNat - 0xF0 := by omega
  rw [mask_continuation second, mask_continuation third, mask_continuation fourth, head, fourBits]
  all_goals
    unfold IsContinuation at second third fourth
    omega

variable {word : List UInt8}

lemma wsIsValidUtf8_sequence {v : Nat} (sequence : Sequence word v) (rest : List UInt8) :
    wsIsValidUtf8 (word ++ rest) = wsIsValidUtf8 rest := by
  have scalar := sequence.isValidChar
  cases sequence with
  | one value ascii =>
    rw [cons_append, nil_append, wsIsValidUtf8.eq_def]
    simp only [lt_iff_toNat_lt, reduceToNat]
    rw [if_pos (by omega)]
  | two lead second value shortest =>
    simp only [cons_append, nil_append, wsIsValidUtf8, lt_iff_toNat_lt, reduceToNat]
    rw [if_neg (by omega), if_neg (by omega), if_pos (by omega), (isContinuation_iff _).mpr second,
      leadBits_ne_zero (by omega), Bool.true_and, Bool.true_and]
  | three lead second third value shortest =>
    simp only [cons_append, nil_append, wsIsValidUtf8, lt_iff_toNat_lt, reduceToNat]
    rw [if_neg (by omega), if_neg (by omega), if_neg (by omega), if_pos (by omega), (isContinuation_iff _).mpr second,
      (isContinuation_iff _).mpr third, threeByteValue lead second third, ← value,
      decide_eq_false (show ¬v < 2048 by omega), decide_eq_false (show ¬(55296 ≤ v ∧ v ≤ 57343) by omega)]
    rfl
  | four lead second third fourth value shortest =>
    simp only [cons_append, nil_append, wsIsValidUtf8, lt_iff_toNat_lt, reduceToNat]
    rw [if_neg (by omega), if_neg (by omega), if_neg (by omega), if_neg (by omega), if_pos (by omega),
      (isContinuation_iff _).mpr second, (isContinuation_iff _).mpr third, (isContinuation_iff _).mpr fourth,
      fourByteValue lead second third fourth, ← value, decide_eq_false (show ¬(v < 65536 ∨ v > 1114111) by omega)]
    rfl

variable {l : List UInt8}

lemma sequence_of_wsIsValidUtf8 (valid : wsIsValidUtf8 (b :: l) = true) :
    ∃ word v rest, Sequence word v ∧ b :: l = word ++ rest ∧ wsIsValidUtf8 rest = true := by
  rw [wsIsValidUtf8.eq_def] at valid
  simp only [lt_iff_toNat_lt, reduceToNat] at valid
  split_ifs at valid with ascii bare two three four
  · exact ⟨[b], _, l, .one rfl ascii, rfl, valid⟩
  · split at valid
    next b₁ rest =>
      simp only [Bool.and_eq_true, isContinuation_iff] at valid
      obtain ⟨⟨second, -⟩, later⟩ := valid
      exact ⟨[b, b₁], _, rest, .two (by omega) second rfl (by omega), rfl, later⟩
    · cases valid
  · split at valid
    next b₁ b₂ rest =>
      simp only [Bool.and_eq_true, isContinuation_iff, Bool.not_eq_true', decide_eq_false_iff_not] at valid
      obtain ⟨⟨⟨⟨second, third⟩, shortest⟩, scalar⟩, later⟩ := valid
      rw [threeByteValue (by omega) second third] at shortest scalar
      have limits := And.intro second third
      unfold IsContinuation at limits
      refine ⟨[b, b₁, b₂], _, rest, .three (by omega) second third rfl (by omega) ?_, rfl, later⟩
      omega
    · cases valid
  · split at valid
    next b₁ b₂ b₃ rest =>
      simp only [Bool.and_eq_true, isContinuation_iff, Bool.not_eq_true', decide_eq_false_iff_not] at valid
      obtain ⟨⟨⟨⟨second, third⟩, fourth⟩, scalar⟩, later⟩ := valid
      rw [fourByteValue (by omega) second third fourth] at scalar
      refine ⟨[b, b₁, b₂, b₃], _, rest, .four (by omega) second third fourth rfl (by omega) ?_, rfl, later⟩
      omega
    · cases valid

lemma Sequence.encode (sequence : Sequence word v) : ∃ c : Char, word = utf8Code.encode c := by
  have value : (Char.ofNatAux v sequence.isValidChar).toNat = v := rfl
  rw [← value] at sequence
  exact ⟨_, sequence.eq_encode⟩

lemma isUtf8_of_wsIsValidUtf8 (reading : utf8Code.Segments l segments) (valid : wsIsValidUtf8 l = true) : IsUtf8 l := by
  induction reading with
  | done => exact ⟨[], rfl⟩
  | word c later ih =>
    rw [utf8Code, wsIsValidUtf8_sequence (sequence_encode c)] at valid
    obtain ⟨text, rfl⟩ := ih valid
    exact ⟨c :: text, rfl⟩
  | skip bad =>
    obtain ⟨word, v, rest, sequence, whole, -⟩ := sequence_of_wsIsValidUtf8 valid
    obtain ⟨c, rfl⟩ := sequence.encode
    exact absurd whole (bad c rest)

lemma wsIsValidUtf8_eq_true : wsIsValidUtf8 l = true ↔ IsUtf8 l := by
  constructor
  · obtain ⟨segments, reading⟩ : ∃ segments, utf8Code.Segments l segments := PrefixCode.exists_segments l
    exact isUtf8_of_wsIsValidUtf8 reading
  · rintro ⟨text, rfl⟩
    induction text with
    | nil => rfl
    | cons c text ih => rw [flatMap_cons, wsIsValidUtf8_sequence (sequence_encode c), ih]

theorem wsIsValidUtf8_eq_opUtf8Valid (buf : List UInt8) : wsIsValidUtf8 buf = opUtf8Valid buf := by
  rw [Bool.eq_iff_iff, wsIsValidUtf8_eq_true, opUtf8Valid_eq_true]

end LibOp.Utf8

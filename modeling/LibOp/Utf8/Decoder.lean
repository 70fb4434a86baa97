import LibOp.Foundation.PrefixCode
import LibOp.Foundation.WordBits

open LibOp.Foundation List String UInt8

namespace LibOp.Utf8

/-- One more byte of a sequence: `(codepoint << 6) | (c & 0x3F)`. -/
def appendBits (codepoint : UInt32) (c : UInt8) : UInt32 := (codepoint <<< 6) ||| (c &&& 0x3F).toUInt32

def continuationBytes : (extra : Nat) → (codepoint : UInt32) → List UInt8 → Option (UInt32 × List UInt8)
  | 0, codepoint, p => some (codepoint, p)
  | _ + 1, _, [] => none
  | extra + 1, codepoint, c :: p =>
    if c < 0x80 ∨ c > 0xBF then none else continuationBytes extra (appendBits codepoint c) p

def checkRange (extra : Nat) (codepoint : UInt32) : Bool :=
  if extra = 2 ∧ codepoint < 0x0800 then false
  else if extra = 3 ∧ codepoint < 0x10000 then false
  else if codepoint ≥ 0xD800 ∧ codepoint ≤ 0xDFFF then false
  else if codepoint > 0x10FFFF then false
  else true

def decodeSequence (extra : Nat) (codepoint : UInt32) (p : List UInt8) : Option (UInt32 × List UInt8) :=
  match continuationBytes extra codepoint p with
  | none => none
  | some (codepoint, p) => if checkRange extra codepoint then some (codepoint, p) else none

/-- The list is what is left up to `end`; the result has the code point and what is left after it. -/
def utf8DecodeOne : List UInt8 → Option (UInt32 × List UInt8)
  | [] => none
  | b :: p =>
    if b < 0x80 then some (b.toUInt32, p)
    else if b < 0xC2 then none
    else if b < 0xE0 then decodeSequence 1 (b &&& 0x1F).toUInt32 p
    else if b < 0xF0 then decodeSequence 2 (b &&& 0x0F).toUInt32 p
    else if b ≤ 0xF4 then decodeSequence 3 (b &&& 0x07).toUInt32 p
    else none

variable {c : UInt8}

lemma appendBits_toNat (codepoint : UInt32) (small : codepoint.toNat < 2 ^ 20) (low : 128 ≤ c.toNat)
    (high : c.toNat ≤ 191) : (appendBits codepoint c).toNat = codepoint.toNat * 64 + (c.toNat - 128) := by
  have mask : c.toNat &&& 63 = c.toNat - 128 := by
    rw [show 63 = 2 ^ 6 - 1 from rfl, Nat.and_two_pow_sub_one_eq_mod]
    omega
  have shift : codepoint.toNat <<< 6 % 2 ^ 32 = codepoint.toNat <<< 6 := by omega
  have disjoint : c.toNat - 128 < 2 ^ 6 := by omega
  calc (appendBits codepoint c).toNat
      = codepoint.toNat <<< 6 % 2 ^ 32 ||| (c.toNat &&& 63) := by simp [appendBits]
    _ = codepoint.toNat <<< 6 + (c.toNat - 128) := by
        rw [mask, shift, ← Nat.shiftLeft_add_eq_or_of_lt disjoint]
    _ = codepoint.toNat * 64 + (c.toNat - 128) := by rw [Nat.shiftLeft_eq]

def tailValue (lead : Nat) (tail : List UInt8) : Nat := tail.foldl (fun value c => value * 64 + (c.toNat - 128)) lead

def IsContinuation (c : UInt8) : Prop := 128 ≤ c.toNat ∧ c.toNat ≤ 191

lemma outside_iff : c < 0x80 ∨ c > 0xBF ↔ ¬IsContinuation c := by
  simp only [IsContinuation, lt_iff_toNat_lt, gt_iff_lt, reduceToNat]
  omega

lemma tailValue_cons (lead : Nat) (c : UInt8) (tail : List UInt8) :
    tailValue lead (c :: tail) = tailValue (lead * 64 + (c.toNat - 128)) tail := by
  simp [tailValue, foldl_cons]

structure IsTail (extra : Nat) (tail : List UInt8) : Prop where
  length : tail.length = extra
  range : ∀ c ∈ tail, IsContinuation c

variable {extra : Nat} {rest l : List UInt8} {a : UInt8} {tail : List UInt8}

lemma isTail_cons : IsTail (extra + 1) (c :: tail) ↔ IsContinuation c ∧ IsTail extra tail := by
  constructor
  · intro shape
    have range := List.forall_mem_cons.mp shape.range
    exact ⟨range.1, Nat.succ.inj shape.length, range.2⟩
  · intro shape
    exact ⟨congrArg Nat.succ shape.2.length, List.forall_mem_cons.mpr ⟨shape.1, shape.2.range⟩⟩

lemma IsTail.ne_nil (shape : IsTail (extra + 1) tail) : tail ≠ [] := by
  rintro rfl
  cases shape.length

lemma continuationBytes_eq_some (extra : Nat) (codepoint : UInt32) (p : List UInt8) (cp : UInt32)
    (rest : List UInt8) (small : (codepoint.toNat + 1) * 64 ^ extra ≤ 2 ^ 26) :
    continuationBytes extra codepoint p = some (cp, rest) ↔
      ∃ tail, IsTail extra tail ∧ p = tail ++ rest ∧ cp.toNat = tailValue codepoint.toNat tail := by
  induction extra generalizing codepoint p with
  | zero =>
    simp only [continuationBytes, Option.some.injEq, Prod.mk.injEq]
    constructor
    · rintro ⟨rfl, rfl⟩
      exact ⟨[], ⟨rfl, by simp⟩, rfl, rfl⟩
    · rintro ⟨tail, shape, rfl, value⟩
      obtain rfl := List.length_eq_zero_iff.mp shape.length
      exact ⟨(UInt32.toNat_inj.mp value).symm, rfl⟩
  | succ extra ih =>
    have enough : codepoint.toNat + 1 ≤ 2 ^ 20 := by
      have factor : 64 ≤ 64 ^ (extra + 1) := Nat.le_self_pow (Nat.succ_ne_zero extra) 64
      have product := Nat.mul_le_mul_left (codepoint.toNat + 1) factor
      omega
    cases p with
    | nil =>
      apply iff_of_false (by simp [continuationBytes])
      rintro ⟨tail, shape, whole, -⟩
      exact shape.ne_nil (List.append_eq_nil_iff.mp whole.symm).1
    | cons c p =>
      by_cases range : IsContinuation c
      · have value := appendBits_toNat codepoint enough range.1 range.2
        have later := ih (appendBits codepoint c) p (by
          rw [pow_succ', ← mul_assoc] at small
          apply le_trans (Nat.mul_le_mul_right _ _) small
          have := range.2
          omega)
        rw [continuationBytes, if_neg (fun outside => outside_iff.mp outside range), later, value]
        constructor
        · rintro ⟨tail, shape, rfl, total⟩
          rw [← tailValue_cons] at total
          exact ⟨c :: tail, isTail_cons.mpr ⟨range, shape⟩, rfl, total⟩
        · rintro ⟨tail, shape, whole, total⟩
          cases tail with
          | nil => exact absurd rfl shape.ne_nil
          | cons d tail =>
            cases whole
            rw [tailValue_cons] at total
            exact ⟨tail, (isTail_cons.mp shape).2, rfl, total⟩
      · rw [continuationBytes, if_pos (outside_iff.mpr range)]
        apply iff_of_false (by simp)
        rintro ⟨tail, shape, whole, -⟩
        cases tail with
        | nil => exact shape.ne_nil rfl
        | cons d tail =>
          cases whole
          exact range (isTail_cons.mp shape).1

lemma decodeSequence_eq_some (extra : Nat) (codepoint : UInt32) (p : List UInt8) (cp : UInt32) (rest : List UInt8) :
    decodeSequence extra codepoint p = some (cp, rest) ↔
      continuationBytes extra codepoint p = some (cp, rest) ∧ checkRange extra cp = true := by
  unfold decodeSequence
  rcases continuationBytes extra codepoint p with _ | ⟨value, left⟩
  · simp
  · by_cases valid : checkRange extra value = true
    · simp only [valid, if_true, Option.some.injEq, Prod.mk.injEq]
      constructor
      · rintro ⟨rfl, rfl⟩
        exact ⟨⟨rfl, rfl⟩, valid⟩
      · exact And.left
    · simp only [valid, Option.some.injEq, Prod.mk.injEq]
      constructor
      · intro h
        cases h
      · rintro ⟨⟨rfl, rfl⟩, other⟩
        exact absurd other valid

lemma checkRange_eq_true (extra : Nat) (codepoint : UInt32) : checkRange extra codepoint = true ↔
      (extra = 2 → 0x800 ≤ codepoint.toNat) ∧ (extra = 3 → 0x10000 ≤ codepoint.toNat) ∧
        codepoint.toNat.isValidChar := by
  simp only [checkRange, UInt32.lt_iff_toNat_lt, UInt32.le_iff_toNat_le, UInt32.reduceToNat, ge_iff_le, gt_iff_lt,
    Nat.isValidChar]
  split_ifs <;> simp <;> omega

/-- The rows of the table in section 3 of RFC 3629 with their code points. -/
inductive Sequence : List UInt8 → Nat → Prop where
  | one {a : UInt8} {v : Nat} (value : v = a.toNat) (ascii : v < 0x80) : Sequence [a] v
  | two {a b : UInt8} {v : Nat} (lead : 0xC0 ≤ a.toNat ∧ a.toNat < 0xE0) (second : 128 ≤ b.toNat ∧ b.toNat ≤ 191)
      (value : v = (a.toNat - 0xC0) * 64 + (b.toNat - 128)) (shortest : 0x80 ≤ v) : Sequence [a, b] v
  | three {a b c : UInt8} {v : Nat} (lead : 0xE0 ≤ a.toNat ∧ a.toNat < 0xF0)
      (second : 128 ≤ b.toNat ∧ b.toNat ≤ 191) (third : 128 ≤ c.toNat ∧ c.toNat ≤ 191)
      (value : v = ((a.toNat - 0xE0) * 64 + (b.toNat - 128)) * 64 + (c.toNat - 128)) (shortest : 0x800 ≤ v)
      (scalar : v.isValidChar) : Sequence [a, b, c] v
  | four {a b c d : UInt8} {v : Nat} (lead : 0xF0 ≤ a.toNat ∧ a.toNat < 0xF8)
      (second : 128 ≤ b.toNat ∧ b.toNat ≤ 191) (third : 128 ≤ c.toNat ∧ c.toNat ≤ 191)
      (fourth : 128 ≤ d.toNat ∧ d.toNat ≤ 191)
      (value : v = (((a.toNat - 0xF0) * 64 + (b.toNat - 128)) * 64 + (c.toNat - 128)) * 64 + (d.toNat - 128))
      (shortest : 0x10000 ≤ v) (scalar : v.isValidChar) : Sequence [a, b, c, d] v

variable {word : List UInt8}

lemma Sequence.isValidChar (sequence : Sequence word v) : v.isValidChar := by
  cases sequence with
  | one value ascii | two lead second value => exact .inl (by omega)
  | three _ _ _ _ _ scalar | four _ _ _ _ _ _ scalar => exact scalar

lemma eq_ofNat (value : b.toNat = n) : b = UInt8.ofNat n := by
  rw [← value, UInt8.ofNat_toNat]

lemma toNat_ofNat (small : n < 256) : (ofNat n).toNat = n := toNat_ofNat_of_lt' small

lemma sequence_encode (c : Char) : Sequence (utf8EncodeChar c) c.toNat := by
  have scalar : c.toNat.isValidChar := c.valid
  have limit : c.toNat < 0x110000 := scalar.elim (by omega) (by omega)
  simp only [utf8EncodeChar, Char.toNat] at limit scalar ⊢
  split_ifs with one two three
  · exact .one (by rw [toNat_ofNat (by omega)]) (by omega)
  · apply Sequence.two
    all_goals first | omega | (simp (disch := omega) only [toNat_ofNat]; omega)
  · apply Sequence.three
    all_goals first | exact scalar | omega | (simp (disch := omega) only [toNat_ofNat]; omega)
  · apply Sequence.four
    all_goals first | exact scalar | omega | (simp (disch := omega) only [toNat_ofNat]; omega)

lemma Sequence.eq_encode {c : Char} (sequence : Sequence word c.toNat) : word = utf8EncodeChar c := by
  simp only [utf8EncodeChar, Char.toNat] at sequence ⊢
  generalize c.val.toNat = v at sequence ⊢
  cases sequence with
  | one value ascii => rw [if_pos (by omega), eq_ofNat value.symm]
  | two lead second value shortest => rw [if_neg (by omega), if_pos (by omega), ← eq_ofNat, ← eq_ofNat] <;> omega
  | three lead second third value shortest scalar =>
    rw [if_neg (by omega), if_neg (by omega), if_pos (by omega), ← eq_ofNat, ← eq_ofNat, ← eq_ofNat] <;> omega
  | four lead second third fourth value shortest scalar =>
    rw [if_neg (by omega), if_neg (by omega), if_neg (by omega), ← eq_ofNat, ← eq_ofNat, ← eq_ofNat,
      ← eq_ofNat] <;> omega

lemma sequence_iff_encode (word : List UInt8) (c : Char) : Sequence word c.toNat ↔ word = utf8EncodeChar c := by
  constructor
  · exact Sequence.eq_encode
  · rintro rfl
    exact sequence_encode c

lemma leadBits (a mask : UInt8) (bits : Nat) (ones : mask.toNat = 2 ^ bits - 1) :
    (a &&& mask).toUInt32.toNat = a.toNat % 2 ^ bits := by
  rw [UInt8.toNat_toUInt32, UInt8.toNat_and, lowBits _ _ ones]

variable {cp : UInt32}

lemma decodeSequence_iff (small : (codepoint.toNat + 1) * 64 ^ extra ≤ 2 ^ 26) :
    decodeSequence extra codepoint p = some (cp, rest) ↔
      ∃ tail, (IsTail extra tail ∧ p = tail ++ rest ∧ cp.toNat = tailValue codepoint.toNat tail) ∧
        (extra = 2 → 0x800 ≤ cp.toNat) ∧ (extra = 3 → 0x10000 ≤ cp.toNat) ∧ cp.toNat.isValidChar := by
  rw [decodeSequence_eq_some, continuationBytes_eq_some _ _ _ _ _ small, checkRange_eq_true]
  exact exists_and_right.symm

lemma lead_two (lead : 0xC0 ≤ a.toNat ∧ a.toNat < 0xE0) : (a &&& 0x1F).toUInt32.toNat = a.toNat - 0xC0 := by
  rw [leadBits a 0x1F 5 rfl]
  omega

lemma lead_three (lead : 0xE0 ≤ a.toNat ∧ a.toNat < 0xF0) : (a &&& 0x0F).toUInt32.toNat = a.toNat - 0xE0 := by
  rw [leadBits a 0x0F 4 rfl]
  omega

lemma lead_four (lead : 0xF0 ≤ a.toNat ∧ a.toNat < 0xF8) : (a &&& 0x07).toUInt32.toNat = a.toNat - 0xF0 := by
  rw [leadBits a 0x07 3 rfl]
  omega

lemma sequence_of_utf8DecodeOne (decoded : utf8DecodeOne l = some (cp, rest)) :
    ∃ word, Sequence word cp.toNat ∧ l = word ++ rest := by
  cases l with
  | nil => cases decoded
  | cons a p =>
    simp only [utf8DecodeOne, lt_iff_toNat_lt, le_iff_toNat_le, reduceToNat] at decoded
    split_ifs at decoded with ascii bare two three four
    · cases decoded
      exact ⟨[a], .one (by simp) (by simpa using ascii), rfl⟩
    · have lead := lead_two (a := a) (by omega)
      rw [decodeSequence_iff (by omega), lead] at decoded
      obtain ⟨tail, ⟨shape, rfl, value⟩, -⟩ := decoded
      obtain ⟨b, rfl⟩ := List.length_eq_one_iff.mp shape.length
      simp only [tailValue, foldl_cons, foldl_nil] at value
      exact ⟨[a, b], .two (by omega) (shape.range b (by simp)) value (by omega), rfl⟩
    · have lead := lead_three (a := a) (by omega)
      rw [decodeSequence_iff (by omega), lead] at decoded
      obtain ⟨tail, ⟨shape, rfl, value⟩, shortest, -, scalar⟩ := decoded
      obtain ⟨b, c, rfl⟩ := List.length_eq_two.mp shape.length
      exact ⟨[a, b, c], .three (by omega) (shape.range b (by simp)) (shape.range c (by simp)) value (shortest rfl)
        scalar, rfl⟩
    · have lead := lead_four (a := a) (by omega)
      rw [decodeSequence_iff (by omega), lead] at decoded
      obtain ⟨tail, ⟨shape, rfl, value⟩, -, shortest, scalar⟩ := decoded
      obtain ⟨b, c, d, rfl⟩ := List.length_eq_three.mp shape.length
      exact ⟨[a, b, c, d], .four (by omega) (shape.range b (by simp)) (shape.range c (by simp))
        (shape.range d (by simp)) value (shortest rfl) scalar, rfl⟩

lemma Sequence.utf8DecodeOne (sequence : Sequence word cp.toNat) (rest : List UInt8) :
    utf8DecodeOne (word ++ rest) = some (cp, rest) := by
  have scalar := sequence.isValidChar
  cases sequence with
  | one value ascii =>
    have same : cp = toUInt32 _ := UInt32.toNat_inj.mp value
    simp only [Utf8.utf8DecodeOne, cons_append, nil_append, lt_iff_toNat_lt, reduceToNat]
    rw [if_pos (by omega), same]
  | two lead second value shortest =>
    have bits := lead_two lead
    simp only [Utf8.utf8DecodeOne, cons_append, nil_append, lt_iff_toNat_lt, reduceToNat]
    rw [if_neg (by omega), if_neg (by omega), if_pos (by omega), decodeSequence_iff (by omega), bits]
    refine ⟨[_], ⟨⟨rfl, ?_⟩, rfl, ?_⟩, by simp, by simp, scalar⟩
    · exact List.forall_mem_singleton.mpr second
    · simpa only [tailValue, foldl_cons, foldl_nil] using value
  | three lead second third value shortest =>
    have bits := lead_three lead
    simp only [Utf8.utf8DecodeOne, cons_append, nil_append, lt_iff_toNat_lt, reduceToNat]
    rw [if_neg (by omega), if_neg (by omega), if_neg (by omega), if_pos (by omega), decodeSequence_iff (by omega), bits]
    refine ⟨[_, _], ⟨⟨rfl, ?_⟩, rfl, ?_⟩, fun _ => shortest, by simp, scalar⟩
    · simpa using ⟨second, third⟩
    · simpa only [tailValue, foldl_cons, foldl_nil] using value
  | four lead second third fourth value shortest =>
    have bits := lead_four lead
    unfold Nat.isValidChar at scalar
    simp only [Utf8.utf8DecodeOne, cons_append, nil_append, lt_iff_toNat_lt, le_iff_toNat_le, reduceToNat]
    rw [if_neg (by omega), if_neg (by omega), if_neg (by omega), if_neg (by omega), if_pos (by omega),
      decodeSequence_iff (by omega), bits]
    refine ⟨[_, _, _], ⟨⟨rfl, ?_⟩, rfl, ?_⟩, by simp, fun _ => shortest, scalar⟩
    · simpa using ⟨second, third, fourth⟩
    · simpa only [tailValue, foldl_cons, foldl_nil] using value

lemma utf8DecodeOne_eq_some (l : List UInt8) (cp : UInt32) (rest : List UInt8) :
    utf8DecodeOne l = some (cp, rest) ↔ ∃ word, Sequence word cp.toNat ∧ l = word ++ rest := by
  constructor
  · exact sequence_of_utf8DecodeOne
  · rintro ⟨word, sequence, rfl⟩
    exact sequence.utf8DecodeOne rest

lemma utf8DecodeOne_eq_some_iff_encode :
    utf8DecodeOne l = some (cp, rest) ↔ ∃ c : Char, cp = c.val ∧ l = utf8EncodeChar c ++ rest := by
  rw [utf8DecodeOne_eq_some]
  constructor
  · rintro ⟨word, sequence, rfl⟩
    have encoded := (sequence_iff_encode word ⟨cp, sequence.isValidChar⟩).mp sequence
    exact ⟨⟨cp, sequence.isValidChar⟩, rfl, congrArg (· ++ rest) encoded⟩
  · rintro ⟨c, rfl, rfl⟩
    exact ⟨_, sequence_encode c, rfl⟩

lemma utf8DecodeOne_encode (c : Char) (rest : List UInt8) :
    utf8DecodeOne (utf8EncodeChar c ++ rest) = some (c.val, rest) :=
  utf8DecodeOne_eq_some_iff_encode.mpr ⟨c, rfl, rfl⟩

def utf8Code : PrefixCode UInt8 Char where
  encode := String.utf8EncodeChar
  encode_ne_nil c := by
    have := String.length_utf8EncodeChar c
    have := c.utf8Size_pos
    intro empty
    simp_all
  unique := by
    intro c d l r same
    have decoded := utf8DecodeOne_encode c l
    rw [same, utf8DecodeOne_encode d r] at decoded
    simp only [Option.some.injEq, Prod.mk.injEq] at decoded
    exact ⟨Char.ext decoded.1.symm, decoded.2.symm⟩

lemma utf8DecodeOne_eq_none : utf8DecodeOne l = none ↔ utf8Code.Undecodable l := by
  rw [Option.eq_none_iff_forall_ne_some]
  constructor
  · intro undecoded c rest same
    exact undecoded _ (utf8DecodeOne_eq_some_iff_encode.mpr ⟨c, rfl, same⟩)
  · intro bad result decoded
    obtain ⟨cp, rest⟩ := result
    obtain ⟨c, -, same⟩ := utf8DecodeOne_eq_some_iff_encode.mp decoded
    exact bad c rest same

end LibOp.Utf8

import LibOp.Utf8.Decoder

open LibOp.Foundation List PrefixCode Nat

namespace LibOp.Utf8

lemma utf8DecodeOne_shorter (decoded : utf8DecodeOne l = some (cp, rest)) : rest.length < l.length := by
  obtain ⟨c, -, rfl⟩ := utf8DecodeOne_eq_some_iff_encode.mp decoded
  have pos := utf8Code.length_encode_pos c
  rw [length_append]
  exact Nat.lt_add_of_pos_left pos

structure Utf8Error where
  byteOffset : Nat
  byteValue : UInt8
deriving DecidableEq, Repr

/-- The loop of `op_utf8_validate`, with the offset of the list in the buffer. -/
def validateFrom (offset : Nat) : List UInt8 → Except Utf8Error Unit
  | [] => .ok ()
  | b :: l =>
    match _ : utf8DecodeOne (b :: l) with
    | none => .error { byteOffset := offset, byteValue := b }
    | some (_, rest) => validateFrom (offset + ((b :: l).length - rest.length)) rest
termination_by l => l.length
decreasing_by exact utf8DecodeOne_shorter ‹_›

def opUtf8Validate (buf : List UInt8) : Except Utf8Error Unit := validateFrom 0 buf

def opUtf8Valid (buf : List UInt8) : Bool := (opUtf8Validate buf).isOk

def opUtf8Next (p : List UInt8) : Option (UInt32 × List UInt8) :=
  match p with
  | [] => none
  | b :: p => utf8DecodeOne (b :: p)

lemma opUtf8Next_eq (p : List UInt8) : opUtf8Next p = utf8DecodeOne p := by
  cases p with
  | nil | cons => rfl

lemma opUtf8Next_shorter (decoded : opUtf8Next p = some (cp, rest)) : rest.length < p.length := by
  exact utf8DecodeOne_shorter decoded

/-- `op_utf8_next` until it returns `NULL`: the code points and the rest. -/
def nextAll (p : List UInt8) : List UInt32 × List UInt8 :=
  match _ : opUtf8Next p with
  | none => ([], p)
  | some (cp, rest) => (cp :: (nextAll rest).1, (nextAll rest).2)
termination_by p.length
decreasing_by all_goals exact opUtf8Next_shorter ‹_›

def replacement : List UInt8 := [0xEF, 0xBF, 0xBD]

/-- `if (out + n <= olim) { memcpy(out, bytes, n); out += n; }`, with what `out` holds so far and `olim - dst` for
`cap`. -/
def emit (cap : Nat) (out bytes : List UInt8) : List UInt8 :=
  if out.length + bytes.length ≤ cap then out ++ bytes else out

def sanitiseLoop (cap : Nat) (out : List UInt8) : List UInt8 → List UInt8
  | [] => out
  | b :: l =>
    match _ : utf8DecodeOne (b :: l) with
    | some (_, rest) =>
      let slen := (b :: l).length - rest.length
      sanitiseLoop cap (emit cap out ((b :: l).take slen)) rest
    | none => sanitiseLoop cap (emit cap out replacement) l
termination_by l => l.length
decreasing_by
  · exact utf8DecodeOne_shorter ‹_›
  · exact lt_succ_self _

def opUtf8Sanitise (src : List UInt8) (dstCap : Nat) : List UInt8 := sanitiseLoop dstCap [] src

def strlenLoop (count : Nat) : List UInt8 → Nat
  | [] => count
  | b :: l =>
    match _ : utf8DecodeOne (b :: l) with
    | some (_, rest) => strlenLoop (count + 1) rest
    | none => strlenLoop (count + 1) l
termination_by l => l.length
decreasing_by
  · exact utf8DecodeOne_shorter ‹_›
  · exact lt_succ_self _

def opUtf8Strlen (buf : List UInt8) : Nat := strlenLoop 0 buf

lemma decode_word (c : Char) (l : List UInt8) : utf8DecodeOne (utf8Code.encode c ++ l) = some (c.val, l) :=
  utf8DecodeOne_encode c l

lemma validateFrom_word (offset : Nat) (c : Char) (l : List UInt8) :
    validateFrom offset (utf8Code.encode c ++ l) = validateFrom (offset + (utf8Code.encode c).length) l := by
  have decoded := decode_word c l
  have width : (utf8Code.encode c ++ l).length - l.length = (utf8Code.encode c).length := by simp
  obtain ⟨b, tail, start⟩ := utf8Code.encode_append_eq_cons c l
  rw [start] at decoded width ⊢
  rw [validateFrom]
  split <;> simp_all

variable {l : List UInt8} {b : UInt8} {cap : Nat}

lemma validateFrom_bad (bad : utf8Code.Undecodable (b :: l)) :
    validateFrom offset (b :: l) = .error { byteOffset := offset, byteValue := b } := by
  have undecoded := utf8DecodeOne_eq_none.mpr bad
  rw [validateFrom]
  split <;> simp_all

lemma nextAll_word (c : Char) (l : List UInt8) :
    nextAll (utf8Code.encode c ++ l) = (c.val :: (nextAll l).1, (nextAll l).2) := by
  have decoded := decode_word c l
  rw [← opUtf8Next_eq] at decoded
  rw [nextAll]
  split <;> simp_all

lemma replacement_eq_encode : replacement = utf8Code.encode '\uFFFD' := by decide

lemma sanitiseLoop_word (cap : Nat) (out : List UInt8) (c : Char) (l : List UInt8) :
    sanitiseLoop cap out (utf8Code.encode c ++ l) = sanitiseLoop cap (emit cap out (utf8Code.encode c)) l := by
  have decoded := decode_word c l
  have width : (utf8Code.encode c ++ l).length - l.length = (utf8Code.encode c).length := by simp
  have bytes : (utf8Code.encode c ++ l).take (utf8Code.encode c).length = utf8Code.encode c := by simp
  obtain ⟨b, tail, start⟩ := utf8Code.encode_append_eq_cons c l
  rw [start] at decoded width bytes ⊢
  rw [sanitiseLoop]
  split <;> simp_all

lemma sanitiseLoop_bad (bad : utf8Code.Undecodable (b :: l)) :
    sanitiseLoop cap out (b :: l) = sanitiseLoop cap (emit cap out (utf8Code.encode '\uFFFD')) l := by
  have undecoded := utf8DecodeOne_eq_none.mpr bad
  rw [sanitiseLoop, ← replacement_eq_encode]
  split <;> simp_all

lemma strlenLoop_word (count : Nat) (c : Char) (l : List UInt8) :
    strlenLoop count (utf8Code.encode c ++ l) = strlenLoop (count + 1) l := by
  have decoded := decode_word c l
  obtain ⟨b, tail, start⟩ := utf8Code.encode_append_eq_cons c l
  rw [start] at decoded ⊢
  rw [strlenLoop]
  split <;> simp_all

lemma strlenLoop_bad {count : Nat} (bad : utf8Code.Undecodable (b :: l)) :
    strlenLoop count (b :: l) = strlenLoop (count + 1) l := by
  have undecoded := utf8DecodeOne_eq_none.mpr bad
  rw [strlenLoop]
  split <;> simp_all

def IsUtf8 (buf : List UInt8) : Prop := ∃ text : List Char, buf = text.flatMap String.utf8EncodeChar

variable (text : List Char)

lemma validateFrom_words (offset : Nat) (rest : List UInt8) :
    validateFrom offset (text.flatMap utf8Code.encode ++ rest) =
      validateFrom (offset + (text.flatMap utf8Code.encode).length) rest := by
  induction text generalizing offset with
  | nil => rfl
  | cons c text ih => rw [flatMap_cons, append_assoc, validateFrom_word, ih, length_append, add_assoc]

lemma opUtf8Validate_of_words : opUtf8Validate (text.flatMap utf8Code.encode) = .ok () := by
  have whole := validateFrom_words text 0 []
  rw [append_nil] at whole
  rw [opUtf8Validate, whole, validateFrom]

lemma opUtf8Validate_of_bad {text : List Char} (bad : utf8Code.Undecodable (b :: l)) :
    opUtf8Validate (text.flatMap utf8Code.encode ++ b :: l) =
      .error { byteOffset := (text.flatMap utf8Code.encode).length, byteValue := b } := by
  rw [opUtf8Validate, validateFrom_words, validateFrom_bad bad, zero_add]

variable {buf : List UInt8}

lemma opUtf8Validate_eq_ok : opUtf8Validate buf = .ok () ↔ IsUtf8 buf := by
  constructor
  · intro valid
    obtain ⟨text, rest, rfl, bad⟩ := utf8Code.exists_words_append_undecodable buf
    cases rest with
    | nil => exact ⟨text, append_nil _⟩
    | cons b l =>
      rw [opUtf8Validate_of_bad bad] at valid
      cases valid
  · rintro ⟨text, rfl⟩
    exact opUtf8Validate_of_words text

lemma opUtf8Valid_eq_true : opUtf8Valid buf = true ↔ IsUtf8 buf := by
  rw [← opUtf8Validate_eq_ok, opUtf8Valid]
  cases opUtf8Validate buf with
  | error err | ok => simp [Except.isOk, Except.toBool]

lemma opUtf8Validate_error_longest (failed : opUtf8Validate buf = .error err) :
    IsGreatest {n | n ≤ buf.length ∧ IsUtf8 (buf.take n)} err.byteOffset ∧
      buf[err.byteOffset]? = some err.byteValue := by
  obtain ⟨text, rest, rfl, bad⟩ := utf8Code.exists_words_append_undecodable buf
  cases rest with
  | nil =>
    rw [append_nil, opUtf8Validate_of_words] at failed
    cases failed
  | cons b l =>
    rw [opUtf8Validate_of_bad bad] at failed
    cases failed
    refine ⟨⟨⟨by simp, text, by simp [utf8Code]⟩, ?_⟩, by simp⟩
    rintro n ⟨within, encoded⟩
    have shorter := encoded_prefix_le bad (take_append_drop n _).symm encoded
    rwa [length_take, min_eq_left within] at shorter

lemma nextAll_words : nextAll (text.flatMap utf8Code.encode) = (text.map Char.val, []) := by
  induction text with
  | nil =>
    rw [flatMap_nil, nextAll]
    rfl
  | cons c text ih => rw [flatMap_cons, nextAll_word, ih, map_cons]

/-- Validation accepts the concatenations of encoded scalar values and reports an error behind the longest such prefix;
the iterator returns the values of a valid buffer. -/
theorem utf8_validation_exact (buf : List UInt8) : (opUtf8Validate buf = .ok () ↔ IsUtf8 buf) ∧
      (∀ err, opUtf8Validate buf = .error err → IsGreatest {n | n ≤ buf.length ∧ IsUtf8 (buf.take n)} err.byteOffset ∧
          buf[err.byteOffset]? = some err.byteValue) ∧
      ∀ text : List Char, buf = text.flatMap String.utf8EncodeChar → nextAll buf = (text.map Char.val, []) := by
  refine ⟨opUtf8Validate_eq_ok, fun err => opUtf8Validate_error_longest, ?_⟩
  rintro text rfl
  exact nextAll_words text

def repaired (segments : List (Option Char)) : List Char := segments.map (·.getD '\uFFFD')

lemma length_encode_replacement : (utf8Code.encode '\uFFFD').length = 3 := by decide

variable {segments : List (Option Char)}

section

variable (reading : utf8Code.Segments l segments)

include reading

lemma sanitiseLoop_enough (cap : Nat) (out : List UInt8) (enough : out.length + 3 * l.length ≤ cap) :
    sanitiseLoop cap out l = out ++ (repaired segments).flatMap utf8Code.encode := by
  induction reading generalizing out with
  | done =>
    rw [sanitiseLoop]
    exact (append_nil out).symm
  | word c later ih =>
    rw [length_append] at enough
    rw [sanitiseLoop_word, emit, if_pos (by omega), ih _ (by rw [length_append]; omega), append_assoc]
    rfl
  | skip bad later ih =>
    have three := length_encode_replacement
    rw [length_cons] at enough
    rw [sanitiseLoop_bad bad, emit, if_pos (by omega), ih _ (by rw [length_append]; omega), append_assoc]
    rfl

lemma length_repaired_le : ((repaired segments).flatMap utf8Code.encode).length ≤ 3 * l.length := by
  induction reading with
  | done => exact zero_le _
  | word c later ih =>
    simp only [repaired, map_cons, flatMap_cons, length_append, Option.getD_some] at ih ⊢
    omega
  | skip bad later ih =>
    simp only [repaired, map_cons, flatMap_cons, length_append, length_cons, Option.getD_none,
      length_encode_replacement] at ih ⊢
    omega

omit reading in
lemma opUtf8Sanitise_eq (reading : utf8Code.Segments src segments)
    (enough : 3 * src.length ≤ cap) : opUtf8Sanitise src cap = (repaired segments).flatMap utf8Code.encode := by
  rw [opUtf8Sanitise, sanitiseLoop_enough reading cap [] (by simpa using enough), nil_append]

lemma opUtf8Strlen_eq : opUtf8Strlen l = segments.length := by
  suffices counted : ∀ count, strlenLoop count l = count + segments.length by
    rw [opUtf8Strlen, counted, zero_add]
  induction reading with
  | done =>
    intro count
    rw [strlenLoop]
    rfl
  | word c later ih =>
    intro count
    rw [strlenLoop_word, ih, length_cons, add_right_comm, add_assoc]
  | skip bad later ih =>
    intro count
    rw [strlenLoop_bad bad, ih, length_cons, add_right_comm, add_assoc]

omit reading in
lemma emit_fits (c : Char) (state : IsUtf8 out ∧ out.length ≤ cap) :
    IsUtf8 (emit cap out (utf8Code.encode c)) ∧ (emit cap out (utf8Code.encode c)).length ≤ cap := by
  unfold emit
  split_ifs with room
  · obtain ⟨⟨text, rfl⟩, -⟩ := state
    refine ⟨⟨text ++ [c], ?_⟩, by simpa using room⟩
    rw [flatMap_append, flatMap_singleton]
    rfl
  · exact state

lemma sanitiseLoop_fits (cap : Nat) (out : List UInt8) (state : IsUtf8 out ∧ out.length ≤ cap) :
    IsUtf8 (sanitiseLoop cap out l) ∧ (sanitiseLoop cap out l).length ≤ cap := by
  induction reading generalizing out with
  | done =>
    rw [sanitiseLoop]
    exact state
  | word c later ih =>
    rw [sanitiseLoop_word]
    exact ih _ (emit_fits c state)
  | skip bad later ih =>
    rw [sanitiseLoop_bad bad]
    exact ih _ (emit_fits _ state)

end

lemma opUtf8Sanitise_fits (src : List UInt8) (dstCap : Nat) :
    IsUtf8 (opUtf8Sanitise src dstCap) ∧ (opUtf8Sanitise src dstCap).length ≤ dstCap := by
  obtain ⟨segments, reading⟩ : ∃ segments, utf8Code.Segments src segments := exists_segments src
  exact sanitiseLoop_fits reading dstCap [] ⟨⟨[], rfl⟩, zero_le _⟩

lemma sanitiseLoop_words (text : List Char) (cap : Nat) (out : List UInt8)
    (enough : out.length + (text.flatMap utf8Code.encode).length ≤ cap) :
    sanitiseLoop cap out (text.flatMap utf8Code.encode) = out ++ text.flatMap utf8Code.encode := by
  induction text generalizing out with
  | nil => rw [flatMap_nil, sanitiseLoop, append_nil]
  | cons c text ih =>
    rw [flatMap_cons, length_append] at enough
    rw [flatMap_cons, sanitiseLoop_word, emit, if_pos (by omega), ih _ (by rw [length_append]; omega), append_assoc]

lemma opUtf8Sanitise_of_valid (enough : src.length ≤ dstCap)
    (valid : IsUtf8 src) : opUtf8Sanitise src dstCap = src := by
  obtain ⟨text, rfl⟩ := valid
  exact sanitiseLoop_words text dstCap [] (by rwa [length_nil, zero_add])

/-- With three bytes of room for each of the source the result is valid, a fixed point, with as many characters as the
source, and the source itself when that is valid; with less room it is still valid and fits. -/
theorem sanitise_repairs (src : List UInt8) : (∀ dstCap, 3 * src.length ≤ dstCap →
      opUtf8Valid (opUtf8Sanitise src dstCap) = true ∧ (opUtf8Sanitise src dstCap).length ≤ 3 * src.length ∧
        (opUtf8Valid src = true → opUtf8Sanitise src dstCap = src) ∧
        (∀ nextCap, (opUtf8Sanitise src dstCap).length ≤ nextCap →
          opUtf8Sanitise (opUtf8Sanitise src dstCap) nextCap = opUtf8Sanitise src dstCap) ∧
        opUtf8Strlen (opUtf8Sanitise src dstCap) = opUtf8Strlen src) ∧
      ∀ dstCap, dstCap < 3 * src.length →
        opUtf8Valid (opUtf8Sanitise src dstCap) = true ∧ (opUtf8Sanitise src dstCap).length ≤ dstCap := by
  simp only [opUtf8Valid_eq_true]
  constructor
  · intro dstCap enough
    obtain ⟨segments, reading⟩ : ∃ segments, utf8Code.Segments src segments := exists_segments src
    have valid := (opUtf8Sanitise_fits src dstCap).1
    refine ⟨valid, ?_, opUtf8Sanitise_of_valid (by omega), fun nextCap again => opUtf8Sanitise_of_valid again valid, ?_⟩
    · rw [opUtf8Sanitise_eq reading enough]
      exact length_repaired_le reading
    · rw [opUtf8Sanitise_eq reading enough, opUtf8Strlen_eq reading,
        opUtf8Strlen_eq (segments_encoded (repaired segments)), length_map, repaired, length_map]
  · intro dstCap _
    exact opUtf8Sanitise_fits src dstCap

end LibOp.Utf8

import LibOp.Base64.Digits

open LibOp.Foundation Option UInt8

namespace LibOp.Base64

open List

def decodingAt (done cells : List UInt8) (i : Nat) : Decoding :=
  { result := done ++ cells, i, j := done.length }

lemma store_append (done rest : List UInt8) (cell value : UInt8) :
    store (done ++ cell :: rest) done.length value = some (done ++ value :: rest) := by
  rw [store_of_lt (by simp), set_append_right _ _ le_rfl, Nat.sub_self, set_cons_zero]

lemma store_append_next (done rest : List UInt8) (first cell value : UInt8) :
    store (done ++ first :: cell :: rest) (done.length + 1) value = some (done ++ [first] ++ value :: rest) := by
  have stored := store_append (done ++ [first]) rest cell value
  rwa [append_assoc, singleton_append, length_append, length_singleton] at stored

lemma getElem?_append_self (done rest : List UInt8) (cell : UInt8) :
    (done ++ cell :: rest)[done.length]? = some cell := by
  rw [getElem?_append_right le_rfl, Nat.sub_self, getElem?_cons_zero]

lemma phase_bits (i : Nat) : i &&& 3 = i % 4 := Nat.and_two_pow_sub_one_eq_mod i 2

variable (done rest : List UInt8) (cell pending : UInt8) {i : Nat}

lemma addDigit_first (phase : i % 4 = 0) (a : Nat) : addDigit (decodingAt done (cell :: rest) i) a =
      some (decodingAt done (ofNat (a <<< 2) :: rest) (i + 1)) := by
  simp [addDigit, decodingAt, phase_bits, phase, store_append]

lemma addDigit_second (phase : i % 4 = 1) (b : Nat) : addDigit (decodingAt done (pending :: cell :: rest) i) b =
      some (decodingAt (done ++ [pending ||| ofNat (b >>> 4)]) (ofNat ((b &&& 0x0f) <<< 4) :: rest) (i + 1)) := by
  simp only [addDigit, decodingAt, phase_bits, phase, getElem?_append_self, store_append, store_append_next,
    length_append, length_singleton, bind_eq_bind, bind_some]

lemma addDigit_third (phase : i % 4 = 2) (c : Nat) : addDigit (decodingAt done (pending :: cell :: rest) i) c =
      some (decodingAt (done ++ [pending ||| ofNat (c >>> 2)]) (ofNat ((c &&& 0x03) <<< 6) :: rest) (i + 1)) := by
  simp only [addDigit, decodingAt, phase_bits, phase, getElem?_append_self, store_append, store_append_next,
    length_append, length_singleton, bind_eq_bind, bind_some]

lemma addDigit_fourth (phase : i % 4 = 3) (d : Nat) : addDigit (decodingAt done (pending :: rest) i) d =
      some (decodingAt (done ++ [pending ||| ofNat d]) rest (i + 1)) := by
  simp only [addDigit, decodingAt, phase_bits, phase, getElem?_append_self, store_append, length_append,
    length_singleton, bind_eq_bind, bind_some, append_assoc, singleton_append]

lemma or_ofNat (k : Nat) (small : low < 2 ^ k) (limit : high * 2 ^ k + low < 256) :
    ofNat (high <<< k) ||| ofNat low = ofNat (high * 2 ^ k + low) := by
  apply UInt8.toNat_inj.mp
  have inside : high <<< k < 256 := by omega
  have lowInside : low < 256 := by omega
  rw [UInt8.toNat_or, UInt8.toNat_ofNat_of_lt' inside, UInt8.toNat_ofNat_of_lt' lowInside,
    toNat_ofNat_of_lt' limit, shift_or k small]

lemma firstByte (first : a < 64) (second : b < 64) : ofNat (a <<< 2) ||| ofNat (b >>> 4) = ofNat (a * 4 + b / 16) := by
  rw [Nat.shiftRight_eq_div_pow, or_ofNat 2 (by omega) (by omega)]
  rfl

lemma secondByte (third : c < 64) : ofNat ((b &&& 0x0f) <<< 4) ||| ofNat (c >>> 2) = ofNat (b % 16 * 16 + c / 4) := by
  have low := Nat.and_two_pow_sub_one_eq_mod b 4
  rw [Nat.shiftRight_eq_div_pow, low, or_ofNat 4 (by omega) (by omega)]
  rfl

lemma thirdByte (fourth : d < 64) : ofNat ((c &&& 0x03) <<< 6) ||| ofNat d = ofNat (c % 4 * 64 + d) := by
  have low := Nat.and_two_pow_sub_one_eq_mod c 2
  rw [low, or_ofNat 6 (by omega) (by omega)]
  rfl

lemma exists_three_cons (room : 3 ≤ cells.length) : ∃ a b c rest, cells = a :: b :: c :: rest := by
  rcases cells with _ | ⟨a, _ | ⟨b, _ | ⟨c, rest⟩⟩⟩
  · cases room
  · simp at room
  · simp at room
  · exact ⟨a, b, c, rest, rfl⟩

lemma addDigits_octets (digits : List Nat) (small : ∀ v ∈ digits, v < 64) (done cells : List UInt8) (i : Nat)
    (phase : i % 4 = 0) (room : digits.length < cells.length) :
    ∃ left, (octets digits).length + left.length = cells.length ∧ digits.foldlM addDigit (decodingAt done cells i) =
        some (decodingAt (done ++ octets digits) left (i + digits.length)) := by
  fun_induction octets digits generalizing done cells i with
  | case1 a b c d rest ih =>
    simp only [forall_mem_cons] at small
    obtain ⟨first, second, third, fourth, later⟩ := small
    simp only [length_cons] at room
    obtain ⟨cell₀, cell₁, cell₂, cells, rfl⟩ := exists_three_cons (show 3 ≤ cells.length by omega)
    simp only [length_cons] at room
    obtain ⟨left, size, fed⟩ := ih later (done ++ [ofNat (a * 4 + b / 16), ofNat (b % 16 * 16 + c / 4),
      ofNat (c % 4 * 64 + d)]) cells (i + 4) (by omega) (by omega)
    refine ⟨left, ?_, ?_⟩
    · simp only [length_cons]
      omega
    · simp only [foldlM_cons, addDigit_first _ _ _ phase, bind_eq_bind, bind_some]
      rw [addDigit_second _ _ _ _ (by omega), bind_some, addDigit_third _ _ _ _ (by omega), bind_some,
        addDigit_fourth _ _ _ (by omega), bind_some, firstByte first second, secondByte third, thirdByte fourth]
      simp only [append_assoc, cons_append, nil_append, length_cons] at fed ⊢
      rw [fed]
      congr 2
      omega
  | case2 a b c =>
    simp only [forall_mem_cons] at small
    obtain ⟨first, second, third, -⟩ := small
    simp only [length_cons, length_nil] at room
    obtain ⟨cell₀, cell₁, cell₂, cells, rfl⟩ := exists_three_cons (show 3 ≤ cells.length by omega)
    refine ⟨ofNat ((c &&& 0x03) <<< 6) :: cells, by simp only [length_cons, length_nil]; omega, ?_⟩
    simp only [foldlM_cons, addDigit_first _ _ _ phase, bind_eq_bind, bind_some]
    rw [addDigit_second _ _ _ _ (by omega), bind_some, addDigit_third _ _ _ _ (by omega), bind_some,
      firstByte first second, secondByte third]
    simp
  | case3 a b =>
    simp only [forall_mem_cons] at small
    obtain ⟨first, second, -⟩ := small
    simp only [length_cons, length_nil] at room
    obtain ⟨cell₀, cell₁, cell₂, cells, rfl⟩ := exists_three_cons (show 3 ≤ cells.length by omega)
    refine ⟨ofNat ((b &&& 0x0f) <<< 4) :: cell₂ :: cells, by simp only [length_cons, length_nil]; omega, ?_⟩
    simp only [foldlM_cons, addDigit_first _ _ _ phase, bind_eq_bind, bind_some]
    rw [addDigit_second _ _ _ _ (by omega), bind_some, firstByte first second]
    simp
  | case4 a =>
    cases cells with
    | nil => cases room
    | cons cell cells =>
      refine ⟨ofNat (a <<< 2) :: cells, by simp, ?_⟩
      simp [addDigit_first _ _ _ phase]
  | case5 => exact ⟨cells, zero_add _, by simp⟩

def isBody (c : UInt8) : Bool := c != 0 && c != b64Pad

def digitsOf (l : List UInt8) : List Nat := (l.filter (0 ≤ decodeDigit ·)).map fun c => (decodeDigit c).toNat

lemma digitsOf_cons (c : UInt8) (l : List UInt8) :
    digitsOf (c :: l) = if 0 ≤ decodeDigit c then (decodeDigit c).toNat :: digitsOf l else digitsOf l := by
  unfold digitsOf
  split_ifs with digit
  · rw [filter_cons_of_pos (by simpa using digit), map_cons]
  · rw [filter_cons_of_neg (by simpa using digit)]

variable (l : List UInt8)

lemma digitsOf_lt : ∀ v ∈ digitsOf l, v < 64 := by
  intro v mem
  obtain ⟨c, digit, rfl⟩ := List.mem_map.mp mem
  rcases decodeDigit_cases c with negative | ⟨small, -⟩ <;> omega

lemma decodeLoop_body (body rest : List UInt8) (inside : ∀ c ∈ body, isBody c = true) (s : Decoding) (ch : UInt8) :
    decodeLoop s ch (body ++ rest) =
      ((digitsOf body).foldlM addDigit s).bind fun s => decodeLoop s (body.getLastD ch) rest := by
  induction body generalizing s ch with
  | nil => rfl
  | cons c body ih =>
    obtain ⟨here, later⟩ := List.forall_mem_cons.mp inside
    simp only [isBody, Bool.and_eq_true, bne_iff_ne] at here
    rw [cons_append, decodeLoop, if_neg here.1, if_neg here.2, getLastD_cons]
    by_cases negative : decodeDigit c < 0
    · rw [if_pos negative, digitsOf_cons, if_neg (by omega), ih later]
    · rw [if_neg negative, digitsOf_cons, if_pos (by omega), foldlM_cons, bind_eq_bind, bind_assoc]
      congr 1
      funext s
      exact ih later s c

lemma getLastD_ne_pad (body : List UInt8) (inside : ∀ c ∈ body, isBody c = true) : body.getLastD 0 ≠ b64Pad := by
  cases body with
  | nil => decide
  | cons c body =>
    have last := inside (body.getLastD c) getLastD_mem_cons
    rw [getLastD_cons]
    simp only [isBody, Bool.and_eq_true, bne_iff_ne] at last
    exact last.2

lemma decodeLoop_end (s : Decoding) {last : UInt8} (other : last ≠ b64Pad) (src : List UInt8) :
    ∃ ch, decodeLoop s last (src.dropWhile isBody) = some (s, ch) ∧
      (ch = b64Pad ↔ (src.dropWhile isBody).head? = some b64Pad) := by
  cases ends : src.dropWhile isBody with
  | nil => exact ⟨last, rfl, by simpa using other⟩
  | cons c rest =>
    have outside := head?_dropWhile_not isBody src
    rw [ends] at outside
    simp only [head?_cons, isBody] at outside
    refine ⟨c, ?_, by simp⟩
    rw [decodeLoop]
    by_cases zero : c = 0
    · rw [if_pos zero]
    · by_cases pad : c = b64Pad
      · rw [if_neg zero, if_pos pad]
      · rw [bne_iff_ne.mpr zero, bne_iff_ne.mpr pad] at outside
        cases outside

variable (src : List UInt8)

lemma opBase64Decode_eq (size : src.length ≠ sizeMax) : ∃ decoded : Decoded,
      opBase64Decode src = some (if (src.dropWhile isBody).head? = some b64Pad ∧
        (digitsOf (src.takeWhile isBody)).length % 4 = 1 then none else some decoded) ∧
      decoded.outLen = (octets (digitsOf (src.takeWhile isBody))).length ∧
      decoded.result.take decoded.outLen = octets (digitsOf (src.takeWhile isBody)) := by
  have inside : ∀ c ∈ src.takeWhile isBody, isBody c = true := fun c mem => mem_takeWhile_imp mem
  have fewer : (digitsOf (src.takeWhile isBody)).length ≤ src.length := by
    rw [digitsOf, length_map]
    exact le_trans (length_filter_le _ _) ( takeWhile_prefix _).length_le
  obtain ⟨left, size', fed⟩ := addDigits_octets (digitsOf (src.takeWhile isBody)) (digitsOf_lt _) []
    (List.replicate (src.length + 1) 0) 0 rfl (by rw [length_replicate]; omega)
  obtain ⟨ch, ended, pad⟩ := decodeLoop_end (decodingAt (octets (digitsOf (src.takeWhile isBody))) left
    (digitsOf (src.takeWhile isBody)).length) (getLastD_ne_pad _ inside) src
  have loop := decodeLoop_body (src.takeWhile isBody) (src.dropWhile isBody) inside
    (decodingAt [] (List.replicate (src.length + 1) 0) 0) 0
  rw [takeWhile_append_dropWhile, fed, nil_append, zero_add, bind_some, ended] at loop
  have room := length_octets (digitsOf (src.takeWhile isBody))
  rw [length_replicate] at size'
  cases left with
  | nil =>
    rw [length_nil] at size'
    omega
  | cons cell left =>
    refine ⟨⟨octets (digitsOf (src.takeWhile isBody)) ++ 0 :: left, (octets (digitsOf (src.takeWhile isBody))).length⟩,
      ?_, rfl, take_left' rfl⟩
    rw [opBase64Decode, if_neg size]
    change (decodeLoop (decodingAt [] (List.replicate (src.length + 1) 0) 0) 0 src).bind _ = _
    rw [loop, bind_some]
    simp only [decodingAt, phase_bits, pad, store_append, bind_eq_bind, bind_some]
    split_ifs
    · rfl
    · rfl

def significant (c : UInt8) : Bool := decide (c ∈ b64Enc ∨ c = b64Pad ∨ c = 0)

variable {c : UInt8}

lemma significant_of_not_isBody (other : isBody c = false) : significant c = true := by
  simp only [isBody, Bool.and_eq_false_iff, bne_eq_false_iff_eq] at other
  apply decide_eq_true
  rcases other with zero | pad
  · exact .inr (.inr zero)
  · exact .inr (.inl pad)

lemma digits_filter_significant : digitsOf ((l.filter significant).takeWhile isBody) = digitsOf (l.takeWhile isBody) ∧
      ((l.filter significant).dropWhile isBody).head? = (l.dropWhile isBody).head? := by
  induction l with
  | nil => exact ⟨rfl, rfl⟩
  | cons c l ih =>
    cases body : isBody c with
    | false =>
      rw [filter_cons_of_pos (significant_of_not_isBody body)]
      simp [body]
    | true =>
      cases mark : significant c with
      | true =>
        rw [filter_cons_of_pos mark, takeWhile_cons_of_pos body, takeWhile_cons_of_pos body,
          dropWhile_cons_of_pos body, dropWhile_cons_of_pos body, digitsOf_cons, digitsOf_cons, ih.1]
        exact ⟨rfl, ih.2⟩
      | false =>
        have skipped : ¬0 ≤ decodeDigit c := by
          rw [decodeDigit_nonneg_iff]
          intro digit
          simp [significant, digit] at mark
        rw [filter_cons_of_neg (by rw [mark]; decide), takeWhile_cons_of_pos body,
          dropWhile_cons_of_pos body, digitsOf_cons, if_neg skipped]
        exact ih

lemma digitsOf_map_encodeDigit (digits : List Nat) (small : ∀ v ∈ digits, v < 64) :
    digitsOf (digits.map encodeDigit) = digits := by
  induction digits with
  | nil => rfl
  | cons v digits ih =>
    obtain ⟨here, later⟩ := List.forall_mem_cons.mp small
    rw [map_cons, digitsOf_cons, decodeDigit_encodeDigit here, if_pos (Int.natCast_nonneg v), ih later,
      Int.toNat_natCast]

lemma isBody_of_mem (digit : c ∈ b64Enc) : isBody c = true := by
  simp only [isBody, Bool.and_eq_true, bne_iff_ne]
  refine ⟨?_, ?_⟩ <;> rintro rfl
  · exact zero_not_mem digit
  · exact b64Pad_not_mem digit

variable (x : List UInt8)

lemma encodeLoop_digits : ∀ c ∈ (sextets x).map encodeDigit, c ∈ b64Enc := by
  intro c mem
  obtain ⟨v, inside, rfl⟩ := List.mem_map.mp mem
  exact encodeDigit_mem (sextets_lt x v inside)

lemma takeWhile_encodeLoop : (encodeLoop x).takeWhile isBody = (sextets x).map encodeDigit := by
  have digits : ∀ c ∈ (sextets x).map encodeDigit, isBody c = true :=
    fun c mem => isBody_of_mem (encodeLoop_digits x c mem)
  have stop : (padding x.length).takeWhile isBody = [] := by
    unfold padding
    cases (3 - x.length % 3) % 3 with
    | zero => rfl
    | succ n => rw [replicate_succ, takeWhile_cons_of_neg (by decide)]
  rw [encodeLoop_eq, takeWhile_append_of_pos digits, stop, append_nil]

def DecodesTo (outcome : Option (Option Decoded)) (x : List UInt8) : Prop :=
  ∃ decoded, outcome = some (some decoded) ∧ decoded.outLen = x.length ∧ decoded.result.take decoded.outLen = x

lemma opBase64Decode_noisy (x noisy : List UInt8) (size : noisy.length ≠ sizeMax)
    (encoded : noisy.filter significant = encodeLoop x) : DecodesTo (opBase64Decode noisy) x := by
  obtain ⟨decoded, result, length, bytes⟩ := opBase64Decode_eq noisy size
  have digits := (digits_filter_significant noisy).1
  rw [encoded, takeWhile_encodeLoop, digitsOf_map_encodeDigit _ (sextets_lt x)] at digits
  rw [← digits, octets_sextets] at length bytes
  rw [← digits, length_sextets, if_neg (by omega)] at result
  exact ⟨decoded, result, length, bytes⟩

lemma encodeLoop_significant : (encodeLoop x).filter significant = encodeLoop x := by
  rw [filter_eq_self, encodeLoop_eq]
  intro c mem
  apply decide_eq_true
  rcases List.mem_append.mp mem with digit | pad
  · exact Or.inl (encodeLoop_digits x c digit)
  · exact Or.inr (Or.inl (eq_of_mem_replicate pad))

def urlEnc : List UInt8 := b64Enc.take 62 ++ [minus, underscore]

def urlDigit (c : UInt8) : UInt8 := if c = plus then minus else if c = slash then underscore else c

set_option maxRecDepth 4000 in
lemma map_urlDigit : b64Enc.map urlDigit = urlEnc := rfl

lemma urlDigit_mem (digit : c ∈ b64Enc) : urlDigit c ∈ urlEnc := by
  rw [← map_urlDigit]
  exact mem_map_of_mem digit

set_option maxRecDepth 4000 in
lemma standardDigit_urlDigit : ∀ c ∈ b64Enc, standardDigit (urlDigit c) = c := by
  have table : b64Enc.map (fun c => standardDigit (urlDigit c)) = b64Enc.map id := rfl
  exact List.map_inj_left.mp table

lemma patchUrl_digits (digits : List UInt8) (inside : ∀ c ∈ digits, c ∈ b64Enc) (len : Nat) :
    patchUrl (digits ++ padding len) = digits.map urlDigit := by
  induction digits with
  | nil =>
    unfold padding
    cases (3 - len % 3) % 3 with
    | zero | succ n => rfl
  | cons c digits ih =>
    obtain ⟨here, later⟩ := List.forall_mem_cons.mp inside
    have digit : c ≠ b64Pad := by
      rintro rfl
      exact b64Pad_not_mem here
    rw [cons_append, patchUrl, ih later, map_cons, urlDigit]
    split_ifs <;> rfl

lemma padLoop_eq (n : Nat) (buf : List UInt8) (i : Nat) (missing : (4 - i % 4) % 4 = n) (room : i + n < buf.length) :
    ∃ padded, padLoop buf i = some (padded, i + n) ∧ padded.length = buf.length ∧
      padded.take (i + n) = buf.take i ++ List.replicate n b64Pad := by
  induction n generalizing buf i with
  | zero =>
    rw [padLoop, if_pos (by omega)]
    exact ⟨buf, rfl, rfl, by simp⟩
  | succ n ih =>
    have inside : i < buf.length := by omega
    obtain ⟨padded, loop, size, bytes⟩ := ih (buf.set i b64Pad) (i + 1) (by omega) (by rw [length_set]; omega)
    rw [length_set] at size
    rw [take_succ_set inside, append_assoc, singleton_append, ← replicate_succ, add_right_comm, add_assoc] at bytes
    rw [padLoop, if_neg (by omega), store_of_lt inside, bind_some, loop, add_right_comm, add_assoc]
    exact ⟨padded, rfl, size, bytes⟩

lemma opBase64urlDecode_eq (size : src.length < sizeMax - 4) : opBase64urlDecode src =
      opBase64Decode (src.map standardDigit ++ List.replicate ((4 - src.length % 4) % 4) b64Pad) := by
  have copied : storeAll (List.replicate (src.length + 4 + 1) 0) 0 (src.map standardDigit) =
      some (src.map standardDigit ++ List.replicate 5 0) := by
    rw [storeAll_eq _ _ _ (by simp; omega), length_map, zero_add, drop_replicate]
    congr 3
    omega
  obtain ⟨padded, loop, length, bytes⟩ := padLoop_eq ((4 - src.length % 4) % 4)
    (src.map standardDigit ++ List.replicate 5 0) src.length rfl (by simp; omega)
  have terminator : src.length + (4 - src.length % 4) % 4 < padded.length := by
    simp only [length, length_append, length_map, length_replicate]
    omega
  rw [take_left' (length_map _)] at bytes
  rw [opBase64urlDecode, if_neg (by omega), copied]
  simp only [bind_eq_bind, bind_some, loop, store_of_lt terminator]
  rw [take_set_of_le (le_refl _), bytes]

lemma opBase64Decode_inside : opBase64Decode src ≠ none := by
  by_cases size : src.length = sizeMax
  · rw [opBase64Decode, if_pos size]
    exact some_ne_none _
  · obtain ⟨decoded, result, -⟩ := opBase64Decode_eq src size
    rw [result]
    exact some_ne_none _

lemma opBase64urlDecode_inside : opBase64urlDecode src ≠ none := by
  by_cases size : src.length < sizeMax - 4
  · rw [opBase64urlDecode_eq src size]
    exact opBase64Decode_inside _
  · rw [opBase64urlDecode, if_pos (by omega)]
    exact some_ne_none _

lemma opBase64Encode_eq {x : List UInt8} (fits : x.length + (4 * ((x.length + 2) / 3) + 1) ≤ 2 ^ 64) :
    opBase64Encode x = some (encodeLoop x) := by
  unfold opBase64Encode sizeMax
  rw [if_neg (by omega)]

lemma opBase64urlDecode_encoded {x : List UInt8} (fits : x.length + (4 * ((x.length + 2) / 3) + 1) ≤ 2 ^ 64) :
    DecodesTo (opBase64urlDecode (((sextets x).map encodeDigit).map urlDigit)) x := by
  have size : (((sextets x).map encodeDigit).map urlDigit).length = (4 * x.length + 2) / 3 := by
    rw [length_map, length_map, length_sextets]
  have translated : (((sextets x).map encodeDigit).map urlDigit).map standardDigit = (sextets x).map encodeDigit := by
    rw [List.map_map]
    apply (map_congr_left _).trans (map_id _)
    intro c mem
    exact standardDigit_urlDigit c (encodeLoop_digits x c mem)
  have whole : (sextets x).map encodeDigit ++ List.replicate ((4 - (4 * x.length + 2) / 3 % 4) % 4) b64Pad =
      encodeLoop x := by
    have phases : x.length % 3 = 0 ∨ x.length % 3 = 1 ∨ x.length % 3 = 2 := by omega
    rw [encodeLoop_eq, padding]
    congr 2
    rcases phases with phase | phase | phase <;> omega
  rw [opBase64urlDecode_eq _ (by rw [size, sizeMax]; omega), translated, size, whole]
  apply opBase64Decode_noisy x _ _ (encodeLoop_significant x)
  rw [length_encodeLoop, sizeMax]
  omega

/-- Decoding gives the encoded bytes back, in the standard alphabet also with other bytes between the characters, and
stays within its allocation. -/
theorem base64_round_trip : (∀ x : List UInt8, x.length + (4 * ((x.length + 2) / 3) + 1) ≤ 2 ^ 64 →
      ∃ encoded url, opBase64Encode x = some encoded ∧ opBase64urlEncode x = some url ∧
        DecodesTo (opBase64Decode encoded) x ∧ DecodesTo (opBase64urlDecode url) x ∧
        (∀ noisy : List UInt8, noisy.length < sizeMax → noisy.filter significant = encoded →
          DecodesTo (opBase64Decode noisy) x) ∧
        encoded.length = 4 * ((x.length + 2) / 3) ∧
        (∃ digits pads, encoded = digits ++ pads ∧ (∀ c ∈ digits, c ∈ b64Enc) ∧ ∀ c ∈ pads, c = b64Pad) ∧
        ∀ c ∈ url, c ∈ urlEnc) ∧
      ∀ src : List UInt8, opBase64Decode src ≠ none ∧ opBase64urlDecode src ≠ none := by
  refine ⟨?_, fun src => ⟨opBase64Decode_inside src, opBase64urlDecode_inside src⟩⟩
  intro x fits
  have url : patchUrl (encodeLoop x) = ((sextets x).map encodeDigit).map urlDigit := by
    rw [encodeLoop_eq, patchUrl_digits _ (encodeLoop_digits x)]
  have noisy (l : List UInt8) (small : l.length < sizeMax) := opBase64Decode_noisy x l (ne_of_lt small)
  refine ⟨encodeLoop x, patchUrl (encodeLoop x), opBase64Encode_eq fits, by rw [opBase64urlEncode, opBase64Encode_eq fits,
    map_some], ?_, ?_, noisy, length_encodeLoop x, ?_, ?_⟩
  · apply noisy _ _ (encodeLoop_significant x)
    rw [length_encodeLoop, sizeMax]
    omega
  · rw [url]
    exact opBase64urlDecode_encoded fits
  · exact ⟨_, _, encodeLoop_eq x, encodeLoop_digits x, fun c => eq_of_mem_replicate⟩
  · rw [url]
    intro c mem
    obtain ⟨digit, inside, rfl⟩ := List.mem_map.mp mem
    exact urlDigit_mem (encodeLoop_digits x digit inside)

/-- "TWFueQ==" with a line end inside. -/
theorem base64_round_trip_wrapped :
    let noisy : List UInt8 := [0x54, 0x57, 0x46, 0x75, 0x0D, 0x0A, 0x65, 0x51, 0x3D, 0x3D]
    opBase64Encode [0x4D, 0x61, 0x6E, 0x79] = some (noisy.filter significant) ∧
      DecodesTo (opBase64Decode noisy) [0x4D, 0x61, 0x6E, 0x79] := by
  intro noisy
  obtain ⟨encoded, url, made, -, -, -, decodes, -⟩ := base64_round_trip.1 [0x4D, 0x61, 0x6E, 0x79] (by decide)
  have known : opBase64Encode [0x4D, 0x61, 0x6E, 0x79] = some (noisy.filter significant) := by decide
  exact ⟨known, decodes noisy (by decide) (Option.some.inj (known.symm.trans made))⟩

lemma takeWhile_padded (n : Nat) : (l ++ List.replicate n b64Pad).takeWhile isBody = l.takeWhile isBody := by
  induction l with
  | nil => cases n <;> rfl
  | cons c l ih => rw [cons_append, takeWhile_cons, takeWhile_cons, ih]

lemma opBase64Decode_dangling {src : List UInt8} (size : src.length ≠ sizeMax)
    (dangling : (digitsOf (src.takeWhile isBody)).length % 4 = 1) :
    opBase64Decode src = some none ↔ (src.dropWhile isBody).head? = some b64Pad := by
  obtain ⟨decoded, result, -⟩ := opBase64Decode_eq src size
  rw [result]
  split
  next stops => simp [stops.1]
  next stops => simpa using fun pad => stops ⟨pad, dangling⟩

/-- The check looks at the byte read last, so a dangling digit is found only in front of a pad, which the url wrapper
adds unless the length is a multiple of 4. -/
theorem dangling_digit_iff (src : List UInt8) :
    ((digitsOf (src.takeWhile isBody)).length % 4 = 1 → (opBase64Decode src = some none ↔
      src.length = sizeMax ∨ (src.dropWhile isBody).head? = some b64Pad)) ∧
    ((digitsOf ((src.map standardDigit).takeWhile isBody)).length % 4 = 1 → (opBase64urlDecode src = some none ↔
      sizeMax - 4 ≤ src.length ∨ ((src.map standardDigit ++ List.replicate ((4 - src.length % 4) % 4) b64Pad).dropWhile
        isBody).head? = some b64Pad)) := by
  constructor
  · intro dangling
    by_cases size : src.length = sizeMax
    · simp [opBase64Decode, size]
    · rw [opBase64Decode_dangling size dangling, or_iff_right size]
  · intro dangling
    by_cases size : sizeMax - 4 ≤ src.length
    · simp [opBase64urlDecode, size]
    · rw [or_iff_right size, opBase64urlDecode_eq src (Nat.lt_of_not_le size)]
      apply opBase64Decode_dangling
      · rw [length_append, length_map, length_replicate]
        omega
      · rw [takeWhile_padded]
        exact dangling

theorem dangling_digit_pad : opBase64Decode [0x41, b64Pad] = some none ∧ opBase64urlDecode [0x41] = some none :=
  ⟨((dangling_digit_iff [0x41, b64Pad]).1 rfl).mpr (.inr rfl), ((dangling_digit_iff [0x41]).2 rfl).mpr (.inr rfl)⟩

/-- A single `A`; for the url alphabet one with three blanks. -/
theorem dangling_digit_accepted : (opBase64Decode [0x41]).map isSome = some true ∧
    (opBase64urlDecode [0x41, 0x20, 0x20, 0x20]).map isSome = some true := by
  decide +kernel

end LibOp.Base64

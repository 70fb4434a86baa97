import LibOp.Toml.Grammar

namespace LibOp.Toml

open Foundation Strings List

def isSkipped (c : UInt8) : Bool := isBlank c || isEol c || c = hash

variable {c : UInt8}

lemma eq_of_isBlank (blank : isBlank c = true) : c = space ∨ c = tab := by
  simpa [isBlank] using blank

lemma eq_of_isSkipped (skipped : isSkipped c = true) : c = space ∨ c = tab ∨ c = lf ∨ c = cr ∨ c = hash := by
  simpa [isSkipped, isBlank, isEol, or_assoc] using skipped

lemma isBare_of_isSkipped (skipped : isSkipped c = true) : isBare c = false := by
  rcases eq_of_isSkipped skipped with rfl | rfl | rfl | rfl | rfl <;> decide

lemma isdigit_of_not_isBare (notBare : isBare c = false) : isdigit c = false := by
  simp only [isBare, isalnum, Bool.or_eq_false_iff] at notBare
  exact notBare.1.1.1.1

lemma isSkipped_of_isBlank (blank : isBlank c = true) : isSkipped c = true := by
  rw [isSkipped, blank]
  rfl

variable {tail g t ds : List UInt8} {p : UInt8 → Bool} {α : Type} {b : List UInt8}

lemma Blanks.stops (blanks : Blanks b) (skips : ∀ c, isSkipped c = true → p c = false) (stops : Stops p tail) :
    Stops p (b ++ tail) := by
  cases b with
  | nil => exact stops
  | cons c b => exact stops_cons.mpr (skips c (isSkipped_of_isBlank (blanks c mem_cons_self)))

variable {n : List UInt8}

lemma Newline.stops (newline : Newline n) (skips : ∀ c, isSkipped c = true → p c = false) : Stops p (n ++ tail) := by
  cases newline with
  | lf | crlf => exact stops_cons.mpr (skips _ rfl)

lemma Comment.stops {c : List UInt8} (comment : Comment c) (skips : ∀ c, isSkipped c = true → p c = false) :
    Stops p (c ++ tail) := by
  cases comment
  exact stops_cons.mpr (skips hash rfl)

lemma Gap.stops (gap : Gap g) (skips : ∀ c, isSkipped c = true → p c = false) (stops : Stops p tail) :
    Stops p (g ++ tail) := by
  cases gap with
  | nil => exact stops
  | blank blank => exact stops_cons.mpr (skips _ (isSkipped_of_isBlank blank))
  | newline newline =>
    rw [append_assoc]
    exact newline.stops skips
  | comment comment newline =>
    rw [append_assoc]
    exact comment.stops skips

lemma skipWs_blanks (blanks : Blanks b) (stops : Stops isBlank tail) (line : Int32) :
    skipWs ⟨b ++ tail, line⟩ = ⟨tail, line⟩ := by
  rw [skipWs, stops.dropWhile blanks]

lemma skipGap_stops (stops : Stops isSkipped tail) (line : Int32) : skipGap tail line = ⟨tail, line⟩ := by
  cases tail with
  | nil => rw [skipGap]
  | cons c tail =>
    rw [stops_cons] at stops
    simp only [isSkipped, isEol, Bool.or_eq_false_iff, decide_eq_false_iff_not] at stops
    obtain ⟨⟨notBlank, notLf, notCr⟩, notHash⟩ := stops
    rw [skipGap, if_neg (by simp [notBlank]), if_neg notLf, if_neg notCr, if_neg notHash]

lemma skipGap_newline (newline : Newline n) (rest : List UInt8) (line : Int32) :
    skipGap (n ++ rest) line = skipGap rest (line + 1) := by
  cases newline with
  | lf => rw [singleton_append, skipGap, if_neg (by decide), if_pos rfl]
  | crlf =>
    rw [cons_append, skipGap, if_neg (by decide), if_neg (by decide), if_pos rfl, singleton_append, skipLf, if_pos rfl]

lemma dropWhile_comment (inside : ∀ c ∈ body, isEol c = false) (stops : Stops (!isEol ·) tail) :
    (body ++ tail).dropWhile (!isEol ·) = tail := by
  apply stops.dropWhile
  intro c mem
  rw [inside c mem]
  rfl

lemma skipGap_comment {c : List UInt8} (comment : Comment c) (stops : Stops (!isEol ·) tail) (line : Int32) :
    skipGap (c ++ tail) line = skipGap tail line := by
  cases comment with
  | mk inside =>
    rw [cons_append, skipGap, if_neg (by decide), if_neg (by decide), if_neg (by decide), if_pos rfl,
      dropWhile_comment inside stops]

lemma Newline.stops_line (newline : Newline n) (tail : List UInt8) : Stops (!isEol ·) (n ++ tail) := by
  cases newline with
  | lf | crlf => exact stops_cons.mpr rfl

lemma skipGap_gap (gap : Gap g) (tail : List UInt8) (line : Int32) :
    ∃ line', skipGap (g ++ tail) line = skipGap tail line' := by
  induction gap generalizing line with
  | nil => exact ⟨line, rfl⟩
  | blank blank _ ih =>
    rw [cons_append, skipGap, if_pos blank]
    exact ih line
  | newline newline _ ih =>
    rw [append_assoc, skipGap_newline newline]
    exact ih (line + 1)
  | comment comment newline _ ih =>
    rw [append_assoc, append_assoc, skipGap_comment comment (newline.stops_line _), skipGap_newline newline]
    exact ih (line + 1)

lemma skip_gap (gap : Gap g) (stops : Stops isSkipped tail) (line : Int32) :
    ∃ line', skipWsAndNewlines ⟨g ++ tail, line⟩ = ⟨tail, line'⟩ := by
  obtain ⟨line', skipped⟩ := skipGap_gap gap tail line
  exact ⟨line', skipped.trans (skipGap_stops stops line')⟩

lemma Gap.append (gap : Gap g) (gap' : Gap g') : Gap (g ++ g') := by
  induction gap with
  | nil => exact gap'
  | blank blank _ ih => exact Gap.blank blank ih
  | newline newline _ ih =>
    rw [append_assoc]
    exact Gap.newline newline ih
  | comment comment newline _ ih =>
    rw [append_assoc, append_assoc]
    exact Gap.comment comment newline ih

lemma Blanks.gap (blanks : Blanks b) : Gap b := by
  induction b with
  | nil => exact Gap.nil
  | cons c b ih =>
    have tail : Blanks b := (forall_mem_cons.mp blanks).2
    exact Gap.blank (blanks c mem_cons_self) (ih tail)

lemma skip_trailer (gap : Gap g) (trailer : Trailer t) (line : Int32) :
    ∃ line', skipWsAndNewlines ⟨g ++ t, line⟩ = ⟨[], line'⟩ := by
  cases trailer with
  | blanks blanks =>
    obtain ⟨line', skipped⟩ := skip_gap (gap.append blanks.gap) stops_nil line
    rw [append_nil] at skipped
    exact ⟨line', skipped⟩
  | @comment b c blanks comment =>
    obtain ⟨line', skipped⟩ := skipGap_gap (gap.append blanks.gap) c line
    have ended := skipGap_comment comment stops_nil line'
    rw [append_nil, skipGap_stops stops_nil] at ended
    rw [← append_assoc]
    exact ⟨line', skipped.trans ended⟩

lemma unescape_of_escape (escape : Escape c e) : unescape e = some c := by
  cases escape <;> rfl

lemma stringLoop_quoted (quoted : Quoted s body) (buf tail : List UInt8) (line : Int32) :
    stringLoop line (body ++ quote :: tail) buf = .ok (cstr (buf ++ s), ⟨tail, line⟩) := by
  induction quoted generalizing buf with
  | nil =>
    rw [nil_append, stringLoop.eq_def]
    simp
  | plain notQuote notBackslash inside _ ih =>
    rw [cons_append, stringLoop.eq_def]
    simp only [if_neg notQuote, inside, Bool.false_eq_true, if_false, if_neg notBackslash]
    rw [ih, append_assoc, singleton_append]
  | escaped escape _ ih =>
    have notQuote : backslash ≠ quote := by decide
    have inside : isEol backslash = false := rfl
    rw [cons_append, cons_append, stringLoop.eq_def]
    simp only [if_neg notQuote, inside, Bool.false_eq_true, if_false, if_true, unescape_of_escape escape]
    rw [ih, append_assoc, singleton_append]

lemma cstr_of_noNul (noNul : 0 ∉ s) : cstr s = s := by
  rw [cstr, takeWhile_eq_self_iff]
  intro c mem
  rw [decide_eq_true_eq]
  rintro rfl
  exact noNul mem

lemma parseString_text {s : CStr} (text : StringText s.bytes t) (tail : List UInt8) (line : Int32) :
    parseString ⟨t ++ tail, line⟩ = .ok (s.bytes, ⟨tail, line⟩) := by
  cases text with
  | mk quoted =>
    rw [cons_append, append_assoc, singleton_append, parseString]
    simp only [if_true]
    rw [stringLoop_quoted quoted, nil_append, cstr_of_noNul s.noNul]

lemma le_foldl_addDigit (ds : List UInt8) (val : Nat) : val ≤ ds.foldl addDigit val := by
  induction ds generalizing val with
  | nil => exact le_rfl
  | cons c ds ih =>
    apply le_trans _ (ih (addDigit val c))
    unfold addDigit
    omega

lemma digitsLoop_text (digits : ∀ c ∈ ds, isdigit c = true) (stops : Stops isdigit tail) {val : Nat}
    (bound : ds.foldl addDigit val ≤ longMax) (line : Int32) :
    digitsLoop line (ds ++ tail) val = .ok (ds.foldl addDigit val, ⟨tail, line⟩) := by
  induction ds generalizing val with
  | nil =>
    cases tail with
    | nil => rfl
    | cons c tail =>
      rw [stops_cons] at stops
      rw [nil_append, digitsLoop, if_neg (by simp [stops])]
      rfl
  | cons c ds ih =>
    have small := le_trans (le_foldl_addDigit ds (addDigit val c)) bound
    rw [addDigit] at small
    have guard : ¬val > (longMax - (c.toNat - 0x30)) / 10 := by omega
    rw [cons_append, digitsLoop, if_pos (digits c mem_cons_self)]
    simp only [if_neg guard]
    exact ih (forall_mem_cons.mp digits).2 bound

section

variable (nonempty : ds ≠ []) (digits : ∀ c ∈ ds, isdigit c = true) (stops : Stops isdigit tail)
  (bound : digitsValue ds ≤ longMax) (line : Int32)

include nonempty digits stops bound line

lemma parseInteger_digits : parseInteger ⟨ds ++ tail, line⟩ = .ok ((digitsValue ds : Int), ⟨tail, line⟩) := by
  have read := digitsLoop_text digits stops bound line
  obtain ⟨c, more, rfl⟩ := exists_cons_of_ne_nil nonempty
  have digit := digits c mem_cons_self
  have pos : c ≠ minus := by
    rintro rfl
    cases digit
  rw [cons_append] at read ⊢
  simp only [parseInteger, if_neg pos, digit, if_true, read]
  rfl

lemma parseInteger_negative :
    parseInteger ⟨minus :: ds ++ tail, line⟩ = .ok (-(digitsValue ds : Int), ⟨tail, line⟩) := by
  have read := digitsLoop_text digits stops bound line
  obtain ⟨c, more, rfl⟩ := exists_cons_of_ne_nil nonempty
  have digit := digits c mem_cons_self
  rw [cons_append] at read
  simp only [parseInteger, cons_append, if_true, digit, read]
  rfl

end

lemma parseInteger_text {n : LongInt} (text : IntegerText n.1 t) (stops : Stops isdigit tail) (line : Int32) :
    parseInteger ⟨t ++ tail, line⟩ = .ok (n.1, ⟨tail, line⟩) := by
  obtain ⟨n, bound⟩ := n
  change IntegerText n t at text
  cases text with
  | nonneg nonempty digits => exact parseInteger_digits nonempty digits stops (by simpa using bound) line
  | negative nonempty digits =>
    rw [Int.natAbs_neg, Int.natAbs_natCast] at bound
    exact parseInteger_negative nonempty digits stops bound line

def found {α : Type} (result : Except Fail (α × Input)) : Option (α × List UInt8) :=
  result.toOption.map fun out => (out.1, out.2.rest)

variable {result : Except Fail (α × Input)}

lemma ok_of_found (some : found result = some (a, tail)) : ∃ line, result = .ok (a, ⟨tail, line⟩) := by
  cases result with
  | error e => cases some
  | ok out =>
    obtain ⟨b, rest, line⟩ := out
    cases some
    exact ⟨line, rfl⟩

lemma error_of_found (none : found result = none) : ∃ e, result = .error e := by
  cases result with
  | error e => exact ⟨e, rfl⟩
  | ok out => cases none

structure ElementRule {τ : Type} (Elem : τ → List UInt8 → Prop) (tv : τ → Tv) (type : TvType) : Prop where
  starts : ∀ {x t}, Elem x t → ∃ c rest, t = c :: rest ∧ isSkipped c = false ∧ c ≠ closeBracket
  reads : ∀ {x t tail}, Elem x t → Stops isdigit tail → ∀ line, parseElement ⟨t ++ tail, line⟩ = .ok (tv x, ⟨tail, line⟩)
  type : ∀ x, (tv x).type = type

lemma stringElement : ElementRule (fun s : CStr => StringText s.bytes) (fun s => .str s.bytes) .str where
  starts text := by
    cases text
    exact ⟨quote, _, rfl, rfl, by decide⟩
  reads {x t tail} text _ line := by
    have read := parseString_text text tail line
    cases text
    rw [cons_append] at read ⊢
    simp only [parseElement, if_true, read]
    rfl
  type _ := rfl

lemma integer_starts {n : Int} (text : IntegerText n t) : ∃ c rest, t = c :: rest ∧ (c = minus ∨ isdigit c = true) := by
  cases text with
  | nonneg nonempty digits =>
    obtain ⟨c, rest, rfl⟩ := exists_cons_of_ne_nil nonempty
    exact ⟨c, rest, rfl, Or.inr (digits c mem_cons_self)⟩
  | negative => exact ⟨minus, _, rfl, Or.inl rfl⟩

lemma isBare_of_integer (first : c = minus ∨ isdigit c = true) : isBare c = true := by
  rcases first with rfl | digit
  · rfl
  · simp [isBare, isalnum, digit]

lemma isSkipped_of_isBare (bare : isBare c = true) : isSkipped c = false := by
  cases skipped : isSkipped c with
  | false => rfl
  | true =>
    rw [isBare_of_isSkipped skipped] at bare
    cases bare

lemma ne_of_isBare {c b : UInt8} (bare : isBare c = true) (other : isBare b = false) : c ≠ b := by
  rintro rfl
  rw [other] at bare
  cases bare

lemma integerElement : ElementRule (fun n : LongInt => IntegerText n.1) (fun n => .int n.1) .int where
  starts text := by
    obtain ⟨c, rest, same, first⟩ := integer_starts text
    have bare := isBare_of_integer first
    exact ⟨c, rest, same, isSkipped_of_isBare bare, ne_of_isBare bare rfl⟩
  reads {x t tail} text stops line := by
    have read := parseInteger_text text stops line
    obtain ⟨c, rest, rfl, first⟩ := integer_starts text
    have notQuote : c ≠ quote := ne_of_isBare (isBare_of_integer first) rfl
    have accepted : (decide (c = minus) || isdigit c) = true := by simpa using first
    rw [cons_append] at read ⊢
    simp only [parseElement, if_neg notQuote, accepted, if_true, read]
    rfl
  type _ := rfl

section Items

variable {τ : Type} {Elem : τ → List UInt8 → Prop} {tv : τ → Tv} {type : TvType}

def afterItem (c : UInt8) (rest : List UInt8) : List UInt8 := if c = comma then rest else c :: rest

variable {g : List UInt8} {arrType : Option TvType}

lemma arrayTurn_close (gap : Gap g) (tail : List UInt8) (line : Int32) (arrType : Option TvType) (arr : Arr) :
    ∃ line', arrayTurn ⟨⟨g ++ closeBracket :: tail, line⟩, arrType, arr⟩ = .ok (.inr (arr, ⟨tail, line'⟩)) := by
  have stops : Stops isSkipped (closeBracket :: tail) := stops_cons.mpr rfl
  obtain ⟨line', skipped⟩ := skip_gap gap stops line
  refine ⟨line', ?_⟩
  unfold arrayTurn
  simp [skipped]

lemma found_arrayLoop_close (gap : Gap g) (tail : List UInt8) (line : Int32) (arrType : Option TvType) (arr : Arr) :
    found (arrayLoop ⟨⟨g ++ closeBracket :: tail, line⟩, arrType, arr⟩) = some (arr, tail) := by
  obtain ⟨line', done⟩ := arrayTurn_close gap tail line arrType arr
  rw [found, arrayLoop, runLoop_done done]
  rfl

section

variable (rule : ElementRule Elem tv type) {x : τ} {t g' : List UInt8} (gap : Gap g) (elem : Elem x t) (gap' : Gap g')
  (next : c = comma ∨ c = closeBracket) (rest : List UInt8) (line : Int32)
  (same : arrType = none ∨ arrType = some type) (arr : Arr)

include rule gap elem gap' next same

lemma arrayTurn_item : ∃ line', (arrayTurn ⟨⟨g ++ (t ++ (g' ++ c :: rest)), line⟩, arrType, arr⟩).toOption =
      (arrPush arr (tv x)).map fun arr => .inl ⟨⟨afterItem c rest, line'⟩, some type, arr⟩ := by
  have notSkipped : isSkipped c = false := by rcases next with rfl | rfl <;> rfl
  have notDigit : isdigit c = false := by rcases next with rfl | rfl <;> rfl
  obtain ⟨b, more, rfl, starts, notClose⟩ := rule.starts elem
  have atItem : Stops isSkipped (b :: more ++ (g' ++ c :: rest)) := stops_cons.mpr starts
  have atNext : Stops isSkipped (c :: rest) := stops_cons.mpr notSkipped
  have ended : Stops isdigit (g' ++ c :: rest) :=
    gap'.stops (fun d skips => isdigit_of_not_isBare (isBare_of_isSkipped skips)) (stops_cons.mpr notDigit)
  obtain ⟨first, skipped⟩ := skip_gap gap atItem line
  obtain ⟨second, skippedAgain⟩ := skip_gap gap' atNext first
  have homogeneous : (arrType.any (· ≠ (tv x).type)) = false := by
    rw [rule.type]
    rcases same with rfl | rfl <;> simp
  have read := rule.reads elem ended first
  refine ⟨second, ?_⟩
  rw [cons_append] at skipped read ⊢
  unfold arrayTurn
  simp only [skipped, if_neg notClose, read]
  change Except.toOption (if _ then _ else _) = _
  rw [homogeneous, if_neg Bool.false_ne_true]
  cases arrPush arr (tv x) with
  | none => rfl
  | some pushed =>
    simp only [skippedAgain, rule.type]
    rcases next with rfl | rfl
    · rfl
    · rfl

lemma found_arrayLoop_item : ∃ line', found (arrayLoop ⟨⟨g ++ (t ++ (g' ++ c :: rest)), line⟩, arrType, arr⟩) =
      (arrPush arr (tv x)).bind fun arr => found (arrayLoop ⟨⟨afterItem c rest, line'⟩, some type, arr⟩) := by
  obtain ⟨line', turn⟩ := arrayTurn_item rule gap elem gap' next rest line same arr
  refine ⟨line', ?_⟩
  rw [found, arrayLoop, toOption_runLoop, turn]
  cases arrPush arr (tv x) <;> rfl

end

variable {text : List UInt8} {l : List τ}

lemma found_arrayLoop (rule : ElementRule Elem tv type)
    (items : ItemsText Elem l text) (tail : List UInt8) (line : Int32) (same : arrType = none ∨ arrType = some type)
    (arr : Arr) : found (arrayLoop ⟨⟨text ++ tail, line⟩, arrType, arr⟩) =
      ((l.map tv).foldlM arrPush arr).map fun arr => (arr, tail) := by
  induction items generalizing line arrType arr with
  | nil gap =>
    rw [append_assoc]
    exact found_arrayLoop_close gap tail line arrType arr
  | last gap elem gap' =>
    simp only [append_assoc, singleton_append]
    obtain ⟨line', turn⟩ := found_arrayLoop_item rule gap elem gap' (.inr rfl) tail line same arr
    rw [turn, map_singleton, foldlM_cons]
    have closed (pushed : Arr) : found (arrayLoop ⟨⟨afterItem closeBracket tail, line'⟩, some type, pushed⟩) =
        some (pushed, tail) := found_arrayLoop_close Gap.nil tail line' (some type) pushed
    simp only [closed]
    cases arrPush arr (tv _) <;> rfl
  | cons gap elem gap' _ ih =>
    simp only [append_assoc, cons_append]
    obtain ⟨line', turn⟩ := found_arrayLoop_item rule gap elem gap' (.inl rfl) _ line same arr
    rw [turn, map_cons, foldlM_cons]
    have others (pushed : Arr) := ih line' (.inr rfl) pushed
    simp only [afterItem, if_true, others]
    cases arrPush arr (tv _) <;> rfl

lemma found_parseArray (rule : ElementRule Elem tv type)
    (items : ItemsText Elem l text) (tail : List UInt8) (line : Int32) :
    found (parseArray ⟨openBracket :: text ++ tail, line⟩) =
      ((l.map tv).foldlM arrPush arrNew).map fun arr => (arr, tail) := by
  rw [cons_append, parseArray]
  exact found_arrayLoop rule items tail line (.inl rfl) arrNew

end Items

def Value.build : Value → Option Tv
  | .str s => some (.str s.bytes)
  | .int n => some (.int n.1)
  | .bool b => some (.bool b)
  | .strs l => ((l.map fun s => Tv.str s.bytes).foldlM arrPush arrNew).map Arr.tv
  | .ints l => ((l.map fun n => Tv.int n.1).foldlM arrPush arrNew).map Arr.tv

def Ended (tail : List UInt8) : Prop := Stops (!isSkipped ·) tail

lemma Ended.stops (ended : Ended tail) (skips : ∀ c, isSkipped c = true → p c = false) : Stops p tail := by
  cases tail with
  | nil => exact stops_nil
  | cons c tail =>
    have skipped : isSkipped c = true := by simpa using stops_cons.mp ended
    exact stops_cons.mpr (skips c skipped)

lemma wordEnd_append (word : List UInt8) (ended : Ended tail) : wordEnd word (word ++ tail) = some tail := by
  have enough : word.length ≤ (word ++ tail).length ∧ (word ++ tail).take word.length = word :=
    ⟨by simp, take_left⟩
  rw [wordEnd, if_pos enough, drop_left]
  cases tail with
  | nil => rfl
  | cons c tail =>
    have skipped : isSkipped c = true := by simpa using stops_cons.mp ended
    exact if_pos skipped

lemma wordEnd_of_ne (apart : c ≠ w) (word rest : List UInt8) : wordEnd (w :: word) (c :: rest) = none := by
  rw [wordEnd, if_neg]
  rintro ⟨-, same⟩
  exact apart (List.cons.inj same).1

lemma found_bind_ok {β : Type} (f : α → β) (result : Except Fail (α × Input)) :
    found (result >>= fun out => .ok (f out.1, out.2)) = (found result).map fun out => (f out.1, out.2) := by
  cases result <;> rfl

lemma skipWs_of_ne (notBlank : isBlank c = false) (rest : List UInt8) (line : Int32) :
    skipWs ⟨c :: rest, line⟩ = ⟨c :: rest, line⟩ := by
  have stops : Stops isBlank (c :: rest) := stops_cons.mpr notBlank
  exact skipWs_blanks (b := []) (fun _ mem => by cases mem) stops line

lemma parseValue_quote (rest : List UInt8) (line : Int32) : parseValue ⟨quote :: rest, line⟩ =
      parseString ⟨quote :: rest, line⟩ >>= fun out => .ok (.str out.1, out.2) := by
  rw [parseValue, skipWs_of_ne rfl]
  simp

lemma parseValue_bracket (rest : List UInt8) (line : Int32) : parseValue ⟨openBracket :: rest, line⟩ =
      parseArray ⟨openBracket :: rest, line⟩ >>= fun out => .ok (out.1.tv, out.2) := by
  have notQuote : openBracket ≠ quote := by decide
  rw [parseValue, skipWs_of_ne rfl]
  simp only [if_neg notQuote, if_true]

lemma isBlank_of_isBare (bare : isBare c = true) : isBlank c = false := by
  have notSkipped := isSkipped_of_isBare bare
  simp only [isSkipped, Bool.or_eq_false_iff] at notSkipped
  exact notSkipped.1.1

lemma parseValue_integer (first : c = minus ∨ isdigit c = true) (rest : List UInt8) (line : Int32) :
    parseValue ⟨c :: rest, line⟩ = parseInteger ⟨c :: rest, line⟩ >>= fun out => .ok (.int out.1, out.2) := by
  have bare := isBare_of_integer first
  have notQuote : c ≠ quote := ne_of_isBare bare rfl
  have notBracket : c ≠ openBracket := ne_of_isBare bare rfl
  have accepted : (decide (c = minus) || isdigit c) = true := by simpa using first
  have notTrue : c ≠ 0x74 := by
    rintro rfl
    rcases first with first | first <;> cases first
  have notFalse : c ≠ 0x66 := by
    rintro rfl
    rcases first with first | first <;> cases first
  rw [parseValue, skipWs_of_ne (isBlank_of_isBare bare)]
  simp only [if_neg notQuote, if_neg notBracket, trueWord, falseWord, wordEnd_of_ne notTrue, wordEnd_of_ne notFalse,
    accepted, if_true]

variable {rest : List UInt8}

lemma parseValue_true (letter : isBare c = true) (word : wordEnd trueWord (c :: rest) = some tail)
    (line : Int32) : parseValue ⟨c :: rest, line⟩ = .ok (.bool true, ⟨tail, line⟩) := by
  have notQuote : c ≠ quote := ne_of_isBare letter rfl
  have notBracket : c ≠ openBracket := ne_of_isBare letter rfl
  rw [parseValue, skipWs_of_ne (isBlank_of_isBare letter)]
  simp [if_neg notQuote, if_neg notBracket, word]

lemma parseValue_false (letter : isBare c = true) (notTrue : wordEnd trueWord (c :: rest) = none)
    (word : wordEnd falseWord (c :: rest) = some tail) (line : Int32) :
    parseValue ⟨c :: rest, line⟩ = .ok (.bool false, ⟨tail, line⟩) := by
  have notQuote : c ≠ quote := ne_of_isBare letter rfl
  have notBracket : c ≠ openBracket := ne_of_isBare letter rfl
  rw [parseValue, skipWs_of_ne (isBlank_of_isBare letter)]
  simp [if_neg notQuote, if_neg notBracket, notTrue, word]

lemma found_parseValue {v : Value} (text : ValueText v t) (ended : Ended tail) (line : Int32) :
    found (parseValue ⟨t ++ tail, line⟩) = v.build.map fun tv => (tv, tail) := by
  cases text with
  | str text =>
    have read := parseString_text text tail line
    cases text
    rw [cons_append] at read ⊢
    rw [parseValue_quote, found_bind_ok, read]
    rfl
  | int text =>
    have stops := ended.stops fun c skips => isdigit_of_not_isBare (isBare_of_isSkipped skips)
    have read := parseInteger_text text stops line
    obtain ⟨c, rest, rfl, first⟩ := integer_starts text
    rw [cons_append] at read ⊢
    rw [parseValue_integer first, found_bind_ok, read]
    rfl
  | true => exact congrArg found (parseValue_true rfl (wordEnd_append trueWord ended) line)
  | false =>
    have notTrue : (0x66 : UInt8) ≠ 0x74 := by decide
    exact congrArg found (parseValue_false rfl (wordEnd_of_ne notTrue _ _) (wordEnd_append falseWord ended) line)
  | strs text =>
    rw [cons_append, parseValue_bracket, found_bind_ok, ← cons_append, found_parseArray stringElement text,
      Value.build, Option.map_map, Option.map_map]
    rfl
  | ints text =>
    rw [cons_append, parseValue_bracket, found_bind_ok, ← cons_append, found_parseArray integerElement text,
      Value.build, Option.map_map, Option.map_map]
    rfl

lemma parseKey_text {k : CStr} (text : KeyText k t) (stops : Stops isBare tail) (line : Int32) :
    parseKey ⟨t ++ tail, line⟩ = .ok (k.bytes, ⟨tail, line⟩) := by
  cases text with
  | bare nonempty bare =>
    obtain ⟨c, more, bytes⟩ := exists_cons_of_ne_nil nonempty
    have letter := bare c (by rw [bytes]; exact mem_cons_self)
    have notQuote : c ≠ quote := ne_of_isBare letter rfl
    have taken := stops.takeWhile bare
    have dropped := stops.dropWhile bare
    rw [bytes, cons_append] at taken dropped ⊢
    rw [parseKey, skipWs_of_ne (isBlank_of_isBare letter)]
    simp only [if_neg notQuote, taken, if_neg (cons_ne_nil c more), dropped]
  | quoted text =>
    have read := parseString_text text tail line
    cases text
    rw [cons_append] at read ⊢
    rw [parseKey, skipWs_of_ne rfl]
    simp only [if_true, read]

lemma isNameEnd_of_isBlank (blank : isBlank c = true) : isNameEnd c = false := by
  rcases eq_of_isBlank blank with rfl | rfl <;> rfl

lemma isNameEnd_of_isBare (bare : isBare c = true) : isNameEnd c = false := by
  have notSkipped := isSkipped_of_isBare bare
  simp only [isSkipped, Bool.or_eq_false_iff] at notSkipped
  simp only [isNameEnd, Bool.or_eq_false_iff, decide_eq_false_iff_not]
  exact ⟨ne_of_isBare bare rfl, notSkipped.1.2⟩

lemma rdropWhile_blanks (name : Name) (blanks : Blanks b) : (name.bytes ++ b).rdropWhile isBlank = name.bytes := by
  have atName : Stops isBlank name.bytes.reverse := by
    intro c last
    exact isBlank_of_isBare (name.bare c (List.mem_reverse.mp (mem_of_head? last)))
  have reversed : ∀ c ∈ b.reverse, isBlank c = true := fun c mem => blanks c (List.mem_reverse.mp mem)
  rw [List.rdropWhile, reverse_append, atName.dropWhile reversed, reverse_reverse]

lemma Name.noNul (name : Name) : 0 ∉ name.bytes := by
  intro mem
  cases name.bare 0 mem

lemma parseHeaderName_text (name : Name) (before : Blanks b) (after : Blanks b') (tail : List UInt8) (line : Int32) :
    parseHeaderName ⟨b ++ (name.bytes ++ (b' ++ closeBracket :: tail)), line⟩ =
      .ok (name.bytes, ⟨closeBracket :: tail, line⟩) := by
  obtain ⟨c, more, bytes⟩ := exists_cons_of_ne_nil name.nonempty
  have letter : isBare c = true := name.bare c (by rw [bytes]; exact mem_cons_self)
  have atName : Stops isBlank (name.bytes ++ (b' ++ closeBracket :: tail)) := by
    rw [bytes]
    exact stops_cons.mpr (isBlank_of_isBare letter)
  have inside : ∀ d ∈ name.bytes ++ b', (!isNameEnd d) = true := by
    intro d mem
    rcases List.mem_append.mp mem with inName | inBlanks
    · rw [isNameEnd_of_isBare (name.bare d inName)]
      rfl
    · rw [isNameEnd_of_isBlank (after d inBlanks)]
      rfl
  have closed : Stops (!isNameEnd ·) (closeBracket :: tail) := stops_cons.mpr rfl
  have taken := closed.takeWhile inside
  have dropped := closed.dropWhile inside
  rw [append_assoc] at taken dropped
  rw [parseHeaderName, skipWs_blanks before atName]
  simp [taken, dropped, rdropWhile_blanks name after, if_neg name.nonempty, cstr_of_noNul name.noNul]

lemma skipLine_comment {c n : List UInt8} (comment : Comment c) (newline : Newline n) (rest : List UInt8)
    (line : Int32) : skipLine ⟨c ++ (n ++ rest), line⟩ = ⟨rest, line + 1⟩ := by
  cases comment with
  | mk inside =>
    have dropped := dropWhile_comment inside (newline.stops_line rest)
    rw [skipLine, cons_append, dropWhile_cons_of_pos rfl, dropped]
    cases newline <;> rfl

lemma skipLine_last {c : List UInt8} (comment : Comment c) (line : Int32) : skipLine ⟨c, line⟩ = ⟨[], line⟩ := by
  cases comment with
  | mk inside =>
    have dropped := dropWhile_comment inside stops_nil
    rw [append_nil] at dropped
    rw [skipLine, dropWhile_cons_of_pos rfl, dropped]

lemma lineEnd_blanks (stops : Stops isBlank tail) (blanks : Blanks b) (msg : String) (line : Int32) :
    lineEnd msg ⟨b ++ tail, line⟩ = lineEnd msg ⟨tail, line⟩ := by
  have none : Blanks [] := fun _ mem => by cases mem
  have same : skipWs ⟨tail, line⟩ = ⟨tail, line⟩ := skipWs_blanks none stops line
  rw [lineEnd, lineEnd, skipWs_blanks blanks stops, same]

lemma lineEnd_comment {c : List UInt8} (comment : Comment c) (tail : List UInt8) (msg : String) (line : Int32) :
    lineEnd msg ⟨c ++ tail, line⟩ = .ok (skipLine ⟨c ++ tail, line⟩) := by
  cases comment
  rw [cons_append, lineEnd, skipWs_of_ne rfl]
  simp

lemma lineEnd_newline (newline : Newline n) (rest : List UInt8) (msg : String) (line : Int32) :
    lineEnd msg ⟨n ++ rest, line⟩ = .ok ⟨n ++ rest, line⟩ := by
  cases newline with
  | lf => rfl
  | crlf => rfl

lemma lineEnd_line (trailer : Trailer t) (newline : Newline n) (rest : List UInt8) :
    ∃ g, Gap g ∧ ∀ msg line, ∃ line', lineEnd msg ⟨t ++ (n ++ rest), line⟩ = .ok ⟨g ++ rest, line'⟩ := by
  cases trailer with
  | blanks blanks =>
    have stops : Stops isBlank (n ++ rest) := by
      cases newline <;> exact stops_cons.mpr rfl
    have gap : Gap n := by
      have line := Gap.newline newline Gap.nil
      rwa [append_nil] at line
    refine ⟨n, gap, fun msg line => ⟨line, ?_⟩⟩
    rw [lineEnd_blanks stops blanks, lineEnd_newline newline]
  | @comment b c blanks comment =>
    have stops : Stops isBlank (c ++ (n ++ rest)) := by
      cases comment
      exact stops_cons.mpr rfl
    refine ⟨[], Gap.nil, fun msg line => ⟨line + 1, ?_⟩⟩
    rw [append_assoc, lineEnd_blanks stops blanks, lineEnd_comment comment, skipLine_comment comment newline]
    rfl

lemma lineEnd_last (trailer : Trailer t) (msg : String) (line : Int32) : lineEnd msg ⟨t, line⟩ = .ok ⟨[], line⟩ := by
  cases trailer with
  | blanks blanks =>
    have ended := lineEnd_blanks stops_nil blanks msg line
    rw [append_nil] at ended
    exact ended
  | @comment b c blanks comment =>
    have stops : Stops isBlank c := by
      cases comment
      exact stops_cons.mpr rfl
    have read := lineEnd_comment comment [] msg line
    rw [append_nil, skipLine_last comment] at read
    rw [lineEnd_blanks stops blanks, read]

lemma Trailer.ended (trailer : Trailer t) (ended : Ended tail) : Ended (t ++ tail) := by
  have skips : ∀ c, isSkipped c = true → (!isSkipped c) = false := fun c skipped => by rw [skipped]; rfl
  cases trailer with
  | blanks blanks => exact blanks.stops skips ended
  | comment blanks comment =>
    rw [append_assoc]
    exact blanks.stops skips (comment.stops skips)

end LibOp.Toml

import LibOp.Foundation.Bytes
import LibOp.Foundation.Loops
import LibOp.Toml.Values

namespace LibOp.Toml

open Foundation List Nat

/-- The bytes from `cur` to `end`, and `line`. -/
structure Input where
  rest : List UInt8
  line : Int32

/-- An error with its line, format and arguments; or a read that the source does not allow. -/
inductive Fail where
  | error (line : Int32) (text : String) (args : List UInt8)
  | overread
  | useAfterFree (line : Int32) (text : String)
  | dangling

variable {α : Type}

def Input.setErr (p : Input) (msg : String) : Except Fail α := .error (.error p.line msg [])

def Input.setErrf (p : Input) (fmt : String) (args : List UInt8) : Except Fail α := .error (.error p.line fmt args)

def tab : UInt8 := 0x09

def lf : UInt8 := 0x0A

def cr : UInt8 := 0x0D

def quote : UInt8 := 0x22

def hash : UInt8 := 0x23

def comma : UInt8 := 0x2C

def equals : UInt8 := 0x3D

def openBracket : UInt8 := 0x5B

def backslash : UInt8 := 0x5C

def closeBracket : UInt8 := 0x5D

def isBlank (c : UInt8) : Bool := c = space || c = tab

def isEol (c : UInt8) : Bool := c = lf || c = cr

def isdigit (c : UInt8) : Bool := 0x30 ≤ c && c ≤ 0x39

def isalnum (c : UInt8) : Bool := isdigit c || (0x41 ≤ c && c ≤ 0x5A) || (0x61 ≤ c && c ≤ 0x7A)

def isBare (c : UInt8) : Bool := isalnum c || c = underscore || c = minus

def cstr (buf : List UInt8) : List UInt8 := buf.takeWhile (· ≠ 0)

def skipWs (p : Input) : Input := { p with rest := p.rest.dropWhile isBlank }

def skipLf : List UInt8 → List UInt8
  | [] => []
  | c :: rest => if c = lf then rest else c :: rest

lemma length_skipLf_le (rest : List UInt8) : (skipLf rest).length ≤ rest.length := by
  unfold skipLf
  split
  · exact le_rfl
  · split_ifs
    · exact le_succ _
    · exact le_rfl

def skipGap (rest : List UInt8) (line : Int32) : Input :=
  match rest with
  | [] => ⟨[], line⟩
  | c :: rest =>
    if isBlank c then skipGap rest line
    else if c = lf then skipGap rest (line + 1)
    else if c = cr then skipGap (skipLf rest) (line + 1)
    else if c = hash then skipGap (rest.dropWhile (!isEol ·)) line
    else ⟨c :: rest, line⟩
termination_by rest.length
decreasing_by
  · exact Nat.lt_succ_self _
  · exact Nat.lt_succ_self _
  · exact Nat.lt_succ_of_le (length_skipLf_le _)
  · exact Nat.lt_succ_of_le (List.dropWhile_suffix _).length_le

def skipWsAndNewlines (p : Input) : Input := skipGap p.rest p.line

def skipLine (p : Input) : Input :=
  match p.rest.dropWhile (!isEol ·) with
  | [] => ⟨[], p.line⟩
  | c :: rest => ⟨if c = cr then skipLf rest else rest, p.line + 1⟩

def unescape (esc : UInt8) : Option UInt8 :=
  if esc = quote then some quote
  else if esc = backslash then some backslash
  else if esc = 0x6E then some lf
  else if esc = 0x74 then some tab
  else if esc = 0x72 then some cr
  else if esc = 0x30 then some 0
  else none

/-- The loop of `parse_string`, with the bytes it has written. -/
def stringLoop (line : Int32) : List UInt8 → List UInt8 → Except Fail (List UInt8 × Input)
  | [], _ => Input.setErr ⟨[], line⟩ "unterminated string"
  | c :: rest, buf =>
    if c = quote then .ok (cstr buf, ⟨rest, line⟩)
    else if isEol c then Input.setErr ⟨c :: rest, line⟩ "unterminated string (newline inside quoted string)"
    else if c = backslash then
      match rest with
      | [] => Input.setErr ⟨[], line⟩ "unterminated escape sequence"
      | esc :: rest =>
        match unescape esc with
        | some b => stringLoop line rest (buf ++ [b])
        | none => Input.setErrf ⟨rest, line⟩ "unknown escape sequence '\\%c'" [esc]
    else stringLoop line rest (buf ++ [c])

def parseString (p : Input) : Except Fail (List UInt8 × Input) :=
  match p.rest with
  | [] => p.setErr "expected '\"'"
  | c :: rest => if c = quote then stringLoop p.line rest [] else p.setErr "expected '\"'"

def longMax : Nat := 2 ^ 63 - 1

def digitsLoop (line : Int32) : List UInt8 → Nat → Except Fail (Nat × Input)
  | [], val => .ok (val, ⟨[], line⟩)
  | c :: rest, val =>
    if isdigit c then
      let d := c.toNat - 0x30
      if val > (longMax - d) / 10 then Input.setErr ⟨c :: rest, line⟩ "integer overflow"
      else digitsLoop line rest (val * 10 + d)
    else .ok (val, ⟨c :: rest, line⟩)

def parseInteger (p : Input) : Except Fail (Int × Input) :=
  match p.rest with
  | [] => p.setErr "expected integer"
  | c :: rest =>
    let (neg, digits) := if c = minus then (true, rest) else (false, c :: rest)
    match digits with
    | [] => p.setErr "expected digit after '-'"
    | d :: more =>
      if isdigit d then do
        let (val, p) ← digitsLoop p.line (d :: more) 0
        .ok (if neg then -val else val, p)
      else p.setErr "expected digit after '-'"

inductive TvType where
  | str
  | int
  | bool
  | table
  | arr
deriving DecidableEq

def Tv.type : Tv → TvType
  | .str _ => .str
  | .int _ => .int
  | .bool _ => .bool
  | .table _ _ => .table
  | .arr _ _ => .arr

def parseElement (p : Input) : Except Fail (Tv × Input) :=
  match p.rest with
  | [] => .error .overread
  | c :: _ =>
    if c = quote then do
      let (s, p) ← parseString p
      .ok (.str s, p)
    else if c = minus || isdigit c then do
      let (n, p) ← parseInteger p
      .ok (.int n, p)
    else p.setErrf "unexpected character '%c' in array" [c]

/-! The parsers leave less than they got, so that the loops end. -/

lemma bind_ok {ε β : Type} {x : Except ε α} {f : α → Except ε β} {b : β} (done : x >>= f = .ok b) :
    ∃ a, x = .ok a ∧ f a = .ok b := by
  cases x with
  | error e => cases done
  | ok a => exact ⟨a, rfl, done⟩

variable {line : Int32} {q : Input}

lemma stringLoop_shrinks (done : stringLoop line rest buf = .ok (s, q)) : q.rest.length < rest.length := by
  fun_induction stringLoop line rest buf <;> simp_all [Input.setErr, Input.setErrf] <;> grind

variable {p q : Input}

lemma parseString_shrinks (done : parseString p = .ok (s, q)) : q.rest.length < p.rest.length := by
  unfold parseString at done
  split at done
  · cases done
  next c rest bytes =>
    split_ifs at done
    · have shorter := stringLoop_shrinks done
      rw [bytes, length_cons]
      omega
    · cases done

lemma digitsLoop_shrinks {n val : Nat} (done : digitsLoop line rest n = .ok (val, q)) :
    q.rest.length ≤ rest.length := by
  fun_induction digitsLoop line rest n <;> simp_all [Input.setErr] <;> grind

lemma digitsLoop_shrinks_of_digit {n val : Nat} (digit : isdigit d = true)
    (done : digitsLoop line (d :: more) n = .ok (val, q)) : q.rest.length ≤ more.length := by
  rw [digitsLoop, if_pos digit] at done
  simp only at done
  split_ifs at done
  · cases done
  · exact digitsLoop_shrinks done

lemma parseInteger_shrinks {n : Int} (done : parseInteger p = .ok (n, q)) : q.rest.length < p.rest.length := by
  unfold parseInteger at done
  split at done
  · cases done
  next c rest bytes =>
    split at done
    rename_i neg digits sign
    split at done
    · cases done
    next d more =>
      by_cases digit : isdigit d = true
      · rw [if_pos digit] at done
        obtain ⟨⟨val, q'⟩, read, same⟩ := bind_ok done
        cases same
        have shorter := digitsLoop_shrinks_of_digit digit read
        rw [bytes, length_cons]
        split_ifs at sign
        · cases sign
          rw [length_cons]
          omega
        · cases sign
          omega
      · rw [if_neg digit] at done
        cases done

lemma parseElement_shrinks {item : Tv} (done : parseElement p = .ok (item, q)) : q.rest.length < p.rest.length := by
  unfold parseElement at done
  split at done
  · cases done
  · split_ifs at done
    · obtain ⟨⟨s, q'⟩, read, same⟩ := bind_ok done
      cases same
      exact parseString_shrinks read
    · obtain ⟨⟨n, q'⟩, read, same⟩ := bind_ok done
      cases same
      exact parseInteger_shrinks read
    · cases done

lemma length_skipGap_le (rest : List UInt8) (line : Int32) : (skipGap rest line).rest.length ≤ rest.length := by
  fun_induction skipGap rest line with
  | case1 | case6 => exact le_rfl
  | case2 line c rest blank ih | case3 line rest blank ih => exact le_succ_of_le ih
  | case4 line rest blank notLf ih => exact le_succ_of_le (le_trans ih (length_skipLf_le _))
  | case5 line rest blank notLf notCr ih => exact le_succ_of_le (le_trans ih (dropWhile_suffix _).length_le)

/-- The locals of `parse_array`; `arr_type` is there when `have_type` is set. -/
structure ArrayState where
  input : Input
  arrType : Option TvType
  arr : Arr

def arrayTurn (st : ArrayState) : Except Fail (ArrayState ⊕ (Arr × Input)) :=
  let p := skipWsAndNewlines st.input
  match p.rest with
  | [] => p.setErr "unterminated array"
  | c :: rest =>
    if c = closeBracket then .ok (.inr (st.arr, { p with rest }))
    else do
      let (item, p) ← parseElement p
      if st.arrType.any (· ≠ item.type) then p.setErr "mixed-type arrays are not supported"
      else
        match arrPush st.arr item with
        | none => p.setErr "out of memory"
        | some arr =>
          let p := skipWsAndNewlines p
          match p.rest with
          | [] => p.setErr "unterminated array"
          | c :: rest =>
            if c = comma then .ok (.inl ⟨{ p with rest }, some item.type, arr⟩)
            else if c ≠ closeBracket then p.setErrf "expected ',' or ']' in array, got '%c'" [c]
            else .ok (.inl ⟨p, some item.type, arr⟩)

lemma arrayTurn_shrinks (st next : ArrayState) (more : arrayTurn st = .ok (.inl next)) :
    next.input.rest.length < st.input.rest.length := by
  have skipped := length_skipGap_le st.input.rest st.input.line
  unfold arrayTurn at more
  simp only at more
  split at more
  · cases more
  · split_ifs at more
    · cases more
    · obtain ⟨⟨item, q⟩, read, rest⟩ := bind_ok more
      have shorter := parseElement_shrinks read
      have again := length_skipGap_le q.rest q.line
      change _ < (skipGap st.input.rest st.input.line).rest.length at shorter
      split_ifs at rest
      · cases rest
      · split at rest
        · cases rest
        · split at rest
          · cases rest
          next c tail bytes =>
            change (skipGap q.rest q.line).rest = c :: tail at bytes
            rw [bytes, length_cons] at again
            split_ifs at rest
            · cases rest
              change tail.length < _
              omega
            · cases rest
            · cases rest
              change (skipGap q.rest q.line).rest.length < _
              rw [bytes, length_cons]
              omega

def arrayLoop : ArrayState → Except Fail (Arr × Input) :=
  runLoop arrayTurn (fun st => st.input.rest.length) arrayTurn_shrinks

def parseArray (p : Input) : Except Fail (Arr × Input) :=
  match p.rest with
  | [] => p.setErr "expected '['"
  | c :: rest => if c = openBracket then arrayLoop ⟨{ p with rest }, none, arrNew⟩ else p.setErr "expected '['"

/-- `true` or `false` with the byte that has to follow. -/
def wordEnd (word rest : List UInt8) : Option (List UInt8) :=
  if word.length ≤ rest.length ∧ rest.take word.length = word then
    match rest.drop word.length with
    | [] => some []
    | nx :: tail => if isBlank nx || isEol nx || nx = hash then some (nx :: tail) else none
  else none

def trueWord : List UInt8 := [0x74, 0x72, 0x75, 0x65]

def falseWord : List UInt8 := [0x66, 0x61, 0x6C, 0x73, 0x65]

def parseValue (p : Input) : Except Fail (Tv × Input) :=
  let p := skipWs p
  match p.rest with
  | [] => p.setErr "expected value"
  | c :: _ =>
    if c = quote then do
      let (s, p) ← parseString p
      .ok (.str s, p)
    else if c = openBracket then do
      let (a, p) ← parseArray p
      .ok (a.tv, p)
    else
      match wordEnd trueWord p.rest with
      | some rest => .ok (.bool true, { p with rest })
      | none =>
        match wordEnd falseWord p.rest with
        | some rest => .ok (.bool false, { p with rest })
        | none =>
          if c = minus || isdigit c then do
            let (n, p) ← parseInteger p
            .ok (.int n, p)
          else p.setErrf "unexpected character '%c' in value" [c]

def parseKey (p : Input) : Except Fail (List UInt8 × Input) :=
  let p := skipWs p
  match p.rest with
  | [] => p.setErr "expected key"
  | c :: _ =>
    if c = quote then parseString p
    else
      let key := p.rest.takeWhile isBare
      if key = [] then p.setErrf "invalid key character '%c'" [c]
      else .ok (key, { p with rest := p.rest.dropWhile isBare })

def isNameEnd (c : UInt8) : Bool := c = closeBracket || isEol c

def parseHeaderName (p : Input) : Except Fail (List UInt8 × Input) :=
  let p := skipWs p
  let name := (p.rest.takeWhile (!isNameEnd ·)).rdropWhile isBlank
  let p := { p with rest := p.rest.dropWhile (!isNameEnd ·) }
  if name = [] then p.setErr "empty table name" else .ok (cstr name, p)

/-- `cur` is at `c`, which is consumed. -/
def expect (c : UInt8) (msg : String) (p : Input) : Except Fail Input :=
  match p.rest with
  | [] => p.setErr msg
  | b :: rest => if b = c then .ok { p with rest } else p.setErr msg

def lineEnd (msg : String) (p : Input) : Except Fail Input :=
  let p := skipWs p
  match p.rest with
  | [] => .ok p
  | c :: _ => if c = hash then .ok (skipLine p) else if isEol c then .ok p else p.setErr msg

/-- The second bracket of `[[`, where there is one. -/
def openTwice (p : Input) : Bool × Input :=
  match p.rest with
  | [] => (false, p)
  | c :: rest => if c = openBracket then (true, { p with rest }) else (false, p)

/-- The second bracket of `]]`. -/
def closeTwice (isAot : Bool) (p : Input) : Except Fail Input :=
  if isAot then expect closeBracket "expected ']]' after array-of-tables name" p else .ok p

/-- A header behind its first bracket: `is_aot` and the name. -/
def parseHeader (p : Input) : Except Fail (Bool × List UInt8 × Input) := do
  let (isAot, p) := openTwice p
  let (name, p) ← parseHeaderName p
  let p ← expect closeBracket "expected ']' after table name" p
  let p ← closeTwice isAot p
  let p ← lineEnd "unexpected characters after table header" p
  .ok (isAot, name, p)

lemma length_skipWs_le (p : Input) : (skipWs p).rest.length ≤ p.rest.length := (dropWhile_suffix _).length_le

lemma length_skipLine_le (p : Input) : (skipLine p).rest.length ≤ p.rest.length := by
  have shorter := (dropWhile_suffix (l := p.rest) (!isEol ·)).length_le
  unfold skipLine
  split
  · exact zero_le _
  next c rest bytes =>
    rw [bytes, length_cons] at shorter
    have skipped := length_skipLf_le rest
    simp only
    split_ifs
    · omega
    · omega

lemma arrayTurn_leaves (st : ArrayState) (out : Arr × Input) (done : arrayTurn st = .ok (.inr out)) :
    out.2.rest.length ≤ st.input.rest.length := by
  have skipped := length_skipGap_le st.input.rest st.input.line
  unfold arrayTurn at done
  simp only at done
  split at done
  · cases done
  next c rest bytes =>
    change (skipGap st.input.rest st.input.line).rest = c :: rest at bytes
    rw [bytes, length_cons] at skipped
    split_ifs at done
    · cases done
      change rest.length ≤ _
      omega
    · obtain ⟨⟨item, q⟩, -, more⟩ := bind_ok done
      split_ifs at more
      · cases more
      · split at more
        · cases more
        · split at more
          · cases more
          · split_ifs at more <;> cases more

lemma parseArray_shrinks (done : parseArray p = .ok (a, q)) : q.rest.length < p.rest.length := by
  unfold parseArray at done
  split at done
  · cases done
  next c rest bytes =>
    split_ifs at done
    · have shorter := runLoop_bound (fun out => out.2.rest.length) arrayTurn_leaves done
      rw [bytes, length_cons]
      exact lt_succ_of_le shorter
    · cases done

lemma wordEnd_shrinks {word rest tail : List UInt8} (found : wordEnd word rest = some tail) :
    tail.length ≤ rest.length := by
  unfold wordEnd at found
  split_ifs at found
  have shorter : (rest.drop word.length).length ≤ rest.length := by simp
  split at found
  · cases found
    exact zero_le _
  next bytes =>
    rw [bytes] at shorter
    split_ifs at found
    cases found
    exact shorter

lemma parseValue_shrinks {val : Tv} (done : parseValue p = .ok (val, q)) : q.rest.length ≤ p.rest.length := by
  have skipped := length_skipWs_le p
  unfold parseValue at done
  simp only at done
  split at done
  · cases done
  · split at done
    · obtain ⟨⟨s, q'⟩, read, same⟩ := bind_ok done
      cases same
      exact le_of_lt (lt_of_lt_of_le (parseString_shrinks read) skipped)
    · split at done
      · obtain ⟨⟨a, q'⟩, read, same⟩ := bind_ok done
        cases same
        exact le_of_lt (lt_of_lt_of_le (parseArray_shrinks read) skipped)
      · split at done
        next found =>
          cases done
          exact le_trans (wordEnd_shrinks found) skipped
        · split at done
          next found =>
            cases done
            exact le_trans (wordEnd_shrinks found) skipped
          · split at done
            · obtain ⟨⟨n, q'⟩, read, same⟩ := bind_ok done
              cases same
              exact le_of_lt (lt_of_lt_of_le (parseInteger_shrinks read) skipped)
            · cases done

lemma parseKey_shrinks (done : parseKey p = .ok (key, q)) : q.rest.length ≤ p.rest.length := by
  have skipped := length_skipWs_le p
  unfold parseKey at done
  simp only at done
  split at done
  · cases done
  · split_ifs at done
    · exact le_of_lt (lt_of_lt_of_le (parseString_shrinks done) skipped)
    · cases done
    · cases done
      exact le_trans (dropWhile_suffix _).length_le skipped

lemma expect_shrinks (done : expect c msg p = .ok q) : q.rest.length < p.rest.length := by
  unfold expect at done
  split at done
  · cases done
  next b rest bytes =>
    split_ifs at done
    · cases done
      rw [bytes]
      exact lt_succ_self _
    · cases done

lemma lineEnd_shrinks (done : lineEnd msg p = .ok q) : q.rest.length ≤ p.rest.length := by
  have skipped := length_skipWs_le p
  unfold lineEnd at done
  simp only at done
  split at done
  · cases done
    exact skipped
  · split_ifs at done
    · cases done
      exact le_trans (length_skipLine_le _) skipped
    · cases done
      exact skipped
    · cases done

variable {name : List UInt8}

lemma parseHeaderName_shrinks (done : parseHeaderName p = .ok (name, q)) : q.rest.length ≤ p.rest.length := by
  have skipped := length_skipWs_le p
  unfold parseHeaderName at done
  simp only at done
  split_ifs at done
  · cases done
  · cases done
    exact le_trans (dropWhile_suffix _).length_le skipped

lemma openTwice_shrinks (p : Input) : (openTwice p).2.rest.length ≤ p.rest.length := by
  unfold openTwice
  split
  · exact le_rfl
  next bytes =>
    split_ifs
    · rw [bytes]
      exact le_succ _
    · exact le_rfl

lemma closeTwice_shrinks (done : closeTwice isAot p = .ok q) : q.rest.length ≤ p.rest.length := by
  unfold closeTwice at done
  split_ifs at done
  · exact le_of_lt (expect_shrinks done)
  · cases done
    exact le_rfl

lemma parseHeader_shrinks {isAot : Bool} (done : parseHeader p = .ok (isAot, name, q)) :
    q.rest.length ≤ p.rest.length := by
  obtain ⟨⟨name, p1⟩, named, done⟩ := bind_ok done
  obtain ⟨p2, closed, done⟩ := bind_ok done
  obtain ⟨p3, closedTwice, done⟩ := bind_ok done
  obtain ⟨p4, ended, same⟩ := bind_ok done
  cases same
  calc
    q.rest.length ≤ p3.rest.length := lineEnd_shrinks ended
    _ ≤ p2.rest.length := closeTwice_shrinks closedTwice
    _ ≤ p1.rest.length := le_of_lt (expect_shrinks closed)
    _ ≤ (openTwice p).2.rest.length := parseHeaderName_shrinks named
    _ ≤ p.rest.length := openTwice_shrinks p

end LibOp.Toml

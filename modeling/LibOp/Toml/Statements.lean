import LibOp.Toml.Lexemes
import LibOp.Toml.Parser

namespace LibOp.Toml

open Foundation Strings List

def landed (result : Except Fail Parser) : Option (Table × CurTab) := result.toOption.map fun p => (p.root, p.curTab)

def applyStatement (st : Table × CurTab) : Statement → Option (Table × CurTab)
  | .line k v =>
    (tabAt st.1 st.2).bind fun t =>
      if (tableFind t k.bytes).isSome then none
      else v.build.bind fun tv => (tableInsert t k.bytes tv).map fun t => (setTabAt st.1 t st.2, st.2)
  | .header isAot name => landed (openSection isAot ⟨⟨[], 0⟩, st.1, st.2⟩ name.bytes)

structure LeadsTo (after left : List UInt8) : Prop where
  ended : Ended after
  lineEnd : ∀ msg line, ∃ line', lineEnd msg ⟨after, line⟩ = .ok ⟨left, line'⟩

variable {v : Value} {t b b' after left rest g : List UInt8} {k : CStr} {ss : List Statement}

lemma value_starts (text : ValueText v t) : ∃ c rest, t = c :: rest ∧ isBlank c = false := by
  cases text with
  | str text =>
    cases text
    exact ⟨quote, _, rfl, rfl⟩
  | int text =>
    obtain ⟨c, rest, same, first⟩ := integer_starts text
    exact ⟨c, rest, same, isBlank_of_isBare (isBare_of_integer first)⟩
  | true | false => exact ⟨_, _, rfl, rfl⟩
  | strs | ints => exact ⟨openBracket, _, rfl, rfl⟩

lemma expect_head (c : UInt8) (msg : String) (rest : List UInt8) (line : Int32) :
    expect c msg ⟨c :: rest, line⟩ = .ok ⟨rest, line⟩ := by
  rw [expect]
  simp

lemma parseAssign_text (key : KeyText k kt) (before : Blanks b) (behind : Blanks b')
    (atValue : Stops isBlank vt) (line : Int32) :
    parseAssign ⟨kt ++ (b ++ equals :: (b' ++ vt)), line⟩ = .ok (k.bytes, ⟨vt, line⟩) := by
  have keyEnd : Stops isBare (b ++ equals :: (b' ++ vt)) :=
    before.stops (fun c skipped => isBare_of_isSkipped skipped) (stops_cons.mpr rfl)
  have atEquals : Stops isBlank (equals :: (b' ++ vt)) := stops_cons.mpr rfl
  rw [parseAssign, parseKey_text key keyEnd]
  change (expect equals _ (skipWs ⟨b ++ equals :: (b' ++ vt), line⟩) >>= fun p => .ok (k.bytes, skipWs p)) = _
  rw [skipWs_blanks before atEquals, expect_head]
  change Except.ok (k.bytes, skipWs ⟨b' ++ vt, line⟩) = _
  rw [skipWs_blanks behind atValue]

lemma addEntry_text (value : ValueText v vt) (leads : LeadsTo after left) (k : CStr)
    (line : Int32) (root : Table) (cur : CurTab) :
    ∃ line', (addEntry ⟨⟨vt ++ after, line⟩, root, cur⟩ k.bytes).toOption =
      (applyStatement (root, cur) (.line k v)).map fun st => ⟨⟨left, line'⟩, st.1, st.2⟩ := by
  have read := found_parseValue value leads.ended line
  unfold addEntry applyStatement
  cases tabAt root cur with
  | none => exact ⟨line, rfl⟩
  | some t =>
    simp only [Option.bind_some]
    split_ifs with duplicate
    · exact ⟨line, rfl⟩
    · cases built : v.build with
      | none =>
        rw [built] at read
        obtain ⟨e, failed⟩ := error_of_found read
        rw [failed]
        exact ⟨line, rfl⟩
      | some tv =>
        rw [built] at read
        obtain ⟨line', parsed⟩ := ok_of_found read
        rw [parsed, Option.bind_some]
        obtain ⟨last, ended⟩ := leads.lineEnd "unexpected characters after value" line'
        refine ⟨last, ?_⟩
        simp only [Bind.bind, Except.bind]
        cases tableInsert t k.bytes tv with
        | none => rfl
        | some grown =>
          simp only [ended]
          rfl

lemma keyLine_text (text : StatementText (.line k v) t) (leads : LeadsTo after left) (line : Int32) (root : Table)
    (cur : CurTab) : ∃ line', (keyLine ⟨⟨t ++ after, line⟩, root, cur⟩).toOption =
      (applyStatement (root, cur) (.line k v)).map fun st => ⟨⟨left, line'⟩, st.1, st.2⟩ := by
  cases text with
  | @line _ _ kt b b' vt key before behind value =>
    have atValue : Stops isBlank (vt ++ after) := by
      obtain ⟨c, rest, rfl, notBlank⟩ := value_starts value
      exact stops_cons.mpr notBlank
    simp only [append_assoc, cons_append]
    rw [keyLine, parseAssign_text key before behind atValue]
    exact addEntry_text value leads k line root cur

lemma landed_openTable (input : Input) (root : Table) (cur : CurTab) (name : List UInt8) :
    (openTable ⟨input, root, cur⟩ name).toOption =
      (landed (openTable ⟨⟨[], 0⟩, root, cur⟩ name)).map fun st => ⟨input, st.1, st.2⟩ := by
  unfold openTable
  cases tableFind root name with
  | none => cases tableInsert root name tableNew.tv <;> rfl
  | some hit =>
    obtain ⟨i, tv⟩ := hit
    cases tv <;> rfl

lemma landed_openElement (input : Input) (root : Table) (cur : CurTab) (name : List UInt8) :
    (openElement ⟨input, root, cur⟩ name).toOption =
      (landed (openElement ⟨⟨[], 0⟩, root, cur⟩ name)).map fun st => ⟨input, st.1, st.2⟩ := by
  unfold openElement
  cases tableFind root name with
  | none =>
    cases tableInsert root name arrNew.tv with
    | none => rfl
    | some grown => cases arrPush arrNew tableNew.tv <;> rfl
  | some hit =>
    obtain ⟨i, tv⟩ := hit
    cases tv with
    | arr items cap => cases pushed : arrPush ⟨items, cap⟩ tableNew.tv <;> simp only [pushed] <;> rfl
    | _ => rfl

lemma landed_openSection (isAot : Bool) (input : Input) (root : Table) (cur : CurTab) (name : List UInt8) :
    (openSection isAot ⟨input, root, cur⟩ name).toOption =
      (landed (openSection isAot ⟨⟨[], 0⟩, root, cur⟩ name)).map fun st => ⟨input, st.1, st.2⟩ := by
  cases isAot with
  | false => exact landed_openTable input root cur name
  | true => exact landed_openElement input root cur name

lemma openTwice_of_stops (stops : Stops (· = openBracket) rest) (line : Int32) :
    openTwice ⟨rest, line⟩ = (false, ⟨rest, line⟩) := by
  cases rest with
  | nil => rfl
  | cons c rest => exact if_neg (by simpa using stops_cons.mp stops)

lemma name_not_bracket (name : Name) (before : Blanks b) (tail : List UInt8) :
    Stops (fun c => decide (c = openBracket)) (b ++ (name.bytes ++ tail)) := by
  obtain ⟨c, more, bytes⟩ := exists_cons_of_ne_nil name.nonempty
  have letter := name.bare c (by rw [bytes]; exact mem_cons_self)
  apply before.stops
  · intro d skipped
    rcases eq_of_isSkipped skipped with rfl | rfl | rfl | rfl | rfl <;> rfl
  · rw [bytes]
    exact stops_cons.mpr (decide_eq_false (ne_of_isBare letter rfl))

lemma parseHeader_table (name : Name) (before : Blanks b) (behind : Blanks b') (leads : LeadsTo after left)
    (line : Int32) : ∃ line', parseHeader ⟨b ++ (name.bytes ++ (b' ++ closeBracket :: after)), line⟩ =
      .ok (false, name.bytes, ⟨left, line'⟩) := by
  obtain ⟨line', ended⟩ := leads.lineEnd "unexpected characters after table header" line
  refine ⟨line', ?_⟩
  rw [parseHeader, openTwice_of_stops (name_not_bracket name before _)]
  simp only [parseHeaderName_text name before behind, expect_head, closeTwice, Bool.false_eq_true, if_false, ended,
    Bind.bind, Except.bind]

lemma parseHeader_element (name : Name) (before : Blanks b) (behind : Blanks b') (leads : LeadsTo after left)
    (line : Int32) :
    ∃ line', parseHeader ⟨openBracket :: (b ++ (name.bytes ++ (b' ++ closeBracket :: closeBracket :: after))), line⟩ =
      .ok (true, name.bytes, ⟨left, line'⟩) := by
  obtain ⟨line', ended⟩ := leads.lineEnd "unexpected characters after table header" line
  refine ⟨line', ?_⟩
  rw [parseHeader]
  simp only [openTwice, parseHeaderName_text name before behind, expect_head, closeTwice, if_true, ended, Bind.bind,
    Except.bind]

lemma line_starts (text : StatementText (.line k v) t) :
    ∃ c rest, t = c :: rest ∧ isSkipped c = false ∧ c ≠ openBracket := by
  cases text with
  | line key =>
    cases key with
    | bare ne bare =>
      obtain ⟨c, rest, bytes⟩ := exists_cons_of_ne_nil ne
      have letter := bare c (by rw [bytes]; exact mem_cons_self)
      exact ⟨c, _, by rw [bytes, cons_append], isSkipped_of_isBare letter, ne_of_isBare letter rfl⟩
    | quoted text =>
      cases text
      exact ⟨quote, _, rfl, rfl, by decide⟩

lemma toOption_continue (result : Except Fail Parser) :
    (result >>= fun p => (.ok (.inl p) : Except Fail (Parser ⊕ Parser))).toOption = result.toOption.map Sum.inl := by
  cases result <;> rfl

lemma documentTurn_line (notSkipped : isSkipped c = false)
    (notBracket : c ≠ openBracket) (skipped : skipWsAndNewlines p.input = ⟨c :: rest, line⟩) :
    (documentTurn p).toOption = (keyLine { p with input := ⟨c :: rest, line⟩ }).toOption.map Sum.inl := by
  have notHash : c ≠ hash := by
    rintro rfl
    cases notSkipped
  unfold documentTurn
  simp only [skipped, if_neg notBracket, if_neg notHash]
  exact toOption_continue _

lemma documentTurn_header (read : parseHeader ⟨rest, line⟩ = .ok (isAot, name.bytes, ⟨left, line'⟩))
    (skipped : skipWsAndNewlines p.input = ⟨openBracket :: rest, line⟩) : (documentTurn p).toOption =
      (applyStatement (p.root, p.curTab) (.header isAot name)).map fun st => .inl ⟨⟨left, line'⟩, st.1, st.2⟩ := by
  have opened := landed_openSection isAot ⟨left, line'⟩ p.root p.curTab name.bytes
  unfold documentTurn
  simp only [skipped, if_true, read]
  exact (toOption_continue _).trans (by rw [opened, Option.map_map]; rfl)

lemma skip_to_bracket (gap : Gap g) (rest : List UInt8) (line : Int32) :
    ∃ line', skipWsAndNewlines ⟨g ++ openBracket :: rest, line⟩ = ⟨openBracket :: rest, line'⟩ := by
  have stops : Stops isSkipped (openBracket :: rest) := stops_cons.mpr rfl
  exact skip_gap gap stops line

lemma documentTurn_statement (gap : Gap g) (text : StatementText s t) (leads : LeadsTo after left)
    (line : Int32) (root : Table) (cur : CurTab) :
    ∃ line', (documentTurn ⟨⟨g ++ (t ++ after), line⟩, root, cur⟩).toOption =
      (applyStatement (root, cur) s).map fun st => .inl ⟨⟨left, line'⟩, st.1, st.2⟩ := by
  cases s with
  | line k v =>
    obtain ⟨c, rest, rfl, notSkipped, notBracket⟩ := line_starts text
    have stops : Stops isSkipped (c :: rest ++ after) := stops_cons.mpr notSkipped
    obtain ⟨first, skipped⟩ := skip_gap gap stops line
    obtain ⟨line', read⟩ := keyLine_text text leads first root cur
    refine ⟨line', ?_⟩
    rw [cons_append] at skipped read ⊢
    rw [documentTurn_line notSkipped notBracket skipped, read, Option.map_map]
    rfl
  | header isAot name =>
    cases text with
    | table before behind =>
      simp only [cons_append, append_assoc]
      obtain ⟨first, skipped⟩ := skip_to_bracket gap _ line
      obtain ⟨line', read⟩ := parseHeader_table name before behind leads first
      exact ⟨line', documentTurn_header read skipped⟩
    | element before behind =>
      simp only [cons_append, append_assoc, nil_append]
      obtain ⟨first, skipped⟩ := skip_to_bracket gap _ line
      obtain ⟨line', read⟩ := parseHeader_element name before behind leads first
      exact ⟨line', documentTurn_header read skipped⟩

lemma leadsTo_line (trailer : Trailer t) (newline : Newline n) (rest : List UInt8) :
    ∃ g, Gap g ∧ LeadsTo (t ++ (n ++ rest)) (g ++ rest) := by
  have atLineEnd : Ended (n ++ rest) := by
    cases newline <;> exact stops_cons.mpr rfl
  obtain ⟨g, gap, lineEnds⟩ := lineEnd_line trailer newline rest
  exact ⟨g, gap, trailer.ended atLineEnd, lineEnds⟩

lemma leadsTo_last (trailer : Trailer t) : LeadsTo t [] where
  ended := by
    have atEnd : Ended [] := stops_nil
    have ended := trailer.ended atEnd
    rwa [append_nil] at ended
  lineEnd msg line := ⟨line, lineEnd_last trailer msg line⟩

lemma landed_parseDocument_end (gap : Gap g) (trailer : Trailer t) (line : Int32) (root : Table) (cur : CurTab) :
    landed (parseDocument ⟨⟨g ++ t, line⟩, root, cur⟩) = some (root, cur) := by
  obtain ⟨line', skipped⟩ := skip_trailer gap trailer line
  have done : documentTurn ⟨⟨g ++ t, line⟩, root, cur⟩ = .ok (.inr ⟨⟨[], line'⟩, root, cur⟩) := by
    unfold documentTurn
    simp [skipped]
  rw [parseDocument, runLoop_done done]
  rfl

lemma landed_parseDocument_statement (gap : Gap g) (text : StatementText s t) (leads : LeadsTo after left)
    (others : ∀ line root cur, landed (parseDocument ⟨⟨left, line⟩, root, cur⟩) = ss.foldlM applyStatement (root, cur))
    (line : Int32) (root : Table) (cur : CurTab) :
    landed (parseDocument ⟨⟨g ++ (t ++ after), line⟩, root, cur⟩) = (s :: ss).foldlM applyStatement (root, cur) := by
  obtain ⟨line', read⟩ := documentTurn_statement gap text leads line root cur
  rw [landed, parseDocument, toOption_runLoop, read, foldlM_cons]
  cases applyStatement (root, cur) s with
  | none => rfl
  | some st => exact others line' st.1 st.2

variable {text : List UInt8}

lemma landed_parseDocument (lines : Text ss text) (gap : Gap g) (line : Int32) (root : Table)
    (cur : CurTab) : landed (parseDocument ⟨⟨g ++ text, line⟩, root, cur⟩) = ss.foldlM applyStatement (root, cur) := by
  induction lines generalizing g line root cur with
  | finish gap' trailer =>
    rw [← append_assoc]
    exact landed_parseDocument_end (gap.append gap') trailer line root cur
  | last gap' statement trailer =>
    rw [← append_assoc]
    refine landed_parseDocument_statement (gap.append gap') statement (leadsTo_last trailer) ?_ line root cur
    intro line root cur
    have noBlanks : Blanks [] := fun _ mem => by cases mem
    exact landed_parseDocument_end Gap.nil (Trailer.blanks noBlanks) line root cur
  | @line s ss _ st t n rest gap' statement trailer newline others ih =>
    obtain ⟨g', gap'', leads⟩ := leadsTo_line trailer newline rest
    rw [← append_assoc]
    exact landed_parseDocument_statement (gap.append gap') statement leads (ih gap'') line root cur

lemma opTomlParse_text (lines : Text ss text) :
    (opTomlParse text).toOption = (ss.foldlM applyStatement (tableNew, .root)).map Prod.fst := by
  have read := landed_parseDocument lines Gap.nil 1 tableNew .root
  rw [nil_append] at read
  rw [← read, opTomlParse, landed, Option.map_map]
  cases parseDocument ⟨⟨text, 1⟩, tableNew, .root⟩ with
  | error | ok => rfl

end LibOp.Toml

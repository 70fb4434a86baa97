import LibOp.Websocket.State

namespace LibOp.Websocket

open List WsState

variable {body : List UInt8} {bits payloadLen : Nat} {inFragment : Bool} (more : List UInt8)

lemma wsPayloadLen_append (decided : wsPayloadLen bits body ≠ .incomplete) :
    wsPayloadLen bits (body ++ more) = wsPayloadLen bits body := by
  unfold wsPayloadLen at decided ⊢
  by_cases short : bits = 126
  · rw [if_pos short] at decided ⊢
    by_cases few : body.length < 2
    · exact absurd (if_pos few) decided
    · rw [if_neg few, if_neg (by rw [length_append]; omega), if_pos short, take_append_of_le_length (by omega)]
  · rw [if_neg short] at decided ⊢
    by_cases long : bits = 127
    · rw [if_pos long] at decided ⊢
      by_cases few : body.length < 8
      · exact absurd (if_pos few) decided
      · rw [if_neg few, if_neg (by rw [length_append]; omega), if_neg short, if_pos long,
          take_append_of_le_length (by omega)]
    · rw [if_neg long, if_neg short, if_neg long]

lemma wsPayloadLen_width {width : Nat} (known : wsPayloadLen bits body = .known payloadLen width) :
    width ≤ body.length := by
  unfold wsPayloadLen at known
  split at known
  · split at known
    · cases known
    · cases known
      omega
  · split at known
    · split at known
      · cases known
      · dsimp only at known
        split at known
        · cases known
        · cases known
          omega
    · cases known
      omega

lemma wsFrameBody_append (decided : wsFrameBody inFragment fin masked bits payloadLen consumed body ≠ .incomplete) :
    wsFrameBody inFragment fin masked bits payloadLen consumed (body ++ more) =
      wsFrameBody inFragment fin masked bits payloadLen consumed body := by
  unfold wsFrameBody at decided ⊢
  by_cases unmasked : (!masked) = true
  · rw [if_pos unmasked, if_pos unmasked]
  rw [if_neg unmasked] at decided ⊢
  rw [if_neg unmasked]
  by_cases control : bits ≥ 0x8 ∧ ((!fin) = true ∨ payloadLen > 125)
  · rw [if_pos control, if_pos control]
  rw [if_neg control] at decided ⊢
  rw [if_neg control]
  by_cases opening : (Opcode.ofBits bits = .text ∨ Opcode.ofBits bits = .binary) ∧ inFragment = true
  · rw [if_pos opening, if_pos opening]
  rw [if_neg opening] at decided ⊢
  rw [if_neg opening]
  by_cases closing : Opcode.ofBits bits = .cont ∧ (!inFragment) = true
  · rw [if_pos closing, if_pos closing]
  rw [if_neg closing] at decided ⊢
  rw [if_neg closing]
  by_cases noKey : body.length < 4
  · exact absurd (if_pos noKey) decided
  rw [if_neg noKey] at decided ⊢
  by_cases noPayload : body.length < 4 + payloadLen
  · exact absurd (if_pos noPayload) decided
  rw [if_neg noPayload, if_neg (by rw [length_append]; omega), if_neg (by rw [length_append]; omega),
    take_append_of_le_length (by omega), drop_append_of_le_length (by omega),
    take_append_of_le_length (by rw [length_drop]; omega)]

lemma wsFrame_append {inbuf : List UInt8} (decided : wsFrame inFragment inbuf ≠ .incomplete) :
    wsFrame inFragment (inbuf ++ more) = wsFrame inFragment inbuf := by
  match inbuf with
  | [] => exact absurd rfl decided
  | [_] => exact absurd rfl decided
  | first :: second :: body =>
    simp only [wsFrame, cons_append] at decided ⊢
    by_cases reservedBits : first.toNat >>> 4 &&& 0x7 ≠ 0
    · rw [if_pos reservedBits, if_pos reservedBits]
    · rw [if_neg reservedBits] at decided ⊢
      rw [if_neg reservedBits]
      have known : wsPayloadLen (second.toNat &&& 0x7f) body ≠ .incomplete := by
        intro waits
        rw [waits] at decided
        exact decided rfl
      rw [wsPayloadLen_append more known]
      cases length : wsPayloadLen (second.toNat &&& 0x7f) body with
      | incomplete => exact absurd length known
      | tooLarge => rfl
      | known payloadLen width =>
        rw [length] at decided
        dsimp only at decided ⊢
        rw [drop_append_of_le_length (wsPayloadLen_width length)]
        exact wsFrameBody_append more decided

structure FrameBounds (inFragment : Bool) (inbuf : List UInt8) (opcode : Opcode) (payload : List UInt8)
    (start : Nat) : Prop where
  header : 6 ≤ start
  whole : start + payload.length ≤ inbuf.length
  short : payload.length ≤ wsMaxFrameSize
  continues : opcode = .cont → inFragment = true
  opens : opcode = .text ∨ opcode = .binary → inFragment = false

lemma wsFrameBody_bounds {consumed start : Nat}
    (scan : wsFrameBody inFragment fin masked bits payloadLen consumed body = .frame fin' opcode payload start) :
    start = consumed + 4 ∧ 4 + payload.length ≤ body.length ∧ payload.length ≤ wsMaxFrameSize ∧
      (opcode = .cont → inFragment = true) ∧ (opcode = .text ∨ opcode = .binary → inFragment = false) := by
  unfold wsFrameBody at scan
  dsimp only at scan
  split_ifs at scan with unmasked control opening closing noKey noPayload tooLong
  injection scan with _ sameOpcode samePayload sameStart
  subst sameOpcode samePayload sameStart
  have size : (unmask (body.take 4) ((body.drop 4).take payloadLen)).length = payloadLen := by
    rw [unmask, length_mapIdx, length_take, length_drop]
    omega
  refine ⟨rfl, by omega, by omega, fun isCont => ?_, fun starts => ?_⟩
  · by_contra notOpen
    exact closing ⟨isCont, by simpa using notOpen⟩
  · by_contra isOpen
    exact opening ⟨starts, by simpa using isOpen⟩

lemma wsFrame_bounds {fin : Bool} {inbuf payload : List UInt8} {opcode : Opcode} {start : Nat}
    (scan : wsFrame inFragment inbuf = .frame fin opcode payload start) :
    FrameBounds inFragment inbuf opcode payload start := by
  match inbuf with
  | [] => cases scan
  | [_] => cases scan
  | first :: second :: body =>
    simp only [wsFrame] at scan
    split at scan
    · cases scan
    · cases length : wsPayloadLen (second.toNat &&& 0x7f) body with
      | incomplete | tooLarge => rw [length] at scan; cases scan
      | known payloadLen width =>
        rw [length] at scan
        obtain ⟨starts, whole, short, continues, opens⟩ := wsFrameBody_bounds scan
        rw [length_drop] at whole
        exact ⟨by omega, by rw [length_cons, length_cons]; omega, short, continues, opens⟩

def WsState.undelivered (ws : WsState) : List UInt8 := ws.decoded.drop ws.decodedPos

def WsState.holding (ws : WsState) (bytes : List UInt8) : WsState := { ws with decoded := bytes, decodedPos := 0 }

@[simp] lemma holding_undelivered (ws : WsState) (bytes : List UInt8) : (ws.holding bytes).undelivered = bytes := rfl

lemma decodedCompact_eq (ws : WsState) : decodedCompact ws = ws.holding ws.undelivered := by
  unfold decodedCompact holding undelivered
  split
  · rfl
  · have start : ws.decodedPos = 0 := by omega
    cases ws
    cases start
    rfl

lemma decodedAppend_eq (ws : WsState) (data : List UInt8) : decodedAppend ws data =
      if ws.undelivered.length + data.length > wsMaxMessageSize then none
      else some (ws.holding (ws.undelivered ++ data)) := by
  rw [decodedAppend, decodedCompact_eq]
  rfl

def WsState.msgStart (ws : WsState) (opcode : Opcode) : Nat :=
  if opcode = .cont then ws.fragmentStart else ws.undelivered.length

def WsState.isText (ws : WsState) (opcode : Opcode) : Bool :=
  decide (opcode = .text ∨ (opcode = .cont ∧ ws.fragmentOpcode = .text))

def WsState.taken (ws : WsState) (opcode : Opcode) (fin : Bool) (payload : List UInt8) : WsState :=
  (ws.holding (ws.undelivered ++ payload)).record (.accepted opcode fin payload)

def WsState.checked (ws : WsState) (isText : Bool) (msgStart : Nat) : WsState :=
  if isText then ws.record (.validated msgStart ws.decoded) else ws

variable (stray : WsState → Bool)

inductive DataOutcome (ws : WsState) (opcode : Opcode) (payload : List UInt8) :
    Bool → Except (WsState × Nat) WsState → Prop where
  | tooLong {fin : Bool} (exceeds : wsMaxMessageSize < ws.undelivered.length + payload.length) :
      DataOutcome ws opcode payload fin
        (.error (ws.holding ws.undelivered, wsCloseTooLarge))
  | part (fits : payload = [] ∨ ws.undelivered.length + payload.length ≤ wsMaxMessageSize) :
      DataOutcome ws opcode payload false
        (.ok (updateFragment (ws.taken opcode false payload) opcode false (ws.msgStart opcode)))
  | invalid (text : ws.isText opcode = true)
      (bad : validates stray ((ws.taken opcode true payload).checked true (ws.msgStart opcode))
        (ws.msgStart opcode) = false) :
      DataOutcome ws opcode payload true
        (.error ((ws.taken opcode true payload).checked true (ws.msgStart opcode), wsCloseInvalidUtf8))
  | noRoom
      (good : ws.isText opcode = true →
        validates stray ((ws.taken opcode true payload).checked true (ws.msgStart opcode))
          (ws.msgStart opcode) = true)
      (exceeds : wsMaxMessageSize < (ws.undelivered ++ payload).length + crlf.length) :
      DataOutcome ws opcode payload true
        (.error ((ws.taken opcode true payload).checked (ws.isText opcode) (ws.msgStart opcode), wsCloseTooLarge))
  | finished
      (good : ws.isText opcode = true →
        validates stray ((ws.taken opcode true payload).checked true (ws.msgStart opcode))
          (ws.msgStart opcode) = true)
      (fits : (ws.undelivered ++ payload).length + crlf.length ≤ wsMaxMessageSize) :
      DataOutcome ws opcode payload true
        (.ok (updateFragment
          (((ws.taken opcode true payload).checked (ws.isText opcode) (ws.msgStart opcode)).holding
            (ws.undelivered ++ payload ++ crlf))
          opcode true (ws.msgStart opcode)))

lemma takePayload_eq (ws : WsState) (opcode : Opcode) (fin : Bool) (payload : List UInt8) :
    takePayload (ws.holding ws.undelivered) opcode fin payload =
      if payload ≠ [] ∧ wsMaxMessageSize < ws.undelivered.length + payload.length then
        .error (ws.holding ws.undelivered, wsCloseTooLarge) else .ok (ws.taken opcode fin payload) := by
  rw [takePayload]
  by_cases none : payload = []
  · rw [if_pos none, if_neg (fun both => both.1 none), taken, none, append_nil]
  · rw [if_neg none, decodedAppend_eq, holding_undelivered]
    by_cases exceeds : ws.undelivered.length + payload.length > wsMaxMessageSize
    · rw [if_pos exceeds, if_pos ⟨none, exceeds⟩]
    · rw [if_neg exceeds, if_neg fun both => exceeds both.2]
      rfl

@[simp] lemma checked_undelivered (ws : WsState) (isText : Bool) (msgStart : Nat) :
    (ws.checked isText msgStart).undelivered = ws.undelivered := by
  cases isText <;> rfl

lemma finishMessage_eq (ws : WsState) (isText : Bool) (msgStart : Nat) : finishMessage stray ws isText msgStart =
      if isText = true ∧ validates stray (ws.checked true msgStart) msgStart = false then
        .error (ws.checked true msgStart, wsCloseInvalidUtf8)
      else if ws.undelivered.length + crlf.length > wsMaxMessageSize then
        .error (ws.checked isText msgStart, wsCloseTooLarge)
      else .ok ((ws.checked isText msgStart).holding (ws.undelivered ++ crlf)) := by
  have same : (if isText then ws.record (.validated msgStart ws.decoded) else ws) = ws.checked isText msgStart :=
    rfl
  simp only [finishMessage, same, decodedAppend_eq, checked_undelivered]
  by_cases bad : isText = true ∧ validates stray (ws.checked true msgStart) msgStart = false
  · obtain ⟨rfl, wrong⟩ := bad
    simp [wrong]
  · have good : ¬ (isText && !validates stray (ws.checked isText msgStart) msgStart) = true := by
      cases isText with
      | false => simp
      | true => simpa using bad
    rw [if_neg bad, if_neg good]
    by_cases full : ws.undelivered.length + crlf.length > wsMaxMessageSize
    · rw [if_pos full, if_pos full]
    · rw [if_neg full, if_neg full]

lemma wsDataFrame_outcome (ws : WsState) (fin : Bool) (opcode : Opcode) (payload : List UInt8) :
    DataOutcome stray ws opcode payload fin (wsDataFrame stray ws fin opcode payload) := by
  have start : (if opcode = .cont then (ws.holding ws.undelivered).fragmentStart
      else (ws.holding ws.undelivered).decoded.length) = ws.msgStart opcode := rfl
  have text : decide (opcode = .text ∨ (opcode = .cont ∧ (ws.holding ws.undelivered).fragmentOpcode = .text)) =
      ws.isText opcode := rfl
  simp only [wsDataFrame, decodedCompact_eq, takePayload_eq, start, text, bind, Except.bind]
  by_cases exceeds : payload ≠ [] ∧ wsMaxMessageSize < ws.undelivered.length + payload.length
  · rw [if_pos exceeds]
    exact .tooLong exceeds.2
  rw [if_neg exceeds]
  cases fin with
  | false =>
    refine .part ?_
    by_cases none : payload = []
    · exact .inl none
    · exact .inr (Nat.le_of_not_lt fun long => exceeds ⟨none, long⟩)
  | true =>
    have whole : (ws.taken opcode true payload).undelivered = ws.undelivered ++ payload := rfl
    simp only [if_true, finishMessage_eq, whole]
    by_cases bad : ws.isText opcode = true ∧
        validates stray ((ws.taken opcode true payload).checked true (ws.msgStart opcode)) (ws.msgStart opcode) = false
    · rw [if_pos bad]
      exact .invalid bad.1 bad.2
    · have good : ws.isText opcode = true →
          validates stray ((ws.taken opcode true payload).checked true (ws.msgStart opcode))
            (ws.msgStart opcode) = true :=
        fun isText => Bool.of_not_eq_false fun wrong => bad ⟨isText, wrong⟩
      rw [if_neg bad]
      by_cases full : (ws.undelivered ++ payload).length + crlf.length > wsMaxMessageSize
      · rw [if_pos full]
        exact .noRoom good full
      · rw [if_neg full]
        exact .finished good (Nat.le_of_not_lt full)

def Opcode.isData : Opcode → Bool
  | .cont | .text | .binary => true
  | _ => false

def WsState.unmasked (ws : WsState) (payload : List UInt8) (start : Nat) : WsState :=
  { ws with inbuf := ws.inbuf.take start ++ payload ++ ws.inbuf.drop (start + payload.length) }

inductive PassOutcome (ws : WsState) : Pass → Prop where
  | waits (scan : wsFrame ws.inFragment ws.inbuf = .incomplete) : PassOutcome ws (.leave ws)
  | refuses {code : Nat} (scan : wsFrame ws.inFragment ws.inbuf = .reject code) :
      PassOutcome ws (.fail (wsWriteCloseFrame ws code))
  | pings {fin : Bool} {payload : List UInt8} {start : Nat}
      (scan : wsFrame ws.inFragment ws.inbuf = .frame fin .ping payload start) :
      PassOutcome ws (.again (inbufConsume (wsWriteFrameRaw (ws.unmasked payload start) pongByte payload)
        (start + payload.length)))
  | pongs {fin : Bool} {payload : List UInt8} {start : Nat}
      (scan : wsFrame ws.inFragment ws.inbuf = .frame fin .pong payload start) :
      PassOutcome ws (.again (inbufConsume (ws.unmasked payload start) (start + payload.length)))
  | closes {fin : Bool} {payload : List UInt8} {start : Nat}
      (scan : wsFrame ws.inFragment ws.inbuf = .frame fin .close payload start) :
      PassOutcome ws (.fail (inbufConsume (wsWriteCloseFrame (ws.unmasked payload start) (echoCode payload))
        (start + payload.length)))
  | unknown {fin : Bool} {bits : Nat} {payload : List UInt8} {start : Nat}
      (scan : wsFrame ws.inFragment ws.inbuf = .frame fin (.reserved bits) payload start) :
      PassOutcome ws (.fail (wsWriteCloseFrame (ws.unmasked payload start) wsCloseProtocolError))
  | breaks {fin : Bool} {opcode : Opcode} {payload : List UInt8} {start code : Nat} {after : WsState}
      (scan : wsFrame ws.inFragment ws.inbuf = .frame fin opcode payload start) (data : opcode.isData = true)
      (outcome : DataOutcome stray (ws.unmasked payload start) opcode payload fin (.error (after, code))) :
      PassOutcome ws (.fail (wsWriteCloseFrame after code))
  | takes {fin : Bool} {opcode : Opcode} {payload : List UInt8} {start : Nat} {after : WsState}
      (scan : wsFrame ws.inFragment ws.inbuf = .frame fin opcode payload start) (data : opcode.isData = true)
      (outcome : DataOutcome stray (ws.unmasked payload start) opcode payload fin (.ok after)) :
      PassOutcome ws (.again (inbufConsume after (start + payload.length)))

variable {fin : Bool} {opcode : Opcode} {payload : List UInt8} {start : Nat} {ws after : WsState}

section

variable (scan : wsFrame ws.inFragment ws.inbuf = .frame fin opcode payload start)
  (data : opcode.isData = true)

include scan data

lemma wsParsePass_breaks {failure : WsState × Nat}
    (result : wsDataFrame stray (ws.unmasked payload start) fin opcode payload = .error failure) :
    wsParsePass stray ws = .fail (wsWriteCloseFrame failure.1 failure.2) := by
  rw [WsState.unmasked] at result
  rw [wsParsePass, scan]
  cases opcode with
  | cont | text | binary =>
    dsimp only
    rw [result]
  | ping | pong | close | reserved => cases data

lemma wsParsePass_takes (result : wsDataFrame stray (ws.unmasked payload start) fin opcode payload = .ok after) :
    wsParsePass stray ws = .again (inbufConsume after (start + payload.length)) := by
  rw [WsState.unmasked] at result
  rw [wsParsePass, scan]
  cases opcode with
  | cont | text | binary =>
    dsimp only
    rw [result]
  | ping | pong | close | reserved => cases data

lemma wsParsePass_data_outcome : PassOutcome stray ws (wsParsePass stray ws) := by
  have outcome := wsDataFrame_outcome stray (ws.unmasked payload start) fin opcode payload
  cases result : wsDataFrame stray (ws.unmasked payload start) fin opcode payload with
  | error failure =>
    rw [result] at outcome
    rw [wsParsePass_breaks stray scan data result]
    exact .breaks scan data outcome
  | ok after =>
    rw [result] at outcome
    rw [wsParsePass_takes stray scan data result]
    exact .takes scan data outcome

end

lemma wsParsePass_outcome (ws : WsState) : PassOutcome stray ws (wsParsePass stray ws) := by
  cases scan : wsFrame ws.inFragment ws.inbuf with
  | incomplete =>
    rw [wsParsePass, scan]
    exact .waits scan
  | reject code =>
    rw [wsParsePass, scan]
    exact .refuses scan
  | frame fin opcode payload start =>
    cases opcode with
    | ping =>
      rw [wsParsePass, scan]
      exact .pings scan
    | pong =>
      rw [wsParsePass, scan]
      exact .pongs scan
    | close =>
      rw [wsParsePass, scan]
      exact .closes scan
    | reserved bits =>
      rw [wsParsePass, scan]
      exact .unknown scan
    | cont | text | binary => exact wsParsePass_data_outcome stray scan rfl

lemma wsParseLoop_preserves {P : WsState → Prop} (keep : ∀ ws, P ws → P (wsParsePass stray ws).state)
    (rounds : Nat) {ws : WsState} (initial : P ws) : P (wsParseLoop stray rounds ws).1 := by
  induction rounds generalizing ws with
  | zero => exact initial
  | succ rounds ih =>
    have next := keep ws initial
    rw [wsParseLoop]
    cases pass : wsParsePass stray ws with
    | leave after | fail after => rw [pass] at next; exact next
    | again after => rw [pass] at next; exact ih next

def EachPass (P : WsState → Prop) : Nat → WsState → Prop
  | 0, _ => True
  | rounds + 1, ws => P ws ∧
      match wsParsePass stray ws with
      | .again after => EachPass P rounds after
      | _ => True

instance decidableEachPass (P : WsState → Prop) [DecidablePred P] :
    ∀ rounds ws, Decidable (EachPass stray P rounds ws)
  | 0, _ => inferInstanceAs (Decidable True)
  | rounds + 1, ws =>
    have (pass : Pass) : Decidable (match pass with | .again after => EachPass stray P rounds after | _ => True) :=
      match pass with
      | .again after => decidableEachPass P rounds after
      | .leave _ | .fail _ => inferInstanceAs (Decidable True)
    inferInstanceAs (Decidable (P ws ∧ _))

lemma unmasked_drop (whole : start + payload.length ≤ ws.inbuf.length) :
    (ws.unmasked payload start).inbuf.drop (start + payload.length) = ws.inbuf.drop (start + payload.length) := by
  have front : (ws.inbuf.take start ++ payload).length = start + payload.length := by
    rw [length_append, length_take]
    omega
  exact drop_left' front

lemma DataOutcome.inbuf_ok (outcome : DataOutcome stray ws opcode payload fin (.ok after)) :
    after.inbuf = ws.inbuf := by
  cases outcome with
  | part =>
    unfold updateFragment
    split <;> rfl
  | finished =>
    unfold updateFragment checked
    split <;> split <;> rfl

end LibOp.Websocket

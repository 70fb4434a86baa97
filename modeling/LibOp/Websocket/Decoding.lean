import LibOp.Websocket.Validation

namespace LibOp.Websocket

open List WsState

/-! What a reader should receive for a stream of frames, whatever way the stream arrives. -/

structure Message where
  kind : Opcode
  payload : List UInt8
deriving DecidableEq

def extendMessage (current : Option Message) (opcode : Opcode) (payload : List UInt8) : Message :=
  match current with
  | some message => if opcode = .cont then ⟨message.kind, message.payload ++ payload⟩ else ⟨opcode, payload⟩
  | none => ⟨opcode, payload⟩

lemma extendMessage_first (current : Option Message) (first : opcode ≠ .cont)
    (payload : List UInt8) : extendMessage current opcode payload = ⟨opcode, payload⟩ := by
  cases current with
  | none => rfl
  | some message => exact if_neg first

def frameText (fin : Bool) (payload : List UInt8) : List UInt8 := payload ++ if fin then crlf else []

def refuses (message : Message) (fin : Bool) (payload : List UInt8) : Bool :=
  decide (wsMaxMessageSize < (frameText fin payload).length) ||
    (fin && decide (message.kind = .text) && !wsIsValidUtf8 message.payload)

def decodeStream : Nat → Option Message → List UInt8 → List UInt8
  | 0, _, _ => []
  | rounds + 1, current, stream =>
    match wsFrame current.isSome stream with
    | .incomplete | .reject _ => []
    | .frame fin opcode payload start =>
      let rest := stream.drop (start + payload.length)
      match opcode with
      | .ping | .pong => decodeStream rounds current rest
      | .close | .reserved _ => []
      | data =>
        let message := extendMessage current data payload
        if refuses message fin payload then []
        else frameText fin payload ++ decodeStream rounds (if fin then none else some message) rest

def decoding (current : Option Message) (stream : List UInt8) : List UInt8 :=
  decodeStream stream.length current stream

lemma decodeStream_enough {first second : Nat} (enough : stream.length ≤ first) (enough' : stream.length ≤ second) :
    decodeStream first current stream = decodeStream second current stream := by
  induction first generalizing second current stream with
  | zero =>
    have empty : stream = [] := eq_nil_of_length_eq_zero (Nat.le_zero.mp enough)
    subst empty
    cases second <;> rfl
  | succ first ih =>
    cases second with
    | zero =>
      have empty : stream = [] := eq_nil_of_length_eq_zero (Nat.le_zero.mp enough')
      subst empty
      rfl
    | succ second =>
      simp only [decodeStream]
      cases scan : wsFrame current.isSome stream with
      | incomplete | reject code => rfl
      | frame fin opcode payload start =>
        have header := (wsFrame_bounds scan).header
        have rest {next : Option Message} : decodeStream first next (stream.drop (start + payload.length)) =
            decodeStream second next (stream.drop (start + payload.length)) :=
          ih (by rw [length_drop]; omega) (by rw [length_drop]; omega)
        simp [rest]

section

variable {current : Option Message} {stream payload : List UInt8} {fin : Bool} {opcode : Opcode} {start : Nat}

lemma decoding_stops (scan : wsFrame current.isSome stream = .incomplete ∨
      (∃ code, wsFrame current.isSome stream = .reject code) ∨
      ∃ fin opcode payload start, wsFrame current.isSome stream = .frame fin opcode payload start ∧
        (opcode = .close ∨ ∃ bits, opcode = .reserved bits)) : decoding current stream = [] := by
  rw [decoding]
  cases stream.length with
  | zero => rfl
  | succ rounds =>
    rw [decodeStream]
    rcases scan with scan | ⟨code, scan⟩ | ⟨fin, opcode, payload, start, scan, rfl | ⟨bits, rfl⟩⟩ <;> rw [scan]

variable (scan : wsFrame current.isSome stream = .frame fin opcode payload start)

include scan

lemma decoding_frame : ∃ rounds, decoding current stream = decodeStream (rounds + 1) current stream ∧
      ∀ next, decodeStream rounds next (stream.drop (start + payload.length)) =
        decoding next (stream.drop (start + payload.length)) := by
  have bounds := wsFrame_bounds scan
  have header := bounds.header
  have whole := bounds.whole
  obtain ⟨rounds, size⟩ := Nat.exists_eq_add_of_lt (show 0 < stream.length by omega)
  rw [zero_add] at size
  refine ⟨rounds, by rw [decoding, size], fun next => ?_⟩
  exact decodeStream_enough (by rw [length_drop]; omega) le_rfl

lemma decoding_control (control : opcode = .ping ∨ opcode = .pong) :
    decoding current stream = decoding current (stream.drop (start + payload.length)) := by
  obtain ⟨rounds, unfolded, rest⟩ := decoding_frame scan
  rw [unfolded, decodeStream, scan]
  rcases control with rfl | rfl <;> exact rest current

lemma decoding_data (data : opcode.isData = true) : decoding current stream =
      if refuses (extendMessage current opcode payload) fin payload then []
      else frameText fin payload ++ decoding (if fin then none else some (extendMessage current opcode payload))
          (stream.drop (start + payload.length)) := by
  obtain ⟨rounds, unfolded, rest⟩ := decoding_frame scan
  rw [unfolded, decodeStream, scan]
  simp only [← rest]
  cases opcode with
  | cont | text | binary => rfl
  | _ => cases data

end

def WsState.openMessage (ws : WsState) : Option Message :=
  if ws.inFragment then some ⟨ws.fragmentOpcode, messageOf ws.log⟩ else none

lemma openMessage_isSome (ws : WsState) : ws.openMessage.isSome = ws.inFragment := by
  unfold openMessage
  cases ws.inFragment <;> rfl

/-- A refused data frame finds no byte undelivered, another fits behind those bytes, and the bytes from `msg_start` on
are valid exactly when the message is. -/
def SafeData (ws : WsState) (fin : Bool) (opcode : Opcode) (payload : List UInt8) : Prop :=
  let message := extendMessage ws.openMessage opcode payload
  (if refuses message fin payload then ws.undelivered = []
    else ws.undelivered.length + (frameText fin payload).length ≤ wsMaxMessageSize) ∧
  (fin = true → message.kind = .text → ws.msgStart opcode ≤ (ws.undelivered ++ payload).length ∧
    wsIsValidUtf8 ((ws.undelivered ++ payload).drop (ws.msgStart opcode)) = wsIsValidUtf8 message.payload)

instance (ws : WsState) (fin : Bool) (opcode : Opcode) (payload : List UInt8) :
    Decidable (SafeData ws fin opcode payload) :=
  inferInstanceAs (Decidable (_ ∧ _))

def SafeScan (ws : WsState) : FrameScan → Prop
  | .incomplete => True
  | .reject _ => ws.undelivered = []
  | .frame fin opcode payload _ =>
    match opcode with
    | .ping | .pong => True
    | .close | .reserved _ => ws.undelivered = []
    | data => SafeData ws fin data payload

instance decidableSafeScan (ws : WsState) : ∀ scan, Decidable (SafeScan ws scan)
  | .incomplete => inferInstanceAs (Decidable True)
  | .reject _ => inferInstanceAs (Decidable (ws.undelivered = []))
  | .frame _ .ping _ _ | .frame _ .pong _ _ => inferInstanceAs (Decidable True)
  | .frame _ .close _ _ | .frame _ (.reserved _) _ _ => inferInstanceAs (Decidable (ws.undelivered = []))
  | .frame fin .cont payload _ => inferInstanceAs (Decidable (SafeData ws fin .cont payload))
  | .frame fin .text payload _ => inferInstanceAs (Decidable (SafeData ws fin .text payload))
  | .frame fin .binary payload _ => inferInstanceAs (Decidable (SafeData ws fin .binary payload))

def SafePass (ws : WsState) : Prop := SafeScan ws (wsFrame ws.inFragment ws.inbuf)

instance : DecidablePred SafePass := fun ws => decidableSafeScan ws (wsFrame ws.inFragment ws.inbuf)

def WsState.ahead (ws : WsState) (future : List UInt8) : List UInt8 :=
  decoding ws.openMessage (ws.inbuf ++ future)

def Decodes (ws after : WsState) (bytes : List UInt8) : Prop :=
  after.undelivered = ws.undelivered ++ bytes ∧ ∀ future, ws.ahead future = bytes ++ after.ahead future

lemma Decodes.refl (ws : WsState) : Decodes ws ws [] := ⟨(append_nil _).symm, fun _ => rfl⟩

lemma Decodes.trans {first second third : WsState} {before behind : List UInt8}
    (one : Decodes first second before) (two : Decodes second third behind) :
    Decodes first third (before ++ behind) := by
  refine ⟨?_, fun future => ?_⟩
  · rw [two.1, one.1, append_assoc]
  · rw [one.2, two.2, append_assoc]

variable {stray : WsState → Bool} {ws : WsState} {opcode : Opcode} {payload : List UInt8} {fin : Bool} {start : Nat}

lemma scan_appended (decided : wsFrame ws.inFragment ws.inbuf ≠ .incomplete) (future : List UInt8) :
    wsFrame ws.openMessage.isSome (ws.inbuf ++ future) = wsFrame ws.inFragment ws.inbuf := by
  rw [openMessage_isSome, wsFrame_append future decided]

lemma scan_ahead (scan : wsFrame ws.inFragment ws.inbuf = .frame fin opcode payload start) (future : List UInt8) :
    wsFrame ws.openMessage.isSome (ws.inbuf ++ future) = .frame fin opcode payload start ∧
      (ws.inbuf ++ future).drop (start + payload.length) = ws.inbuf.drop (start + payload.length) ++ future := by
  have decided : wsFrame ws.inFragment ws.inbuf ≠ .incomplete := by
    rw [scan]
    intro same
    cases same
  exact ⟨(scan_appended decided future).trans scan, drop_append_of_le_length (wsFrame_bounds scan).whole⟩

lemma isText_eq (continues : opcode = .cont → ws.inFragment = true) (data : opcode.isData = true) :
    ws.isText opcode = decide ((extendMessage ws.openMessage opcode payload).kind = .text) := by
  unfold isText extendMessage openMessage
  cases opcode with
  | cont =>
    rw [continues rfl]
    simp
  | text | binary => cases ws.inFragment <;> simp
  | _ => cases data

lemma opened_message (continues : opcode = .cont → ws.inFragment = true) (data : opcode.isData = true) :
    (updateFragment (ws.taken opcode false payload) opcode false (ws.msgStart opcode)).openMessage =
      some (extendMessage ws.openMessage opcode payload) := by
  have message : messageOf (ws.taken opcode false payload).log =
      if opcode = .cont then messageOf ws.log ++ payload else payload := messageOf_snoc _ _
  cases opcode with
  | cont =>
    have same : ws.openMessage = some ⟨ws.fragmentOpcode, messageOf ws.log⟩ := by
      rw [openMessage, if_pos (continues rfl)]
    rw [same]
    exact congrArg (fun m => some (Message.mk ws.fragmentOpcode m)) message
  | text =>
    rw [extendMessage_first _ (by decide)]
    exact congrArg (fun m => some (Message.mk .text m)) message
  | binary =>
    rw [extendMessage_first _ (by decide)]
    exact congrArg (fun m => some (Message.mk .binary m)) message
  | _ => cases data

lemma SafeData.verdict (safe : SafeData ws true opcode payload)
    (text : (extendMessage ws.openMessage opcode payload).kind = .text) :
    validates stray ((ws.taken opcode true payload).checked true (ws.msgStart opcode)) (ws.msgStart opcode) =
      wsIsValidUtf8 (extendMessage ws.openMessage opcode payload).payload := by
  obtain ⟨inside, same⟩ := safe.2 rfl text
  have decoded : ((ws.taken opcode true payload).checked true (ws.msgStart opcode)).decoded =
      ws.undelivered ++ payload := rfl
  rw [validates, decoded, if_pos inside, same]

lemma DataOutcome.refused {after : WsState} (outcome : DataOutcome stray ws opcode payload fin (.error (after, code)))
    (safe : SafeData ws fin opcode payload) (continues : opcode = .cont → ws.inFragment = true)
    (data : opcode.isData = true) : refuses (extendMessage ws.openMessage opcode payload) fin payload = true := by
  have room := safe.1
  cases outcome with
  | tooLong exceeds =>
    by_contra accepted
    rw [if_neg accepted, frameText, length_append] at room
    omega
  | invalid text bad =>
    rw [isText_eq continues data, decide_eq_true_iff] at text
    rw [safe.verdict text] at bad
    simp [refuses, text, bad]
  | noRoom good exceeds =>
    by_contra accepted
    rw [if_neg accepted, frameText, if_pos rfl, length_append] at room
    rw [length_append] at exceeds
    omega

lemma DataOutcome.taken {after : WsState} (outcome : DataOutcome stray ws opcode payload fin (.ok after))
    (safe : SafeData ws fin opcode payload) (continues : opcode = .cont → ws.inFragment = true)
    (data : opcode.isData = true) (short : payload.length ≤ wsMaxFrameSize) :
    refuses (extendMessage ws.openMessage opcode payload) fin payload = false ∧
      after.undelivered = ws.undelivered ++ frameText fin payload ∧
      after.openMessage = if fin then none else some (extendMessage ws.openMessage opcode payload) := by
  cases outcome with
  | part fits =>
    have sure : refuses (extendMessage ws.openMessage opcode payload) false payload = false := by
      have size : (frameText false payload).length = payload.length := by simp [frameText]
      rw [refuses, decide_eq_false (by rw [size]; exact Nat.not_lt.mpr short)]
      rfl
    refine ⟨sure, ?_, opened_message continues data⟩
    rw [frameText, if_neg Bool.false_ne_true, append_nil]
    unfold updateFragment
    split <;> rfl
  | finished good fits =>
    refine ⟨?_, ?_, ?_⟩
    · have size : ¬ wsMaxMessageSize < (frameText true payload).length := by
        rw [frameText, if_pos rfl, length_append]
        rw [length_append] at fits
        omega
      rw [refuses, decide_eq_false size, Bool.false_or, Bool.true_and]
      by_cases text : (extendMessage ws.openMessage opcode payload).kind = .text
      · have valid := good (by rw [isText_eq continues data]; exact decide_eq_true text)
        rw [safe.verdict text] at valid
        rw [valid, Bool.not_true, Bool.and_false]
      · rw [decide_eq_false text, Bool.false_and]
    · rw [frameText, if_pos rfl, ← append_assoc]
      unfold updateFragment
      split <;> rfl
    · rw [openMessage, updateFragment_closed]
      rfl

lemma opened_unchanged {after : WsState} (inFragment : after.inFragment = ws.inFragment)
    (opcode : after.fragmentOpcode = ws.fragmentOpcode) (message : messageOf after.log = messageOf ws.log) :
    ws.openMessage = after.openMessage := by
  rw [openMessage, openMessage, inFragment, opcode, message]

lemma safeScan_data (safe : SafeScan ws (.frame fin opcode payload start)) (data : opcode.isData = true) :
    SafeData ws fin opcode payload := by
  cases opcode with
  | cont | text | binary => exact safe
  | _ => cases data

def Exhausted (ws : WsState) : Prop := ws.undelivered = [] ∧ ∀ future, ws.ahead future = []

def PassDecodes (ws : WsState) : Pass → Prop
  | .leave after | .again after => ∃ bytes, Decodes ws after bytes
  | .fail _ => Exhausted ws

lemma wsParsePass_decodes (stray : WsState → Bool) (safe : SafePass ws) : PassDecodes ws (wsParsePass stray ws) := by
  unfold SafePass at safe
  have outcome := wsParsePass_outcome stray ws
  generalize wsParsePass stray ws = pass at outcome ⊢
  cases outcome with
  | waits scan => exact ⟨[], Decodes.refl ws⟩
  | refuses scan =>
    rw [scan] at safe
    refine ⟨safe, fun future => decoding_stops (.inr (.inl ⟨_, (scan_appended ?_ future).trans scan⟩))⟩
    rw [scan]
    intro same
    cases same
  | pings scan =>
    refine ⟨[], (append_nil _).symm, fun future => ?_⟩
    obtain ⟨scanned, rest⟩ := scan_ahead scan future
    rw [ahead, decoding_control scanned (.inl rfl), rest, ← unmasked_drop (wsFrame_bounds scan).whole]
    exact congrArg (decoding · _) (opened_unchanged rfl rfl (messageOf_snoc _ _))
  | pongs scan =>
    refine ⟨[], (append_nil _).symm, fun future => ?_⟩
    obtain ⟨scanned, rest⟩ := scan_ahead scan future
    rw [ahead, decoding_control scanned (.inr rfl), rest, ← unmasked_drop (wsFrame_bounds scan).whole]
    rfl
  | closes scan =>
    rw [scan] at safe
    exact ⟨safe, fun future => decoding_stops (.inr (.inr ⟨_, _, _, _, (scan_ahead scan future).1, .inl rfl⟩))⟩
  | unknown scan =>
    rw [scan] at safe
    exact ⟨safe, fun future =>
      decoding_stops (.inr (.inr ⟨_, _, _, _, (scan_ahead scan future).1, .inr ⟨_, rfl⟩⟩))⟩
  | breaks scan data outcome =>
    have bounds := wsFrame_bounds scan
    rw [scan] at safe
    have frameSafe := safeScan_data safe data
    have refused := outcome.refused frameSafe bounds.continues data
    have drained := frameSafe.1
    refine ⟨(if_pos refused).mp drained, fun future => ?_⟩
    rw [ahead, decoding_data (scan_ahead scan future).1 data]
    exact if_pos refused
  | takes scan data outcome =>
    have bounds := wsFrame_bounds scan
    rw [scan] at safe
    have frameSafe := safeScan_data safe data
    obtain ⟨accepted, undelivered, current⟩ := outcome.taken frameSafe bounds.continues data bounds.short
    refine ⟨frameText _ _, undelivered, fun future => ?_⟩
    obtain ⟨scanned, rest⟩ := scan_ahead scan future
    rw [ahead, decoding_data scanned data, rest, ← unmasked_drop bounds.whole, ← outcome.inbuf_ok]
    apply (if_neg (by rw [Bool.not_eq_true]; exact accepted)).trans
    exact congrArg (fun message => frameText _ _ ++ decoding message _) current.symm

def LoopDecodes (ws : WsState) : WsState × Bool → Prop
  | (after, true) => ∃ bytes, Decodes ws after bytes
  | (_, false) => Exhausted ws

lemma LoopDecodes.after {bytes : List UInt8} (decodes : Decodes ws middle bytes) (tail : LoopDecodes middle result) :
    LoopDecodes ws result := by
  obtain ⟨final, returned⟩ := result
  cases returned with
  | true =>
    obtain ⟨more, rest⟩ := tail
    exact ⟨bytes ++ more, decodes.trans rest⟩
  | false =>
    -- Nothing lies undelivered at the end, so the passes before have decoded nothing.
    obtain ⟨drained, nothing⟩ := tail
    have parts := List.append_eq_nil_iff.mp (decodes.1.symm.trans drained)
    refine ⟨parts.1, fun future => ?_⟩
    rw [decodes.2, parts.2, nothing]
    rfl

lemma wsParseLoop_decodes (safe : EachPass stray SafePass rounds ws) :
    LoopDecodes ws (wsParseLoop stray rounds ws) := by
  induction rounds generalizing ws with
  | zero => exact ⟨[], Decodes.refl ws⟩
  | succ rounds ih =>
    have pass := wsParsePass_decodes stray safe.1
    have others := safe.2
    rw [wsParseLoop]
    cases result : wsParsePass stray ws with
    | leave after | fail after =>
      rw [result] at pass
      exact pass
    | again after =>
      rw [result] at pass others
      obtain ⟨bytes, decodes⟩ := pass
      exact (ih others).after decodes

end LibOp.Websocket

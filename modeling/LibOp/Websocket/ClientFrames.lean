import LibOp.Utf8.Agreement
import LibOp.Websocket.Decoding
import LibOp.Websocket.Queue

namespace LibOp.Websocket

open Foundation Utf8 List

/-! The client's side: a masked frame with any of the three forms of its length. -/

inductive LengthForm where
  | seven
  | sixteen
  | sixtyFour
deriving DecidableEq

def LengthForm.limit : LengthForm → Nat
  | seven => 126
  | sixteen => 2 ^ 16
  | sixtyFour => 2 ^ 63

/-- The second byte, with the mask bit, and the bytes of the extended length. -/
def LengthForm.bytes (len : Nat) : LengthForm → List UInt8
  | seven => [UInt8.ofNat (128 + len)]
  | sixteen => 254 :: bigEndianBytes 2 len
  | sixtyFour => 255 :: bigEndianBytes 8 len

def Opcode.bits : Opcode → Nat
  | cont => 0x0
  | text => 0x1
  | binary => 0x2
  | close => 0x8
  | ping => 0x9
  | pong => 0xA
  | reserved bits => bits

structure ClientFrame where
  fin : Bool
  opcode : Opcode
  form : LengthForm
  maskKey : List UInt8
  payload : List UInt8
  key : maskKey.length = 4
  fits : payload.length < form.limit

def ClientFrame.bytes (f : ClientFrame) : List UInt8 :=
  UInt8.ofNat ((if f.fin then 128 else 0) + f.opcode.bits) ::
    (f.form.bytes f.payload.length ++ (f.maskKey ++ unmask f.maskKey f.payload))

namespace ClientFrame

variable (f : ClientFrame) (current : Option Message)

def next : Option Message :=
  if f.opcode.isData then if f.fin then none else some (extendMessage current f.opcode f.payload) else current

def text : List UInt8 := if f.opcode.isData then frameText f.fin f.payload else []

def answer : List OutFrame := if f.opcode = .ping then [⟨pongByte, f.payload⟩] else []

/-- The frame may come while the message `current` is open. -/
structure Follows : Prop where
  known : f.opcode.isData = true ∨ f.opcode = .ping ∨ f.opcode = .pong
  control : f.opcode.isData = false → f.fin = true ∧ f.payload.length ≤ 125
  opens : f.opcode.isData = true → current.isSome = decide (f.opcode = .cont)
  utf8 : f.opcode.isData = true → f.fin = true → (extendMessage current f.opcode f.payload).kind = .text →
    IsUtf8 (extendMessage current f.opcode f.payload).payload

end ClientFrame

def WellFormed : Option Message → List ClientFrame → Prop
  | current, [] => current = none
  | current, f :: rest => f.Follows current ∧ WellFormed (f.next current) rest

def messages : Option Message → List ClientFrame → List (List UInt8)
  | _, [] => []
  | current, f :: rest =>
    if f.opcode.isData && f.fin then (extendMessage current f.opcode f.payload).payload :: messages none rest
    else messages (f.next current) rest

def arriving (frames : List ClientFrame) : WsState :=
  { wsAlloc with keyed := true, inbuf := frames.flatMap ClientFrame.bytes }

variable {f : ClientFrame} {current : Option Message}

lemma unmask_unmask (maskKey payload : List UInt8) : unmask maskKey (unmask maskKey payload) = payload := by
  apply ext_getElem?
  intro i
  simp [unmask, Function.comp_def]

lemma wsPayloadLen_bytes {form : LengthForm} {len : Nat} (fits : len < form.limit) (short : len ≤ wsMaxFrameSize)
    (rest : List UInt8) :
    ∃ second body width, form.bytes len ++ rest = second :: body ∧ (form.bytes len).length = width + 1 ∧
      second.toNat >>> 7 &&& 1 = 1 ∧ wsPayloadLen (second.toNat &&& 0x7f) body = .known len width ∧
        body.drop width = rest := by
  have size (n : Nat) : (bigEndianBytes n len).length = n := bigEndianBytes_length n len
  have enough (n : Nat) : ¬ (bigEndianBytes n len ++ rest).length < n := by
    rw [length_append, size]
    omega
  cases form with
  | seven =>
    have small : len < 126 := fits
    have value : (UInt8.ofNat (128 + len)).toNat = 128 + len := by
      rw [UInt8.toNat_ofNat']
      omega
    have low : (128 + len) &&& 0x7f = len := by
      rw [Nat.and_two_pow_sub_one_eq_mod (128 + len) 7]
      omega
    refine ⟨UInt8.ofNat (128 + len), rest, 0, rfl, rfl, ?_, ?_, rfl⟩
    · rw [value, Nat.shiftRight_eq_div_pow, Nat.and_one_is_mod]
      omega
    · rw [value, low, wsPayloadLen, if_neg (by omega), if_neg (by omega)]
  | sixteen =>
    refine ⟨254, bigEndianBytes 2 len ++ rest, 2, rfl, congrArg (· + 1) (size _), rfl, ?_, drop_left' (size _)⟩
    rw [show (254 : UInt8).toNat &&& 0x7f = 126 from rfl, wsPayloadLen, if_pos rfl, if_neg (enough _),
      take_left' (size _), bigEndian_bigEndianBytes fits]
  | sixtyFour =>
    refine ⟨255, bigEndianBytes 8 len ++ rest, 8, rfl, congrArg (· + 1) (size _), rfl, ?_, drop_left' (size _)⟩
    have top : len &&& 2 ^ 63 = 0 := by
      rw [Nat.and_two_pow, Nat.testBit_lt_two_pow (lt_of_le_of_lt short (by decide))]
      rfl
    rw
    [show (255 : UInt8).toNat &&& 0x7f = 127 from rfl, wsPayloadLen, if_neg (by decide), if_pos rfl, if_neg (enough _),
      take_left' (size _), bigEndian_bigEndianBytes (lt_of_le_of_lt short (by decide))]
    exact if_neg fun bad => bad.elim (fun nonzero => nonzero top) (Nat.not_lt.mpr short)

lemma firstByte_fields (known : opcode.isData = true ∨ opcode = .ping ∨ opcode = .pong) (fin : Bool) :
    let first := UInt8.ofNat ((if fin then 128 else 0) + opcode.bits)
    decide (first.toNat >>> 7 &&& 1 = 1) = fin ∧ first.toNat >>> 4 &&& 0x7 = 0 ∧
      first.toNat &&& 0x0f = opcode.bits ∧ Opcode.ofBits opcode.bits = opcode ∧
        (opcode.bits ≥ 0x8 → opcode.isData = false) := by
  cases opcode with
  | cont | text | binary | ping | pong => cases fin <;> decide
  | close | reserved => simp [Opcode.isData] at known

lemma wsFrame_bytes (follows : f.Follows current) (short : f.payload.length ≤ wsMaxFrameSize) (rest : List UInt8) :
    ∃ start, wsFrame current.isSome (f.bytes ++ rest) = .frame f.fin f.opcode f.payload start ∧
      start + f.payload.length = f.bytes.length := by
  obtain ⟨known, control, opens, _⟩ := follows
  obtain ⟨second, body, width, shape, header, masked, length, behind⟩ :=
    wsPayloadLen_bytes f.fits short (f.maskKey ++ (unmask f.maskKey f.payload ++ rest))
  obtain ⟨fin, rsv, bits, opcode, isControl⟩ := firstByte_fields known f.fin
  have size : (unmask f.maskKey f.payload).length = f.payload.length := length_mapIdx
  have whole : (f.maskKey ++ (unmask f.maskKey f.payload ++ rest)).length = 4 + f.payload.length + rest.length := by
    rw [length_append, length_append, f.key, size, add_assoc]
  refine ⟨2 + width + 4, ?_, ?_⟩
  · rw [ClientFrame.bytes, cons_append, append_assoc, append_assoc, shape]
    simp only [wsFrame, rsv, length, behind, fin, bits, masked, wsFrameBody, opcode]
    rw [if_neg (by decide), if_neg (by decide), if_neg, if_neg, if_neg, if_neg (by omega), if_neg (by omega),
      if_neg (Nat.not_lt.mpr short), take_left' f.key, drop_left' f.key, take_left' size, unmask_unmask]
    · rintro ⟨isCont, closed⟩
      rw [opens (by rw [isCont]; rfl), isCont] at closed
      cases closed
    · rintro ⟨first, opened⟩
      rcases first with first | first <;> rw [opens (by rw [first]; rfl), first] at opened <;> cases opened
    · rintro ⟨large, bad⟩
      obtain ⟨final, few⟩ := control (isControl large)
      rw [final] at bad
      exact bad.elim (by decide) (Nat.not_lt.mpr few)
  · rw [ClientFrame.bytes, length_cons, length_append, length_append, size, f.key, header]
    omega

section

variable {stray : WsState → Bool} {ws after : WsState}

structure Reading (ws : WsState) (current : Option Message) : Prop where
  opened : ws.openMessage = current
  compact : ws.decodedPos = 0
  covers : ∀ message, current = some message → Covers ws.fragmentStart ws.undelivered message.payload
  valid : ws.frameOut.Valid

lemma Reading.extend (reading : Reading ws current) (follows : f.Follows current) (data : f.opcode.isData = true) :
    Covers (ws.msgStart f.opcode) (ws.undelivered ++ f.payload) (extendMessage current f.opcode f.payload).payload := by
  have opens := follows.opens data
  rw [WsState.msgStart]
  by_cases continues : f.opcode = .cont
  · rw [decide_eq_true continues, Option.isSome_iff_exists] at opens
    obtain ⟨message, rfl⟩ := opens
    obtain ⟨inside, same⟩ := reading.covers message rfl
    rw [if_pos continues, extendMessage, if_pos continues]
    refine ⟨?_, ?_⟩
    · rw [length_append]
      omega
    · rw [drop_append_of_le_length inside, same]
  · rw [if_neg continues, extendMessage_first current continues]
    refine ⟨?_, drop_left' rfl⟩
    rw [length_append]
    omega

lemma DataOutcome.kept (outcome : DataOutcome stray ws opcode payload fin (.ok after)) (data : opcode.isData = true) :
    after.frameOut = ws.frameOut ∧ after.decodedPos = 0 ∧
      (fin = false → after.fragmentStart = ws.msgStart opcode) := by
  cases outcome with
  | part =>
    cases opcode with
    | cont | text | binary => exact ⟨rfl, rfl, fun _ => rfl⟩
    | _ => cases data
  | finished =>
    unfold updateFragment WsState.checked
    split <;> split <;> exact ⟨rfl, rfl, fun more => by cases more⟩

structure Reads (ws after : WsState) (f : ClientFrame) (current : Option Message) (rest : List UInt8) : Prop where
  input : after.inbuf = rest
  reading : Reading after (f.next current)
  text : after.undelivered = ws.undelivered ++ f.text
  answer : after.frameOut.pending = ws.frameOut.pending ++ f.answer.flatMap OutFrame.bytes

section

variable {rest : List UInt8} {start : Nat} (reading : Reading ws current) (follows : f.Follows current)
  (input : ws.inbuf = f.bytes ++ rest) (size : start + f.payload.length = f.bytes.length)
  (scan : wsFrame ws.inFragment ws.inbuf = .frame f.fin f.opcode f.payload start)

include reading follows input size scan

lemma wsParsePass_reads_data (data : f.opcode.isData = true)
    (room : ws.undelivered.length + f.text.length ≤ wsMaxMessageSize) :
    ∃ after, wsParsePass stray ws = .again after ∧ Reads ws after f current rest := by
  have bounds := wsFrame_bounds scan
  have behind := unmasked_drop bounds.whole
  rw [size, input, drop_left' rfl] at behind
  have extended := reading.extend follows data
  have opened : (ws.unmasked f.payload start).openMessage = current := reading.opened
  rw [ClientFrame.text, if_pos data] at room
  have accepted : refuses (extendMessage current f.opcode f.payload) f.fin f.payload = false := by
    rw [refuses, decide_eq_false (by omega), Bool.false_or, Bool.and_eq_false_iff, Bool.and_eq_false_iff]
    by_cases isText : f.fin = true ∧ (extendMessage current f.opcode f.payload).kind = .text
    · rw [wsIsValidUtf8_eq_true.mpr (follows.utf8 data isText.1 isText.2)]
      exact .inr rfl
    · exact .inl (by simpa [imp_iff_not_or] using isText)
  have safe : SafeData (ws.unmasked f.payload start) f.fin f.opcode f.payload := by
    rw [SafeData, opened, accepted]
    refine ⟨room, fun final isText => ⟨extended.1, congrArg wsIsValidUtf8 extended.2⟩⟩
  have outcome := wsDataFrame_outcome stray (ws.unmasked f.payload start) f.fin f.opcode f.payload
  cases result : wsDataFrame stray (ws.unmasked f.payload start) f.fin f.opcode f.payload with
  | error failure =>
    rw [result] at outcome
    have refused := outcome.refused safe bounds.continues data
    rw [opened, accepted] at refused
    cases refused
  | ok after =>
    rw [result] at outcome
    obtain ⟨_, text, next⟩ := outcome.taken safe bounds.continues data bounds.short
    obtain ⟨out, compact, begins⟩ := outcome.kept data
    refine ⟨_, wsParsePass_takes stray scan data result, ?_, ⟨?_, compact, ?_, ?_⟩, ?_, ?_⟩
    · rw [inbufConsume, outcome.inbuf_ok, size]
      exact behind
    · rw [ClientFrame.next, if_pos data, ← opened]
      exact next
    · intro message isOpen
      cases fin : f.fin with
      | true => rw [ClientFrame.next, if_pos data, if_pos fin] at isOpen; cases isOpen
      | false =>
        rw [ClientFrame.next, if_pos data, fin] at isOpen
        rw [fin, frameText] at text
        cases isOpen
        change Covers after.fragmentStart after.undelivered _
        rw [begins fin, text, if_neg Bool.false_ne_true, append_nil]
        exact extended
    · exact out ▸ reading.valid
    · rw [ClientFrame.text, if_pos data]
      exact text
    · rw [ClientFrame.answer, if_neg fun isPing => by rw [isPing] at data; cases data]
      exact (congrArg RawbufHead.pending out).trans (append_nil _).symm

omit follows in
lemma wsParsePass_reads_control (control : f.opcode = .ping ∨ f.opcode = .pong) :
    ∃ after, wsParsePass stray ws = .again after ∧ Reads ws after f current rest := by
  have idle : f.opcode.isData = false := by rcases control with same | same <;> rw [same] <;> rfl
  obtain ⟨opened, compact, covers, valid⟩ := reading
  have reads {out : RawbufHead} {log : List WsEvent} (same : messageOf log = messageOf ws.log) (valid : out.Valid)
      (answer : out.pending = ws.frameOut.pending ++ f.answer.flatMap OutFrame.bytes) :
      Reads ws (inbufConsume { ws.unmasked f.payload start with frameOut := out, log := log }
        (start + f.payload.length)) f current rest := by
    refine ⟨?_, ⟨?_, compact, ?_, valid⟩, ?_, answer⟩
    · rw [inbufConsume, unmasked_drop (wsFrame_bounds scan).whole, size, input, drop_left' rfl]
    · rw [ClientFrame.next, idle, ← opened]
      refine (opened_unchanged ?_ ?_ ?_).symm
      exacts [rfl, rfl, same]
    · rw [ClientFrame.next, idle]
      exact covers
    · rw [ClientFrame.text, idle]
      exact (append_nil _).symm
  rcases control with isPing | isPong
  · rw [isPing] at scan
    rw [wsParsePass, scan]
    obtain ⟨written, pending⟩ :=
      wsWriteFrameRaw_out pongByte f.payload (show (ws.unmasked f.payload start).frameOut.Valid from valid)
    refine ⟨_, rfl, reads (messageOf_snoc _ _) written ?_⟩
    rw [ClientFrame.answer, if_pos isPing, flatMap_singleton]
    exact pending
  · rw [isPong] at scan
    rw [wsParsePass, scan]
    refine ⟨_, rfl, reads rfl valid ?_⟩
    rw [ClientFrame.answer, isPong]
    exact (append_nil _).symm

end

variable (stray)

lemma wsParsePass_reads (reading : Reading ws current) (follows : f.Follows current)
    (input : ws.inbuf = f.bytes ++ rest) (room : ws.undelivered.length + f.text.length ≤ wsMaxMessageSize) :
    ∃ after, wsParsePass stray ws = .again after ∧ Reads ws after f current rest := by
  have short : f.payload.length ≤ wsMaxFrameSize := by
    cases data : f.opcode.isData with
    | true =>
      rw [ClientFrame.text, if_pos data, frameText, length_append] at room
      exact le_trans (by omega) room
    | false => exact le_trans (follows.control data).2 (by decide)
  obtain ⟨start, scan, size⟩ := wsFrame_bytes follows short rest
  rw [← input, ← reading.opened, openMessage_isSome] at scan
  rcases follows.known with data | control
  · exact wsParsePass_reads_data reading follows input size scan data room
  · exact wsParsePass_reads_control reading input size scan control

variable {frames : List ClientFrame}

lemma wsParseLoop_reads (wellFormed : WellFormed current frames)
    (reading : Reading ws current) (input : ws.inbuf = frames.flatMap ClientFrame.bytes)
    (enough : ws.inbuf.length ≤ rounds)
    (room : ws.undelivered.length + (frames.flatMap ClientFrame.text).length ≤ wsMaxMessageSize) :
    ∃ after, wsParseLoop stray rounds ws = (after, true) ∧ after.inbuf = [] ∧ Reading after none ∧
      after.undelivered = ws.undelivered ++ frames.flatMap ClientFrame.text ∧
      after.frameOut.pending = ws.frameOut.pending ++ (frames.flatMap ClientFrame.answer).flatMap OutFrame.bytes := by
  induction frames generalizing ws current rounds with
  | nil =>
    have none : current = none := wellFormed
    subst none
    have left : wsParsePass stray ws = .leave ws := by
      rw [wsParsePass, input]
      rfl
    refine ⟨ws, ?_, input, reading, (append_nil _).symm, (append_nil _).symm⟩
    cases rounds with
    | zero => rfl
    | succ rounds => rw [wsParseLoop, left]
  | cons f frames ih =>
    obtain ⟨follows, others⟩ := wellFormed
    rw [flatMap_cons] at input
    rw [flatMap_cons, length_append] at room
    obtain ⟨next, pass, reads⟩ := wsParsePass_reads stray reading follows input (by omega)
    cases rounds with
    | zero =>
      rw [input, ClientFrame.bytes] at enough
      cases enough
    | succ rounds =>
      have shorter := congrArg List.length input
      rw [length_append, ClientFrame.bytes, length_cons] at shorter
      have fits : next.undelivered.length + (frames.flatMap ClientFrame.text).length ≤ wsMaxMessageSize := by
        rw [reads.text, length_append]
        omega
      have fewer : next.inbuf.length ≤ rounds := by
        rw [reads.input]
        omega
      obtain ⟨after, loop, empty, done, text, answers⟩ := ih others reads.reading reads.input fewer fits
      refine ⟨after, ?_, empty, done, ?_, ?_⟩
      · rw [wsParseLoop, pass]
        exact loop
      · rw [text, reads.text, flatMap_cons, append_assoc]
      · rw [answers, reads.answer, flatMap_cons, flatMap_append, append_assoc]

end

lemma extendMessage_payload (opens : current.isSome = decide (f.opcode = .cont)) :
    (extendMessage current f.opcode f.payload).payload = current.elim [] Message.payload ++ f.payload := by
  cases current with
  | none => rfl
  | some message => rw [extendMessage, if_pos (of_decide_eq_true opens.symm), Option.elim]

lemma text_eq_messages (wellFormed : WellFormed current frames) :
    current.elim [] Message.payload ++ frames.flatMap ClientFrame.text =
      (messages current frames).flatMap (· ++ crlf) := by
  induction frames generalizing current with
  | nil =>
    have none : current = none := wellFormed
    rw [none]
    rfl
  | cons f frames ih =>
    obtain ⟨follows, others⟩ := wellFormed
    have rest := ih others
    rw [flatMap_cons, messages]
    cases data : f.opcode.isData with
    | false =>
      rw [ClientFrame.next, data] at rest ⊢
      rw [ClientFrame.text, data]
      exact rest
    | true =>
      have extended := extendMessage_payload (follows.opens data)
      rw [ClientFrame.next, if_pos data] at rest
      rw [ClientFrame.text, if_pos data, frameText, ← append_assoc, ← append_assoc, ← extended]
      cases fin : f.fin with
      | true =>
        rw [fin] at rest
        exact congrArg (_ ++ ·) rest
      | false =>
        rw [fin] at rest
        rw [ClientFrame.next, if_pos data, fin, if_neg Bool.false_ne_true, append_nil]
        exact rest

theorem well_formed_frames_decoded (stray : WsState → Bool) (ssl : Bool) (sock : SockResult)
    {frames : List ClientFrame} (wellFormed : WellFormed none frames)
    (room : ((messages none frames).flatMap (· ++ crlf)).length ≤ wsMaxMessageSize) {ws : WsState}
    {sent : List UInt8} {result : Bool} (parse : wsParseFrames stray ssl (arriving frames) sock = (ws, sent, result)) :
    result = true ∧ ws.inbuf = [] ∧ ws.inFragment = false ∧ ws.decoded = (messages none frames).flatMap (· ++ crlf) ∧
      sent ++ ws.frameOut.pending = (frames.flatMap ClientFrame.answer).flatMap OutFrame.bytes := by
  have fresh : Reading (arriving frames) none :=
    ⟨rfl, rfl, fun _ isOpen => absurd isOpen (Option.some_ne_none _).symm, newRawbuffer_valid⟩
  rw [← text_eq_messages wellFormed] at room ⊢
  obtain ⟨after, loop, empty, done, text, answers⟩ :=
    wsParseLoop_reads stray wellFormed fresh rfl le_rfl
      ((zero_add _).trans_le room)
  have flushed := (rawbufFlush_spec done.valid ssl sock).2
  rw [wsParseFrames, loop] at parse
  cases parse
  refine ⟨rfl, empty, ?_, ?_, flushed.trans answers⟩
  · exact (openMessage_isSome after).symm.trans (congrArg Option.isSome done.opened)
  · rw [WsState.undelivered, done.compact] at text
    exact text

/-- A TEXT message `hi` in two frames with a PING between them. -/
def greeting : List ClientFrame :=
  [⟨false, .text, .sixteen, [1, 2, 3, 4], [0x68], rfl, by decide⟩,
    ⟨true, .ping, .seven, [5, 6, 7, 8], [0x70], rfl, by decide⟩,
    ⟨true, .cont, .sixtyFour, [9, 10, 11, 12], [0x69], rfl, by decide⟩]

theorem well_formed_frames_decoded_greeting :
    (wsParseFrames (fun _ => false) false (arriving greeting) .wouldBlock).1.decoded = [0x68, 0x69, 0x0D, 0x0A] := by
  have wellFormed : WellFormed none greeting := by
    refine ⟨⟨by decide, by decide, by decide, fun _ _ => ?_⟩, ⟨by decide, by decide, by decide, fun _ _ => ?_⟩,
      ⟨by decide, by decide, by decide, fun _ _ _ => wsIsValidUtf8_eq_true.mp (by decide)⟩, rfl⟩ <;> contradiction
  have parsed := well_formed_frames_decoded (fun _ => false) false .wouldBlock wellFormed (by decide) rfl
  exact parsed.2.2.2.1

end LibOp.Websocket

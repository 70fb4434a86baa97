import LibOp.Websocket.Endpoint
import LibOp.Websocket.Passes

namespace LibOp.Websocket

open List WsState

/-- The payloads of the message of the last data frame: a TEXT or BINARY frame begins one. -/
def messageStep (message : List UInt8) : WsEvent → List UInt8
  | .accepted opcode _ payload => if opcode = .cont then message ++ payload else payload
  | _ => message

def messageOf (events : List WsEvent) : List UInt8 := events.foldl messageStep []

def deliveredStep (bytes : List UInt8) : WsEvent → List UInt8
  | .accepted opcode _ _ => if opcode = .cont then bytes else []
  | .delivered more => bytes ++ more
  | _ => bytes

def deliveredSince (events : List WsEvent) : List UInt8 := events.foldl deliveredStep []

@[simp] lemma messageOf_snoc (events : List WsEvent) (event : WsEvent) :
    messageOf (events ++ [event]) = messageStep (messageOf events) event := by
  rw [messageOf, foldl_append]
  rfl

@[simp] lemma deliveredSince_snoc (events : List WsEvent) (event : WsEvent) :
    deliveredSince (events ++ [event]) = deliveredStep (deliveredSince events) event := by
  rw [deliveredSince, foldl_append]
  rfl

def Covers (msgStart : Nat) (decoded message : List UInt8) : Prop :=
  msgStart ≤ decoded.length ∧ decoded.drop msgStart = message

def Judged (events : List WsEvent) : Prop :=
  ∀ before msgStart decoded after, events = before ++ .validated msgStart decoded :: after →
    (Covers msgStart decoded (messageOf before) ↔ deliveredSince before = [])

/-- What `earlier` lay undelivered when the open message began. -/
def OffsetAt (ws : WsState) (earlier : List UInt8) : Prop :=
  earlier.length = ws.fragmentStart ∧ (deliveredSince ws.log).length ≤ (earlier ++ messageOf ws.log).length ∧
    ws.undelivered = (earlier ++ messageOf ws.log).drop (deliveredSince ws.log).length

structure Fragments (ws : WsState) : Prop where
  offset : ws.inFragment = true → ∃ earlier, OffsetAt ws earlier
  judged : Judged ws.log

lemma Judged.snoc {events : List WsEvent} (judged : Judged events)
    (new : ∀ msgStart decoded, event = .validated msgStart decoded →
      (Covers msgStart decoded (messageOf events) ↔ deliveredSince events = [])) : Judged (events ++ [event]) := by
  intro before msgStart decoded after split
  rcases eq_nil_or_concat after with rfl | ⟨front, last, rfl⟩
  · obtain ⟨rfl, same⟩ := append_inj' split rfl
    exact new msgStart decoded (List.cons.inj same).1
  · rw [concat_eq_append, ← cons_append, ← append_assoc] at split
    exact judged before msgStart decoded front (append_inj' split rfl).1

lemma Fragments.frame {ws after : WsState} (fragments : Fragments ws)
    (same : after.undelivered = ws.undelivered) (open_ : after.inFragment = ws.inFragment)
    (start : after.fragmentStart = ws.fragmentStart)
    (log : after.log = ws.log ∨ ∃ frame, after.log = ws.log ++ [.queued frame]) : Fragments after := by
  have message : messageOf after.log = messageOf ws.log := by
    rcases log with log | ⟨frame, log⟩
    · rw [log]
    · rw [log]
      exact messageOf_snoc _ _
  have delivered : deliveredSince after.log = deliveredSince ws.log := by
    rcases log with log | ⟨frame, log⟩
    · rw [log]
    · rw [log]
      exact deliveredSince_snoc _ _
  refine ⟨fun inFragment => ?_, ?_⟩
  · rw [open_] at inFragment
    obtain ⟨earlier, offset⟩ := fragments.offset inFragment
    refine ⟨earlier, ?_⟩
    rw [OffsetAt, start, message, delivered, same]
    exact offset
  · rcases log with log | ⟨frame, log⟩
    · rw [log]
      exact fragments.judged
    · rw [log]
      exact fragments.judged.snoc fun _ _ other => nomatch other

section

variable {ws : WsState} (fragments : Fragments ws)

include fragments

lemma Fragments.writeFrame (firstByte : UInt8) (payload : List UInt8) :
    Fragments (wsWriteFrameRaw ws firstByte payload) :=
  fragments.frame rfl rfl rfl (.inr ⟨⟨firstByte, payload⟩, rfl⟩)

lemma Fragments.writeClose (code : Nat) : Fragments (wsWriteCloseFrame ws code) := by
  unfold wsWriteCloseFrame
  split
  · exact fragments
  · exact fragments.frame rfl rfl rfl (.inr ⟨_, rfl⟩)

lemma Fragments.unmasked (payload : List UInt8) (start : Nat) : Fragments (ws.unmasked payload start) :=
  fragments.frame rfl rfl rfl (.inl rfl)

lemma Fragments.consume (n : Nat) : Fragments (inbufConsume ws n) :=
  fragments.frame rfl rfl rfl (.inl rfl)

lemma Fragments.flush (ssl : Bool) (sock : SockResult) : Fragments (wsFlush ssl ws sock).1 :=
  fragments.frame rfl rfl rfl (.inl rfl)

lemma Fragments.deliver (count : Nat) : Fragments (wsDeliver ws count).1 := by
  refine ⟨fun inFragment => ?_, fragments.judged.snoc fun _ _ other => nomatch other⟩
  obtain ⟨earlier, start, bound, left⟩ := fragments.offset inFragment
  have rest : (wsDeliver ws count).1.undelivered = ws.undelivered.drop (min ws.undelivered.length count) := by
    simp [wsDeliver, record, undelivered]
  have taken : (deliveredSince (wsDeliver ws count).1.log).length =
      (deliveredSince ws.log).length + min ws.undelivered.length count := by
    simp only [wsDeliver, record, deliveredSince_snoc, deliveredStep, length_append,
      length_take, length_drop, undelivered]
    omega
  have message : messageOf (wsDeliver ws count).1.log = messageOf ws.log := messageOf_snoc _ _
  have size := congrArg List.length left
  rw [length_drop] at size
  refine ⟨earlier, start, ?_, ?_⟩
  · rw [taken, message]
    omega
  · rw [rest, taken, message, left, drop_drop, ← left]

end

lemma covers_drop_iff (bound : gone ≤ (earlier ++ message).length) :
    Covers earlier.length ((earlier ++ message).drop gone) message ↔ gone = 0 := by
  constructor
  · rintro ⟨inside, same⟩
    have size := congrArg List.length same
    rw [drop_drop, length_drop, length_append] at size
    rw [length_drop, length_append] at inside
    rw [length_append] at bound
    omega
  · rintro rfl
    exact ⟨by rw [drop_zero, length_append]; omega, by rw [drop_zero, drop_left]⟩

variable {earlier : List UInt8}

lemma OffsetAt.taken (offset : OffsetAt ws earlier) (fin : Bool)
    (payload : List UInt8) : OffsetAt (ws.taken .cont fin payload) earlier := by
  obtain ⟨start, bound, left⟩ := offset
  have message : messageOf (ws.taken .cont fin payload).log = messageOf ws.log ++ payload := messageOf_snoc _ _
  have delivered : deliveredSince (ws.taken .cont fin payload).log = deliveredSince ws.log :=
    deliveredSince_snoc _ _
  refine ⟨start, ?_, ?_⟩
  · rw [message, delivered, ← append_assoc, length_append]
    omega
  · rw [message, delivered, ← append_assoc, drop_append_of_le_length bound, ← left]
    rfl

lemma OffsetAt.opened (ws : WsState) (first : opcode ≠ .cont) (fin : Bool)
    (payload : List UInt8) {start : WsState} (same : start.undelivered = ws.undelivered ++ payload)
    (offset : start.fragmentStart = ws.undelivered.length)
    (log : start.log = ws.log ++ [.accepted opcode fin payload]) : OffsetAt start ws.undelivered := by
  have message : messageOf start.log = payload := by rw [log, messageOf_snoc, messageStep, if_neg first]
  have delivered : deliveredSince start.log = [] := by rw [log, deliveredSince_snoc, deliveredStep, if_neg first]
  refine ⟨offset.symm, ?_, ?_⟩
  · rw [delivered]
    exact Nat.zero_le _
  · rw [message, delivered, same]
    rfl

section

variable {stray : WsState → Bool} {ws : WsState} {opcode : Opcode} {payload : List UInt8} {fin : Bool}

lemma Fragments.takenJudged (fragments : Fragments ws) : Judged (ws.taken opcode fin payload).log :=
  fragments.judged.snoc fun _ _ other => nomatch other

lemma Fragments.validated (fragments : Fragments ws) (continues : opcode = .cont → ws.inFragment = true) :
    Covers (ws.msgStart opcode) (ws.taken opcode true payload).decoded (messageOf (ws.taken opcode true payload).log) ↔
      deliveredSince (ws.taken opcode true payload).log = [] := by
  by_cases further : opcode = .cont
  · subst further
    obtain ⟨earlier, offset⟩ := fragments.offset (continues rfl)
    obtain ⟨start, bound, left⟩ := offset.taken true payload
    have sameStart : ws.msgStart .cont = earlier.length := start.symm
    rw [sameStart, show (ws.taken .cont true payload).decoded = (ws.taken .cont true payload).undelivered from rfl,
      left, covers_drop_iff bound, length_eq_zero_iff]
  · have start : ws.msgStart opcode = ws.undelivered.length := if_neg further
    have message : messageOf (ws.taken opcode true payload).log = payload :=
      (messageOf_snoc _ _).trans (if_neg further)
    have delivered : deliveredSince (ws.taken opcode true payload).log = [] :=
      (deliveredSince_snoc _ _).trans (if_neg further)
    rw [start, message, delivered]
    refine ⟨fun _ => rfl, fun _ => ⟨?_, ?_⟩⟩
    · show _ ≤ (ws.undelivered ++ payload).length
      rw [length_append]
      omega
    · exact drop_left

lemma Fragments.checkedJudged (fragments : Fragments ws) (continues : opcode = .cont → ws.inFragment = true)
    (isText : Bool) : Judged ((ws.taken opcode true payload).checked isText (ws.msgStart opcode)).log := by
  cases isText with
  | false => exact fragments.takenJudged
  | true =>
    apply fragments.takenJudged.snoc
    intro msgStart decoded same
    injection same with sameStart sameDecoded
    subst sameStart sameDecoded
    exact fragments.validated continues

lemma checked_offset (offset : OffsetAt ws earlier) (isText : Bool) (msgStart : Nat) :
    OffsetAt (ws.checked isText msgStart) earlier := by
  cases isText with
  | false => exact offset
  | true =>
    obtain ⟨start, bound, left⟩ := offset
    have message : messageOf (ws.checked true msgStart).log = messageOf ws.log := messageOf_snoc _ _
    have delivered : deliveredSince (ws.checked true msgStart).log = deliveredSince ws.log := deliveredSince_snoc _ _
    rw [OffsetAt, message, delivered]
    exact ⟨start, bound, left⟩

lemma Fragments.refused (fragments : Fragments ws) (continues : opcode = .cont → ws.inFragment = true)
    (opens : opcode = .text ∨ opcode = .binary → ws.inFragment = false) (data : opcode.isData = true)
    (isText : Bool) : Fragments ((ws.taken opcode true payload).checked isText (ws.msgStart opcode)) := by
  refine ⟨fun inFragment => ?_, fragments.checkedJudged continues isText⟩
  have before : ws.inFragment = true := by cases isText <;> exact inFragment
  have further : opcode = .cont := by
    cases opcode with
    | cont => rfl
    | text => rw [opens (.inl rfl)] at before; cases before
    | binary => rw [opens (.inr rfl)] at before; cases before
    | _ => cases data
  subst further
  obtain ⟨earlier, offset⟩ := fragments.offset before
  exact ⟨earlier, checked_offset (offset.taken true payload) isText _⟩

lemma updateFragment_closed (msgStart : Nat) : (updateFragment ws opcode true msgStart).inFragment = false := by
  unfold updateFragment
  split <;> rfl

lemma updateFragment_log (msgStart : Nat) : (updateFragment ws opcode fin msgStart).log = ws.log := by
  unfold updateFragment
  split <;> rfl

lemma DataOutcome.fragments (outcome : DataOutcome stray ws opcode payload fin result) (fragments : Fragments ws)
    (continues : opcode = .cont → ws.inFragment = true)
    (opens : opcode = .text ∨ opcode = .binary → ws.inFragment = false) (data : opcode.isData = true) :
    match result with | .ok after => Fragments after | .error (after, _) => Fragments after := by
  cases outcome with
  | tooLong exceeds => exact fragments.frame rfl rfl rfl (.inl rfl)
  | invalid text bad => exact fragments.refused continues opens data true
  | noRoom good exceeds => exact fragments.refused continues opens data _
  | finished good fits =>
    refine ⟨fun inFragment => ?_, ?_⟩
    · rw [updateFragment_closed] at inFragment
      cases inFragment
    · rw [updateFragment_log]
      exact fragments.checkedJudged continues _
  | part fits =>
    refine ⟨fun _ => ?_, by rw [updateFragment_log]; exact fragments.takenJudged⟩
    by_cases further : opcode = .cont
    · subst further
      obtain ⟨earlier, offset⟩ := fragments.offset (continues rfl)
      exact ⟨earlier, offset.taken false payload⟩
    · have first : opcode = .text ∨ opcode = .binary := by
        cases opcode with
        | cont => exact absurd rfl further
        | text => exact .inl rfl
        | binary => exact .inr rfl
        | _ => cases data
      refine ⟨ws.undelivered, .opened ws further false payload ?_ ?_ ?_⟩
      · rw [updateFragment, if_pos first]
        rfl
      · rw [updateFragment, if_pos first]
        exact if_neg further
      · rw [updateFragment, if_pos first]
        rfl

lemma wsParsePass_fragments (fragments : Fragments ws) : Fragments (wsParsePass stray ws).state := by
  have outcome := wsParsePass_outcome stray ws
  generalize wsParsePass stray ws = pass at outcome ⊢
  cases outcome with
  | waits scan => exact fragments
  | refuses scan => exact fragments.writeClose _
  | pings scan => exact ((fragments.unmasked _ _).writeFrame _ _).consume _
  | pongs scan => exact (fragments.unmasked _ _).consume _
  | closes scan => exact ((fragments.unmasked _ _).writeClose _).consume _
  | unknown scan => exact (fragments.unmasked _ _).writeClose _
  | breaks scan data outcome =>
    have bounds := wsFrame_bounds scan
    have after := outcome.fragments (fragments.unmasked _ _) bounds.continues bounds.opens data
    exact Fragments.writeClose after _
  | takes scan data outcome =>
    have bounds := wsFrame_bounds scan
    have after := outcome.fragments (fragments.unmasked _ _) bounds.continues bounds.opens data
    exact Fragments.consume after _

end

def Fde.Settled (F : Fde) : Prop :=
  match F.ws with
  | some ws => F.past = [] ∧ Fragments ws
  | none => Judged F.past

lemma fdeKeyed_settled (ssl : Bool) (early : List UInt8) : (fdeKeyed ssl early).Settled := by
  refine ⟨rfl, ⟨(fun isOpen => nomatch isOpen), fun before msgStart decoded after split => ?_⟩⟩
  have size : 0 = (before ++ .validated msgStart decoded :: after).length := congrArg List.length split
  rw [length_append, length_cons] at size
  omega

lemma Fde.Settled.parts {F : Fde} {ws : WsState} (settled : F.Settled) (known : F.ws = some ws) :
    F.past = [] ∧ Fragments ws := by
  unfold Fde.Settled at settled
  rw [known] at settled
  exact settled

lemma Fde.Settled.judged {F : Fde} (settled : F.Settled) : Judged F.events := by
  rw [Fde.events]
  cases known : F.ws with
  | none =>
    unfold Fde.Settled at settled
    rw [known] at settled
    exact settled
  | some ws =>
    obtain ⟨past, fragments⟩ := settled.parts known
    rw [past]
    exact fragments.judged

section

variable (stray : WsState → Bool) {F : Fde}

lemma fdeParse_fragments (fragments : Fragments ws) (bytes : List UInt8) (sock : SockResult) :
    Fragments (fdeParse stray F ws bytes sock).2.1 := by
  have grown : Fragments { ws with inbuf := ws.inbuf ++ bytes } := fragments.frame rfl rfl rfl (.inl rfl)
  exact (wsParseLoop_preserves stray (fun _ => wsParsePass_fragments) _ grown).flush F.ssl sock

variable (settled : F.Settled)

include settled

lemma opWsWrite_settled (buf : List UInt8) (sock : SockResult) : (opWsWrite F buf sock).1.Settled := by
  have flushed {ws : WsState} (past : F.past = []) (fragments : Fragments ws) :
      (opWsWriteFlush F ws buf.length sock).1.Settled := by
    have after : ({ F with ws := some (wsFlush F.ssl ws sock).1, wire := F.wire ++ (wsFlush F.ssl ws sock).2.1 } :
        Fde).Settled := ⟨past, fragments.flush F.ssl sock⟩
    unfold opWsWriteFlush
    dsimp only
    split
    · exact after
    · split <;> exact after
  unfold opWsWrite
  split
  · exact settled
  · split
    · exact settled
    · cases known : F.ws with
      | none => exact settled
      | some ws =>
        obtain ⟨past, fragments⟩ := settled.parts known
        dsimp only
        split
        · exact settled
        · split
          · exact flushed past fragments
          · exact flushed past (fragments.writeFrame textByte buf)

lemma opWsRead_settled (count : Nat) (recv : RecvResult) (sock : SockResult) :
    (opWsRead stray F count recv sock).1.Settled := by
  have parts {ws : WsState} (known : F.ws = some ws) := settled.parts known
  have outcome := opWsRead_outcome stray F count recv sock
  generalize opWsRead stray F count recv sock = result at outcome ⊢
  cases outcome with
  | zero | unkeyed | blocked | failed | ended => exact settled
  | buffered known => exact ⟨(parts known).1, (parts known).2.deliver count⟩
  | torn known | nothing known => exact ⟨(parts known).1, fdeParse_fragments stray (parts known).2 _ sock⟩
  | fresh known => exact ⟨(parts known).1, (fdeParse_fragments stray (parts known).2 _ sock).deliver count⟩

lemma opWsShutdown_settled (sock : SockResult) : (opWsShutdown F sock).Settled := by
  unfold opWsShutdown
  cases known : F.ws with
  | none => exact settled
  | some ws =>
    obtain ⟨past, fragments⟩ := settled.parts known
    dsimp only
    split
    · rw [past]
      exact (fragments.writeClose wsCloseNormal).judged
    · rw [past]
      exact fragments.judged

lemma fdeStep_settled (action : WsAction) : (fdeStep stray F action).Settled := by
  cases action with
  | write buf sock => exact opWsWrite_settled settled buf sock
  | read count recv sock => exact opWsRead_settled stray settled count recv sock
  | shutdown sock => exact opWsShutdown_settled settled sock
  | parse bytes sock =>
    simp only [fdeStep]
    cases known : F.ws with
    | none => exact settled
    | some ws =>
      obtain ⟨past, fragments⟩ := settled.parts known
      exact ⟨past, fdeParse_fragments stray fragments bytes sock⟩

lemma run_settled (actions : List WsAction) : (actions.foldl (fdeStep stray) F).Settled := by
  induction actions generalizing F with
  | nil => exact settled
  | cons action rest ih => exact ih (fdeStep_settled stray settled action)

end

/-- A validation of a finished TEXT message covers just that message exactly if `op_ws_read` has returned no byte since
its first frame. -/
theorem validation_covers_message_iff (stray : WsState → Bool) (ssl : Bool) (early : List UInt8)
    (actions : List WsAction) (before after : List WsEvent) (msgStart : Nat) (decoded : List UInt8)
    (validation : (actions.foldl (fdeStep stray) (fdeKeyed ssl early)).events =
      before ++ .validated msgStart decoded :: after) :
    (msgStart ≤ decoded.length ∧ decoded.drop msgStart = messageOf before) ↔ deliveredSince before = [] :=
  (run_settled stray (fdeKeyed_settled ssl early) actions).judged before msgStart decoded after validation

def helloBytes : List UInt8 := [0x81, 0x85, 0, 0, 0, 0, 104, 101, 108, 108, 111]
def partBytes : List UInt8 := [0x01, 0x81, 0, 0, 0, 0, 97]
def lastBytes : List UInt8 := [0x80, 0x81, 0, 0, 0, 0, 98]

theorem validation_covers_message_iff_parts : (0 ≤ ([97, 98] : List UInt8).length ∧ ([97, 98] : List UInt8).drop 0 =
        messageOf [.accepted .text false [97], .accepted .cont true [98]]) ↔
      deliveredSince [.accepted .text false [97], .accepted .cont true [98]] = [] :=
  validation_covers_message_iff (fun _ => false) false [] [.parse (partBytes ++ lastBytes) .wouldBlock] _ [] 0
    [97, 98] (by decide)

/-- "hello" and "a" are read before "b": the validation of "ab" starts at offset 7 of a buffer with the one byte "b". -/
theorem validation_starts_behind_decoded :
    ([.read 100 (.got (helloBytes ++ partBytes)) .wouldBlock, .read 100 (.got lastBytes) .wouldBlock].foldl
        (fdeStep fun _ => false) (fdeKeyed false [])).events =
      [.accepted .text true [104, 101, 108, 108, 111], .validated 0 [104, 101, 108, 108, 111],
        .accepted .text false [97], .delivered [104, 101, 108, 108, 111, 13, 10, 97],
        .accepted .cont true [98], .validated 7 [98], .queued ⟨closeByte, [3, 239]⟩] ∧
      ¬ 7 ≤ ([98] : List UInt8).length := by
  decide

end LibOp.Websocket

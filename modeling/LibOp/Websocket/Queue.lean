import LibOp.Websocket.Endpoint
import LibOp.Websocket.Passes

namespace LibOp.Websocket

open List WsState

def queuedFrames (events : List WsEvent) : List OutFrame :=
  events.filterMap fun
    | .queued frame => some frame
    | _ => none

@[simp] lemma queuedFrames_append (first second : List WsEvent) :
    queuedFrames (first ++ second) = queuedFrames first ++ queuedFrames second :=
  filterMap_append

def OutFrame.isText (frame : OutFrame) : Bool := frame.firstByte == textByte

def OutFrame.isClose (frame : OutFrame) : Bool := frame.firstByte == closeByte

def closeFrame (code : Nat) : OutFrame := ⟨closeByte, [UInt8.ofNat (code >>> 8), UInt8.ofNat (code &&& 0xff)]⟩

/-- `after` comes from `ws` by the events, whose frames alone were put into `frame_out`. -/
structure Advances (ws after : WsState) (events : List WsEvent) : Prop where
  keyed : after.keyed = ws.keyed
  log : after.log = ws.log ++ events
  out : ws.frameOut.Valid → after.frameOut.Valid ∧
    after.frameOut.pending = ws.frameOut.pending ++ (queuedFrames events).flatMap (·.bytes)
  closes : after.sentClose = (ws.sentClose || (queuedFrames events).any (·.isClose))

variable {ws after : WsState} {events : List WsEvent}

lemma Advances.silent (keyed : after.keyed = ws.keyed) (log : after.log = ws.log ++ events)
    (out : after.frameOut = ws.frameOut) (closes : after.sentClose = ws.sentClose) (none : queuedFrames events = []) :
    Advances ws after events := by
  refine ⟨keyed, log, fun valid => ?_, ?_⟩
  · rw [out, none, flatMap_nil, append_nil]
    exact ⟨valid, rfl⟩
  · rw [closes, none, any_nil, Bool.or_false]

lemma Advances.trans {first second third : WsState} {before behind : List WsEvent}
    (one : Advances first second before) (two : Advances second third behind) :
    Advances first third (before ++ behind) := by
  refine ⟨two.keyed.trans one.keyed, ?_, fun valid => ?_, ?_⟩
  · rw [two.log, one.log, append_assoc]
  · obtain ⟨validSecond, pendingSecond⟩ := one.out valid
    obtain ⟨validThird, pendingThird⟩ := two.out validSecond
    refine ⟨validThird, ?_⟩
    rw [pendingThird, pendingSecond, queuedFrames_append, flatMap_append, append_assoc]
  · rw [two.closes, one.closes, queuedFrames_append, any_append, Bool.or_assoc]

lemma Advances.consume (advance : Advances ws after events) (n : Nat) : Advances ws (inbufConsume after n) events :=
  ⟨advance.keyed, advance.log, advance.out, advance.closes⟩

section

variable (ws : WsState)

lemma unmasked_advances (payload : List UInt8) (start : Nat) : Advances ws (ws.unmasked payload start) [] :=
  .silent rfl (append_nil _).symm rfl rfl rfl

lemma wsWriteFrameRaw_out {ws : WsState} (firstByte : UInt8) (payload : List UInt8) (valid : ws.frameOut.Valid) :
    (wsWriteFrameRaw ws firstByte payload).frameOut.Valid ∧ (wsWriteFrameRaw ws firstByte payload).frameOut.pending =
        ws.frameOut.pending ++ (⟨firstByte, payload⟩ : OutFrame).bytes := by
  obtain ⟨headerValid, headerPending⟩ := rawbufAppend_spec valid (⟨firstByte, payload⟩ : OutFrame).header
  by_cases empty : payload.length > 0
  · obtain ⟨allValid, allPending⟩ := rawbufAppend_spec headerValid payload
    rw [headerPending, append_assoc] at allPending
    simp only [wsWriteFrameRaw, record, if_pos empty]
    exact ⟨allValid, allPending⟩
  · have none : payload = [] := eq_nil_of_length_eq_zero (by omega)
    simp only [wsWriteFrameRaw, record, if_neg empty]
    refine ⟨headerValid, headerPending.trans ?_⟩
    rw [OutFrame.bytes, none, append_nil]

lemma wsWriteFrameRaw_advances {firstByte : UInt8} (notClose : firstByte ≠ closeByte)
    (payload : List UInt8) : Advances ws (wsWriteFrameRaw ws firstByte payload) [.queued ⟨firstByte, payload⟩] := by
  refine ⟨rfl, rfl, fun valid => ?_, ?_⟩
  · have out := wsWriteFrameRaw_out firstByte payload valid
    rw [show queuedFrames [.queued ⟨firstByte, payload⟩] = [⟨firstByte, payload⟩] from rfl, flatMap_singleton]
    exact out
  · have differs := beq_eq_false_iff_ne.mpr notClose
    simp [queuedFrames, OutFrame.isClose, differs, wsWriteFrameRaw, record]

lemma wsWriteCloseFrame_advances (code : Nat) :
    Advances ws (wsWriteCloseFrame ws code) (if ws.sentClose then [] else [.queued (closeFrame code)]) := by
  cases sent : ws.sentClose with
  | true =>
    rw [wsWriteCloseFrame, if_pos sent]
    exact .silent rfl (append_nil _).symm rfl rfl rfl
  | false =>
    rw [wsWriteCloseFrame, if_neg (by rw [sent]; exact Bool.false_ne_true)]
    refine ⟨rfl, rfl, fun valid => ?_, ?_⟩
    · have out := wsWriteFrameRaw_out closeByte [UInt8.ofNat (code >>> 8), UInt8.ofNat (code &&& 0xff)] valid
      exact out
    · rw [sent]
      rfl

lemma updateFragment_advances (op : Opcode) (fin : Bool) (msgStart : Nat) :
    Advances ws (updateFragment ws op fin msgStart) [] := by
  unfold updateFragment
  split <;> exact .silent rfl (append_nil _).symm rfl rfl rfl

lemma taken_advances (op : Opcode) (fin : Bool) (payload : List UInt8) :
    Advances ws (ws.taken op fin payload) [.accepted op fin payload] :=
  .silent rfl rfl rfl rfl rfl

lemma checked_advances (isText : Bool) (msgStart : Nat) :
    ∃ events, Advances ws (ws.checked isText msgStart) events ∧ queuedFrames events = [] := by
  cases isText with
  | false => exact ⟨[], .silent rfl (append_nil _).symm rfl rfl rfl, rfl⟩
  | true => exact ⟨[.validated msgStart ws.decoded], .silent rfl rfl rfl rfl rfl, rfl⟩

lemma holding_advances (bytes : List UInt8) : Advances ws (ws.holding bytes) [] :=
  .silent rfl (append_nil _).symm rfl rfl rfl

end

def resultState : Except (WsState × Nat) WsState → WsState
  | .ok after => after
  | .error (after, _) => after

section

variable {stray : WsState → Bool}

lemma DataOutcome.advances {ws : WsState} {op : Opcode} {payload : List UInt8} {fin : Bool}
    {result : Except (WsState × Nat) WsState} (outcome : DataOutcome stray ws op payload fin result) :
    ∃ events, Advances ws (resultState result) events ∧ queuedFrames events = [] := by
  cases outcome with
  | tooLong exceeds => exact ⟨[], holding_advances ws ws.undelivered, rfl⟩
  | part fits => exact ⟨_, (taken_advances ws op false payload).trans (updateFragment_advances _ _ _ _), rfl⟩
  | invalid text bad =>
    obtain ⟨events, check, none⟩ := checked_advances (ws.taken op true payload) true (ws.msgStart op)
    refine ⟨_, (taken_advances ws op true payload).trans check, ?_⟩
    rw [queuedFrames_append, none]
    rfl
  | noRoom good exceeds =>
    obtain ⟨events, check, none⟩ := checked_advances (ws.taken op true payload) (ws.isText op)
      (ws.msgStart op)
    refine ⟨_, (taken_advances ws op true payload).trans check, ?_⟩
    rw [queuedFrames_append, none]
    rfl
  | finished good fits =>
    obtain ⟨events, check, none⟩ := checked_advances (ws.taken op true payload) (ws.isText op)
      (ws.msgStart op)
    refine ⟨_, (((taken_advances ws op true payload).trans check).trans (holding_advances _ _)).trans
      (updateFragment_advances _ _ _ _), ?_⟩
    simp only [queuedFrames_append, none]
    rfl

/-- At most one frame: a PONG for a PING, or the CLOSE frame. -/
inductive PassQueues (ws : WsState) : List OutFrame → Prop where
  | nothing (quiet : ∀ fin payload start, wsFrame ws.inFragment ws.inbuf ≠ .frame fin .ping payload start) :
      PassQueues ws []
  | pong {fin : Bool} {payload : List UInt8} {start : Nat}
      (scan : wsFrame ws.inFragment ws.inbuf = .frame fin .ping payload start) :
      PassQueues ws [⟨pongByte, payload⟩]
  | close (code : Nat) (first : ws.sentClose = false)
      (quiet : ∀ fin payload start, wsFrame ws.inFragment ws.inbuf ≠ .frame fin .ping payload start) :
      PassQueues ws [closeFrame code]

variable {ws middle : WsState}

lemma close_advances {events : List WsEvent} (advance : Advances ws middle events) (none : queuedFrames events = [])
    (quiet : ∀ fin payload start, wsFrame ws.inFragment ws.inbuf ≠ .frame fin .ping payload start) (code : Nat) :
    ∃ events, Advances ws (wsWriteCloseFrame middle code) events ∧ PassQueues ws (queuedFrames events) := by
  refine ⟨_, advance.trans (wsWriteCloseFrame_advances middle code), ?_⟩
  have same : middle.sentClose = ws.sentClose := by rw [advance.closes, none, any_nil, Bool.or_false]
  rw [queuedFrames_append, none, same]
  cases sent : ws.sentClose with
  | true => exact .nothing quiet
  | false => exact .close code sent quiet

lemma wsParsePass_advances (stray : WsState → Bool) (ws : WsState) :
    ∃ events, Advances ws (wsParsePass stray ws).state events ∧ PassQueues ws (queuedFrames events) := by
  -- Only the scan decides whether the frame is a PING.
  have quiet {scan : FrameScan} (same : wsFrame ws.inFragment ws.inbuf = scan)
      (other : ∀ fin payload start, scan ≠ .frame fin .ping payload start) :
      ∀ fin payload start, wsFrame ws.inFragment ws.inbuf ≠ .frame fin .ping payload start :=
    fun fin payload start isPing => other fin payload start (same.symm.trans isPing)
  have notPing {op : Opcode} {fin : Bool} {payload : List UInt8} {start : Nat} (data : op.isData = true) :
      ∀ fin' payload' start', FrameScan.frame fin op payload start ≠ .frame fin' .ping payload' start' := by
    intro fin' payload' start' same
    injection same with _ isPing
    rw [isPing] at data
    cases data
  have stays : Advances ws ws [] := .silent rfl (append_nil _).symm rfl rfl rfl
  have outcome := wsParsePass_outcome stray ws
  generalize wsParsePass stray ws = pass at outcome ⊢
  cases outcome with
  | waits scan => exact ⟨[], stays, .nothing (quiet scan (by simp))⟩
  | refuses scan => exact close_advances stays rfl (quiet scan (by simp)) _
  | pings scan =>
    exact ⟨_, ((unmasked_advances ws _ _).trans (wsWriteFrameRaw_advances _ (by decide) _)).consume _, .pong scan⟩
  | pongs scan => exact ⟨[], (unmasked_advances ws _ _).consume _, .nothing (quiet scan (by simp))⟩
  | closes scan =>
    obtain ⟨events, advance, queues⟩ :=
      close_advances (unmasked_advances ws _ _) rfl (quiet scan (by simp)) _
    exact ⟨events, advance.consume _, queues⟩
  | unknown scan => exact close_advances (unmasked_advances ws _ _) rfl (quiet scan (by simp)) _
  | breaks scan data outcome =>
    obtain ⟨events, advance, none⟩ := outcome.advances
    exact close_advances ((unmasked_advances ws _ _).trans advance) none (quiet scan (notPing data)) _
  | takes scan data outcome =>
    obtain ⟨events, advance, none⟩ := outcome.advances
    refine ⟨_, ((unmasked_advances ws _ _).trans advance).consume _, ?_⟩
    rw [nil_append, none]
    exact .nothing (quiet scan (notPing data))

lemma PassQueues.answer {ws : WsState} {frames : List OutFrame} (queues : PassQueues ws frames) :
    ∀ frame ∈ frames, frame.isText = false ∧ frame.payload.length ≤ wsMaxMessageSize := by
  cases queues with
  | nothing => exact fun _ mem => absurd mem not_mem_nil
  | pong scan =>
    intro frame mem
    rw [List.mem_singleton.mp mem]
    exact ⟨rfl, (wsFrame_bounds scan).short⟩
  | close code =>
    intro frame mem
    rw [List.mem_singleton.mp mem]
    exact ⟨rfl, show 2 ≤ wsMaxMessageSize by decide⟩

lemma wsParseLoop_advances (stray : WsState → Bool) (rounds : Nat) (ws : WsState) :
    ∃ events, Advances ws (wsParseLoop stray rounds ws).1 events ∧
      ∀ frame ∈ queuedFrames events, frame.isText = false ∧ frame.payload.length ≤ wsMaxMessageSize := by
  have stays : Advances ws ws [] := .silent rfl (append_nil _).symm rfl rfl rfl
  refine wsParseLoop_preserves stray (P := fun after => ∃ events, Advances ws after events ∧
    ∀ frame ∈ queuedFrames events, frame.isText = false ∧ frame.payload.length ≤ wsMaxMessageSize) ?_ rounds
    ⟨[], stays, fun _ mem => absurd mem not_mem_nil⟩
  rintro middle ⟨events, advance, answers⟩
  obtain ⟨more, pass, queues⟩ := wsParsePass_advances stray middle
  refine ⟨_, advance.trans pass, fun frame mem => ?_⟩
  rw [queuedFrames_append] at mem
  exact (List.mem_append.mp mem).elim (answers frame) (queues.answer frame)

end

/-- The bytes sent and waiting are the queued frames, in order. -/
structure Streams (wire : List UInt8) (ws : WsState) : Prop where
  valid : ws.frameOut.Valid
  bytes : wire ++ ws.frameOut.pending = (queuedFrames ws.log).flatMap (·.bytes)
  short : ∀ frame ∈ queuedFrames ws.log, frame.payload.length ≤ wsMaxMessageSize

variable {wire : List UInt8}

lemma Streams.advance (streams : Streams wire ws) (advance : Advances ws after events)
    (short : ∀ frame ∈ queuedFrames events, frame.payload.length ≤ wsMaxMessageSize) : Streams wire after := by
  obtain ⟨valid, pending⟩ := advance.out streams.valid
  refine ⟨valid, ?_, fun frame mem => ?_⟩
  · rw [pending, ← append_assoc, streams.bytes, advance.log, queuedFrames_append, flatMap_append]
  · rw [advance.log, queuedFrames_append] at mem
    exact (List.mem_append.mp mem).elim (streams.short frame) (short frame)

lemma Streams.flush {ws : WsState} (streams : Streams wire ws) (ssl : Bool) (sock : SockResult) :
    Streams (wire ++ (wsFlush ssl ws sock).2.1) (wsFlush ssl ws sock).1 := by
  obtain ⟨valid, pending⟩ := rawbufFlush_spec streams.valid ssl sock
  refine ⟨valid, ?_, streams.short⟩
  rw [append_assoc]
  exact (congrArg (wire ++ ·) pending).trans streams.bytes

lemma Streams.frames {ws : WsState} (streams : Streams wire ws) :
    framesOf (wire ++ ws.frameOut.pending) = queuedFrames ws.log := by
  rw [streams.bytes]
  apply readFrames_bytes _ (Nat.le_refl _)
  intro frame mem
  have short := streams.short frame mem
  rw [wsMaxMessageSize] at short
  omega

structure Serves (F F' : Fde) (ws after : WsState) (events : List WsEvent) : Prop where
  state : F'.ws = some after
  past : F'.past = F.past
  keyed : after.keyed = ws.keyed
  log : after.log = ws.log ++ events
  closes : after.sentClose = (ws.sentClose || (queuedFrames events).any (·.isClose))
  streams : Streams F.wire ws → (∀ frame ∈ queuedFrames events, frame.payload.length ≤ wsMaxMessageSize) →
    Streams F'.wire after

variable {F : Fde}

lemma Advances.serves (advance : Advances ws middle events) (sock : SockResult) :
    Serves F { F with ws := some (wsFlush F.ssl middle sock).1, wire := F.wire ++ (wsFlush F.ssl middle sock).2.1 }
      ws (wsFlush F.ssl middle sock).1 events :=
  ⟨rfl, rfl, advance.keyed, advance.log, advance.closes,
    fun streams short => (streams.advance advance short).flush F.ssl sock⟩

lemma Serves.refl {ws : WsState} (known : F.ws = some ws) : Serves F F ws ws [] :=
  ⟨known, rfl, rfl, (append_nil _).symm, (Bool.or_false _).symm, fun streams _ => streams⟩

lemma Serves.deliver (serves : Serves F F' ws after events) (count : Nat) :
    Serves F { F' with ws := some (wsDeliver after count).1 } ws (wsDeliver after count).1
      (events ++ [.delivered (wsDeliver after count).2]) := by
  have same : queuedFrames (events ++ [.delivered (wsDeliver after count).2]) = queuedFrames events := by
    rw [queuedFrames_append]
    exact append_nil _
  refine ⟨rfl, serves.past, serves.keyed, ?_, ?_, fun streams short => ?_⟩
  · rw [← append_assoc, ← serves.log]
    rfl
  · rw [same]
    exact serves.closes
  · rw [same] at short
    have before := serves.streams streams short
    have log : queuedFrames (wsDeliver after count).1.log = queuedFrames after.log := by
      simp only [wsDeliver, record, queuedFrames_append]
      exact append_nil _
    refine ⟨before.valid, ?_, ?_⟩
    · rw [log]
      exact before.bytes
    · rw [log]
      exact before.short

section

variable (stray : WsState → Bool)

lemma fdeParse_serves (F : Fde) (ws : WsState) (bytes : List UInt8) (sock : SockResult) :
    ∃ events, Serves F (fdeParse stray F ws bytes sock).1 ws (fdeParse stray F ws bytes sock).2.1 events ∧
      ∀ frame ∈ queuedFrames events, frame.isText = false ∧ frame.payload.length ≤ wsMaxMessageSize := by
  have longer : Advances ws { ws with inbuf := ws.inbuf ++ bytes } [] :=
    .silent rfl (append_nil _).symm rfl rfl rfl
  obtain ⟨events, advance, answers⟩ := wsParseLoop_advances stray (ws.inbuf ++ bytes).length
    { ws with inbuf := ws.inbuf ++ bytes }
  exact ⟨events, (longer.trans advance).serves sock, answers⟩

lemma opWsRead_serves {ws : WsState} (known : F.ws = some ws) (count : Nat) (recv : RecvResult) (sock : SockResult) :
    ∃ after events, Serves F (opWsRead stray F count recv sock).1 ws after events ∧
      ∀ frame ∈ queuedFrames events, frame.isText = false ∧ frame.payload.length ≤ wsMaxMessageSize := by
  have outcome := opWsRead_outcome stray F count recv sock
  generalize opWsRead stray F count recv sock = result at outcome ⊢
  have stays : ∃ after events, Serves F F ws after events ∧
      ∀ frame ∈ queuedFrames events, frame.isText = false ∧ frame.payload.length ≤ wsMaxMessageSize :=
    ⟨ws, [], .refl known, fun _ mem => absurd mem not_mem_nil⟩
  have only {other : WsState} (same : F.ws = some other) : other = ws := Option.some.inj (same.symm.trans known)
  cases outcome with
  | zero | unkeyed | blocked | failed | ended => exact stays
  | buffered same =>
    cases only same
    exact ⟨_, _, (Serves.refl known).deliver count, fun _ mem => absurd mem not_mem_nil⟩
  | torn same | nothing same =>
    cases only same
    obtain ⟨events, serves, answers⟩ := fdeParse_serves stray F ws _ sock
    exact ⟨_, events, serves, answers⟩
  | fresh same =>
    cases only same
    obtain ⟨events, serves, answers⟩ := fdeParse_serves stray F ws _ sock
    refine ⟨_, _, serves.deliver count, ?_⟩
    exact fun frame mem => answers frame (by simpa [queuedFrames] using mem)

end

lemma opWsWrite_serves {ws : WsState} (known : F.ws = some ws) (keyed : ws.keyed = true) {buf : List UInt8}
    (some_ : buf ≠ []) (short : buf.length ≤ wsMaxMessageSize) (sock : SockResult) :
    (∃ after events, Serves F (opWsWrite F buf sock).1 ws after events ∧
      queuedFrames events = if rawbufLength ws.frameOut > 0 then [] else [⟨textByte, buf⟩]) ∧
    ((opWsWrite F buf sock).2 = .ioError ∧ sock = .failed ∨ (opWsWrite F buf sock).2 = .needWrite ∨
      (opWsWrite F buf sock).2 = .returned buf.length) := by
  have flushed (middle : WsState) : (opWsWriteFlush F middle buf.length sock).1 =
        { F with ws := some (wsFlush F.ssl middle sock).1, wire := F.wire ++ (wsFlush F.ssl middle sock).2.1 } ∧
      ((opWsWriteFlush F middle buf.length sock).2 = .ioError ∧ sock = .failed ∨
        (opWsWriteFlush F middle buf.length sock).2 = .needWrite ∨
        (opWsWriteFlush F middle buf.length sock).2 = .returned buf.length) := by
    unfold opWsWriteFlush
    dsimp only
    split
    next failed => exact ⟨rfl, .inl ⟨rfl, rawbufFlush_error failed⟩⟩
    next =>
      split
      · exact ⟨rfl, .inr (.inl rfl)⟩
      · exact ⟨rfl, .inr (.inr rfl)⟩
  have open_ : ¬ (!ws.keyed) = true := by rw [keyed]; decide
  rw [opWsWrite, if_neg fun none => some_ (eq_nil_of_length_eq_zero none), if_neg (Nat.not_lt.mpr short), known]
  dsimp only
  rw [if_neg open_]
  split
  next waiting =>
    obtain ⟨state, result⟩ := flushed ws
    rw [state]
    have stays : Advances ws ws [] := .silent rfl (append_nil _).symm rfl rfl rfl
    exact ⟨⟨_, _, stays.serves sock, rfl⟩, result⟩
  next =>
    obtain ⟨state, result⟩ := flushed (wsQueueTextFrame ws buf)
    rw [state]
    exact ⟨⟨_, _, (wsWriteFrameRaw_advances ws (by decide) buf).serves sock, rfl⟩, result⟩

end LibOp.Websocket

import LibOp.Websocket.State

namespace LibOp.Websocket

/-- What `ws_fd_recv` returns; no bytes mean a closed connection. -/
inductive RecvResult where
  | got (bytes : List UInt8)
  | wouldBlock
  | failed
deriving DecidableEq

def RecvResult.bytes : RecvResult → List UInt8
  | .got bytes => bytes
  | _ => []

inductive ReadResult where
  | returned (bytes : List UInt8)
  | again
  | error
deriving DecidableEq

inductive WriteResult where
  | returned (n : Nat)
  | needWrite
  | ioError
deriving DecidableEq

/-- `wire` are the bytes that have left through the socket, `past` the events of a freed state. -/
structure Fde where
  ssl : Bool
  ws : Option WsState
  wire : List UInt8
  past : List WsEvent
deriving DecidableEq

/-- A connection after its handshake; `early` came behind the headers. -/
def fdeKeyed (ssl : Bool) (early : List UInt8) : Fde :=
  ⟨ssl, some { wsAlloc with keyed := true, inbuf := early }, [], []⟩

def Fde.events (F : Fde) : List WsEvent :=
  match F.ws with
  | some ws => F.past ++ ws.log
  | none => F.past

def wsFlush (ssl : Bool) (ws : WsState) (sock : SockResult) : WsState × List UInt8 × FlushResult :=
  let (out, sent, result) := rawbufFlush ws.frameOut ssl sock
  ({ ws with frameOut := out }, sent, result)

def wsDeliver (ws : WsState) (count : Nat) : WsState × List UInt8 :=
  let avail := ws.decoded.length - ws.decodedPos
  let n := min avail count
  let bytes := (ws.decoded.drop ws.decodedPos).take n
  ({ ws with decodedPos := ws.decodedPos + n }.record (.delivered bytes), bytes)

def opWsWriteFlush (F : Fde) (ws : WsState) (count : Nat) (sock : SockResult) : Fde × WriteResult :=
  let (ws, sent, result) := wsFlush F.ssl ws sock
  let F := { F with ws := some ws, wire := F.wire ++ sent }
  if result = .error then (F, .ioError)
  else if rawbufLength ws.frameOut > 0 then (F, .needWrite)
  else (F, .returned count)

def opWsWrite (F : Fde) (buf : List UInt8) (sock : SockResult) : Fde × WriteResult :=
  if buf.length = 0 then (F, .returned 0)
  else if buf.length > wsMaxMessageSize then (F, .ioError)
  else
    match F.ws with
    | none => (F, .returned 0)
    | some ws =>
      if !ws.keyed then (F, .returned 0)
      -- A frame that waits is taken for this buffer's, queued by an earlier call.
      else if rawbufLength ws.frameOut > 0 then opWsWriteFlush F ws buf.length sock
      else opWsWriteFlush F (wsQueueTextFrame ws buf) buf.length sock

def opWsShutdown (F : Fde) (sock : SockResult) : Fde :=
  match F.ws with
  | none => F
  | some ws =>
    if ws.keyed && !ws.sentClose then
      let (ws, sent, _) := wsFlush F.ssl (wsWriteCloseFrame ws wsCloseNormal) sock
      { F with ws := none, wire := F.wire ++ sent, past := F.past ++ ws.log }
    else { F with ws := none, past := F.past ++ ws.log }

variable (stray : WsState → Bool)

def wsParseFrames (ssl : Bool) (ws : WsState) (sock : SockResult) : WsState × List UInt8 × Bool :=
  let (ws, result) := wsParseLoop stray ws.inbuf.length ws
  let (ws, sent, _) := wsFlush ssl ws sock
  (ws, sent, result)

/-- `ws_parse_frames` on an input that has grown by `bytes`. -/
def fdeParse (F : Fde) (ws : WsState) (bytes : List UInt8) (sock : SockResult) : Fde × WsState × Bool :=
  let (ws, sent, result) := wsParseFrames stray F.ssl { ws with inbuf := ws.inbuf ++ bytes } sock
  ({ F with ws := some ws, wire := F.wire ++ sent }, ws, result)

def opWsRead (F : Fde) (count : Nat) (recv : RecvResult) (sock : SockResult) : Fde × ReadResult :=
  if count = 0 then (F, .returned [])
  else
    match F.ws with
    | none => (F, .again)
    | some ws =>
      if !ws.keyed then (F, .again)
      else if ws.decoded.length > ws.decodedPos then
        let (ws, bytes) := wsDeliver ws count
        ({ F with ws := some ws }, .returned bytes)
      else
        match recv with
        | .wouldBlock => (F, .again)
        | .failed => (F, .error)
        | .got bytes =>
          if bytes = [] then (F, .returned [])
          else
            let (F, ws, result) := fdeParse stray F ws bytes sock
            if !result then (F, .returned [])
            else if ws.decoded.length > ws.decodedPos then
              let (ws, bytes) := wsDeliver ws count
              ({ F with ws := some ws }, .returned bytes)
            else (F, .again)

lemma fdeParse_state (F : Fde) (ws : WsState) (bytes : List UInt8) (sock : SockResult) :
    (fdeParse stray F ws bytes sock).1.ws = some (fdeParse stray F ws bytes sock).2.1 := rfl

inductive ReadOutcome (F : Fde) (count : Nat) (recv : RecvResult) (sock : SockResult) :
    Fde × ReadResult → Prop where
  | zero (none : count = 0) : ReadOutcome F count recv sock (F, .returned [])
  | unkeyed (closed : ∀ ws, F.ws = some ws → ws.keyed = false) : ReadOutcome F count recv sock (F, .again)
  | buffered {ws : WsState} (known : F.ws = some ws) (asked : 0 < count ∧ ws.keyed = true)
      (left : ws.decodedPos < ws.decoded.length) :
      ReadOutcome F count recv sock ({ F with ws := some (wsDeliver ws count).1 }, .returned (wsDeliver ws count).2)
  | blocked {ws : WsState} (known : F.ws = some ws) (drained : ws.decoded.length ≤ ws.decodedPos)
      (answer : recv = .wouldBlock) : ReadOutcome F count recv sock (F, .again)
  | failed {ws : WsState} (known : F.ws = some ws) (answer : recv = .failed) :
      ReadOutcome F count recv sock (F, .error)
  | ended {ws : WsState} (known : F.ws = some ws) (drained : ws.decoded.length ≤ ws.decodedPos)
      (answer : recv = .got []) : ReadOutcome F count recv sock (F, .returned [])
  | torn {ws : WsState} {bytes : List UInt8} (known : F.ws = some ws) (asked : 0 < count ∧ ws.keyed = true)
      (drained : ws.decoded.length ≤ ws.decodedPos) (answer : recv = .got bytes) (some_ : bytes ≠ [])
      (result : (fdeParse stray F ws bytes sock).2.2 = false) :
      ReadOutcome F count recv sock ((fdeParse stray F ws bytes sock).1, .returned [])
  | fresh {ws : WsState} {bytes : List UInt8} (known : F.ws = some ws) (asked : 0 < count ∧ ws.keyed = true)
      (drained : ws.decoded.length ≤ ws.decodedPos) (answer : recv = .got bytes) (some_ : bytes ≠ [])
      (result : (fdeParse stray F ws bytes sock).2.2 = true)
      (left : (fdeParse stray F ws bytes sock).2.1.decodedPos < (fdeParse stray F ws bytes sock).2.1.decoded.length) :
      ReadOutcome F count recv sock
        ({ (fdeParse stray F ws bytes sock).1 with
            ws := some (wsDeliver (fdeParse stray F ws bytes sock).2.1 count).1 },
          .returned (wsDeliver (fdeParse stray F ws bytes sock).2.1 count).2)
  | nothing {ws : WsState} {bytes : List UInt8} (known : F.ws = some ws) (asked : 0 < count ∧ ws.keyed = true)
      (drained : ws.decoded.length ≤ ws.decodedPos) (answer : recv = .got bytes) (some_ : bytes ≠ [])
      (result : (fdeParse stray F ws bytes sock).2.2 = true)
      (empty : (fdeParse stray F ws bytes sock).2.1.decoded.length ≤ (fdeParse stray F ws bytes sock).2.1.decodedPos) :
      ReadOutcome F count recv sock ((fdeParse stray F ws bytes sock).1, .again)

lemma opWsRead_outcome (F : Fde) (count : Nat) (recv : RecvResult) (sock : SockResult) :
    ReadOutcome stray F count recv sock (opWsRead stray F count recv sock) := by
  unfold opWsRead
  by_cases zero : count = 0
  · rw [if_pos zero]
    exact .zero zero
  rw [if_neg zero]
  cases known : F.ws with
  | none => exact .unkeyed fun ws same => by rw [known] at same; cases same
  | some ws =>
    dsimp only
    by_cases unkeyed : (!ws.keyed) = true
    · rw [if_pos unkeyed]
      refine .unkeyed fun other same => ?_
      rw [known] at same
      cases same
      simpa using unkeyed
    rw [if_neg unkeyed]
    have asked : 0 < count ∧ ws.keyed = true := ⟨Nat.pos_of_ne_zero zero, by simpa using unkeyed⟩
    by_cases left : ws.decoded.length > ws.decodedPos
    · rw [if_pos left]
      exact .buffered known asked left
    rw [if_neg left]
    have drained := Nat.le_of_not_lt left
    cases answer : recv with
    | wouldBlock => exact .blocked known drained rfl
    | failed => exact .failed known rfl
    | got bytes =>
      dsimp only
      by_cases closed : bytes = []
      · rw [if_pos closed, closed]
        exact .ended known drained rfl
      rw [if_neg closed]
      cases result : (fdeParse stray F ws bytes sock).2.2 with
      | false => exact .torn known asked drained rfl closed result
      | true =>
        by_cases new : (fdeParse stray F ws bytes sock).2.1.decoded.length >
            (fdeParse stray F ws bytes sock).2.1.decodedPos
        · rw [if_neg (by simp), if_pos new]
          exact .fresh known asked drained rfl closed result new
        · rw [if_neg (by simp), if_neg new]
          exact .nothing known asked drained rfl closed result (Nat.le_of_not_lt new)

inductive WsAction where
  | write (buf : List UInt8) (sock : SockResult)
  /-- More input, and `ws_parse_frames` on it. -/
  | parse (bytes : List UInt8) (sock : SockResult)
  | read (count : Nat) (recv : RecvResult) (sock : SockResult)
  | shutdown (sock : SockResult)
deriving DecidableEq

def fdeStep (F : Fde) : WsAction → Fde
  | .write buf sock => (opWsWrite F buf sock).1
  | .parse bytes sock =>
    match F.ws with
    | none => F
    | some ws => (fdeParse stray F ws bytes sock).1
  | .read count recv sock => (opWsRead stray F count recv sock).1
  | .shutdown sock => opWsShutdown F sock

lemma fdeStep_freed (freed : F.ws = none) (action : WsAction) : fdeStep stray F action = F := by
  cases action with
  | write buf sock =>
    simp only [fdeStep, opWsWrite, freed]
    split
    · rfl
    · split <;> rfl
  | parse bytes sock => simp only [fdeStep, freed]
  | read count recv sock =>
    simp only [fdeStep, opWsRead, freed]
    split <;> rfl
  | shutdown sock => simp only [fdeStep, opWsShutdown, freed]

end LibOp.Websocket

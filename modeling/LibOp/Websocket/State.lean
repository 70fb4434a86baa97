import LibOp.Websocket.Frames
import LibOp.Websocket.Rawbuf

namespace LibOp.Websocket

open Foundation

def wsMaxMessageSize : Nat := 64 * 1024
def wsMaxFrameSize : Nat := wsMaxMessageSize

def wsCloseNormal : Nat := 1000
def wsCloseProtocolError : Nat := 1002
def wsCloseInvalidUtf8 : Nat := 1007
def wsCloseTooLarge : Nat := 1009

inductive Opcode where
  | cont
  | text
  | binary
  | close
  | ping
  | pong
  | reserved (bits : Nat)
deriving DecidableEq

def Opcode.ofBits : Nat → Opcode
  | 0x0 => .cont
  | 0x1 => .text
  | 0x2 => .binary
  | 0x8 => .close
  | 0x9 => .ping
  | 0xA => .pong
  | bits => .reserved bits

inductive WsEvent where
  /-- `ws_write_frame_raw` put a frame into `frame_out`. -/
  | queued (frame : OutFrame)
  /-- The payload of a data frame went into `decoded`. -/
  | accepted (opcode : Opcode) (fin : Bool) (payload : List UInt8)
  /-- `ws_is_valid_utf8` was called on `decoded` from `msg_start` on. -/
  | validated (msgStart : Nat) (decoded : List UInt8)
  /-- `op_ws_read` returned decoded bytes. -/
  | delivered (bytes : List UInt8)
deriving DecidableEq

/-- `ws_state_t`, each buffer up to its length. `log` is not in the source: it records the events. -/
structure WsState where
  inbuf : List UInt8
  frameOut : RawbufHead
  decoded : List UInt8
  decodedPos : Nat
  keyed : Bool
  sentClose : Bool
  inFragment : Bool
  fragmentOpcode : Opcode
  fragmentStart : Nat
  log : List WsEvent
deriving DecidableEq

def wsAlloc : WsState := ⟨[], newRawbuffer, [], 0, false, false, false, .cont, 0, []⟩

def WsState.record (ws : WsState) (event : WsEvent) : WsState := { ws with log := ws.log ++ [event] }

def inbufConsume (ws : WsState) (n : Nat) : WsState := { ws with inbuf := ws.inbuf.drop n }

def decodedCompact (ws : WsState) : WsState :=
  if ws.decodedPos > 0 then { ws with decoded := ws.decoded.drop ws.decodedPos, decodedPos := 0 } else ws

def decodedAppend (ws : WsState) (data : List UInt8) : Option WsState :=
  let ws := decodedCompact ws
  if ws.decoded.length + data.length > wsMaxMessageSize then none
  else some { ws with decoded := ws.decoded ++ data }

def wsWriteFrameRaw (ws : WsState) (firstByte : UInt8) (payload : List UInt8) : WsState :=
  let frame : OutFrame := ⟨firstByte, payload⟩
  let out := rawbufAppend ws.frameOut frame.header
  let out := if payload.length > 0 then rawbufAppend out payload else out
  { ws with frameOut := out }.record (.queued frame)

def textByte : UInt8 := 0x1 ||| 0x80
def closeByte : UInt8 := 0x8 ||| 0x80
def pongByte : UInt8 := 0xA ||| 0x80

def wsWriteCloseFrame (ws : WsState) (code : Nat) : WsState :=
  if ws.sentClose then ws
  else { wsWriteFrameRaw ws closeByte [UInt8.ofNat (code >>> 8), UInt8.ofNat (code &&& 0xff)] with
    sentClose := true }

def wsQueueTextFrame (ws : WsState) (data : List UInt8) : WsState := wsWriteFrameRaw ws textByte data

def isContinuation (byte : UInt8) : Bool := byte &&& 0xC0 == 0x80

def wsIsValidUtf8 : List UInt8 → Bool
  | [] => true
  | c :: rest =>
    if c < 0x80 then wsIsValidUtf8 rest
    else if c < 0xC2 then false
    else if c < 0xE0 then
      match rest with
      | b₁ :: rest => isContinuation b₁ && c &&& 0x1E != 0 && wsIsValidUtf8 rest
      | _ => false
    else if c < 0xF0 then
      match rest with
      | b₁ :: b₂ :: rest =>
        let cp := (c.toNat &&& 0x0F) <<< 12 ||| (b₁.toNat &&& 0x3F) <<< 6 ||| (b₂.toNat &&& 0x3F)
        isContinuation b₁ && isContinuation b₂ && !decide (cp < 0x800) &&
          !decide (0xD800 ≤ cp ∧ cp ≤ 0xDFFF) && wsIsValidUtf8 rest
      | _ => false
    else if c < 0xF5 then
      match rest with
      | b₁ :: b₂ :: b₃ :: rest =>
        let cp := (c.toNat &&& 0x07) <<< 18 ||| (b₁.toNat &&& 0x3F) <<< 12 |||
          (b₂.toNat &&& 0x3F) <<< 6 ||| (b₃.toNat &&& 0x3F)
        isContinuation b₁ && isContinuation b₂ && isContinuation b₃ &&
          !decide (cp < 0x10000 ∨ cp > 0x10FFFF) && wsIsValidUtf8 rest
      | _ => false
    else false

inductive LengthScan where
  | incomplete
  | tooLarge
  | known (payloadLen width : Nat)

/-- The low seven bits of the second byte, and the bytes behind it. -/
def wsPayloadLen (bits : Nat) (body : List UInt8) : LengthScan :=
  if bits = 126 then
    if body.length < 2 then .incomplete else .known (bigEndian (body.take 2)) 2
  else if bits = 127 then
    if body.length < 8 then .incomplete
    else
      let v := bigEndian (body.take 8)
      if v &&& 0x8000000000000000 ≠ 0 ∨ v > wsMaxFrameSize then .tooLarge else .known v 8
  else .known bits 0

def unmask (maskKey payload : List UInt8) : List UInt8 :=
  payload.mapIdx fun i byte => byte ^^^ maskKey.getD (i &&& 3) 0

/-- A pass of `ws_parse_frames` needs more bytes, refuses the frame with a close code, or has a frame whose payload
starts at `start`. -/
inductive FrameScan where
  | incomplete
  | reject (code : Nat)
  | frame (fin : Bool) (opcode : Opcode) (payload : List UInt8) (start : Nat)
deriving DecidableEq

/-- The checks behind the length; `body` starts with the masking key. -/
def wsFrameBody (inFragment fin masked : Bool) (bits payloadLen consumed : Nat) (body : List UInt8) : FrameScan :=
  let opcode := Opcode.ofBits bits
  if !masked then .reject wsCloseProtocolError
  else if bits ≥ 0x8 ∧ (!fin ∨ payloadLen > 125) then .reject wsCloseProtocolError
  else if (opcode = .text ∨ opcode = .binary) ∧ inFragment then .reject wsCloseProtocolError
  else if opcode = .cont ∧ !inFragment then .reject wsCloseProtocolError
  else if body.length < 4 then .incomplete
  else if body.length < 4 + payloadLen then .incomplete
  else if payloadLen > wsMaxFrameSize then .reject wsCloseTooLarge
  else .frame fin opcode (unmask (body.take 4) ((body.drop 4).take payloadLen)) (consumed + 4)

def wsFrame (inFragment : Bool) (inbuf : List UInt8) : FrameScan :=
  match inbuf with
  | first :: second :: body =>
    let fin := decide (first.toNat >>> 7 &&& 1 = 1)
    let masked := decide (second.toNat >>> 7 &&& 1 = 1)
    let bits := first.toNat &&& 0x0f
    let rsv := first.toNat >>> 4 &&& 0x7
    if rsv ≠ 0 then .reject wsCloseProtocolError
    else
      match wsPayloadLen (second.toNat &&& 0x7f) body with
      | .incomplete => .incomplete
      | .tooLarge => .reject wsCloseTooLarge
      | .known payloadLen width => wsFrameBody inFragment fin masked bits payloadLen (2 + width) (body.drop width)
  | _ => .incomplete

def crlf : List UInt8 := [0x0D, 0x0A]

-- What `ws_is_valid_utf8` answers when `msg_start` lies behind the decoded bytes: the length it is
-- given wraps around, and it runs over memory that is no part of the message.
variable (stray : WsState → Bool)

def validates (ws : WsState) (msgStart : Nat) : Bool :=
  if msgStart ≤ ws.decoded.length then wsIsValidUtf8 (ws.decoded.drop msgStart) else stray ws

def takePayload (ws : WsState) (opcode : Opcode) (fin : Bool) (payload : List UInt8) :
    Except (WsState × Nat) WsState :=
  match if payload = [] then some ws else decodedAppend ws payload with
  | none => .error (ws, wsCloseTooLarge)
  | some ws => .ok (ws.record (.accepted opcode fin payload))

def finishMessage (ws : WsState) (isText : Bool) (msgStart : Nat) : Except (WsState × Nat) WsState :=
  let ws := if isText then ws.record (.validated msgStart ws.decoded) else ws
  if isText && !validates stray ws msgStart then .error (ws, wsCloseInvalidUtf8)
  else
    match decodedAppend ws crlf with
    | none => .error (ws, wsCloseTooLarge)
    | some ws => .ok ws

def updateFragment (ws : WsState) (opcode : Opcode) (fin : Bool) (msgStart : Nat) : WsState :=
  if opcode = .text ∨ opcode = .binary then
    { ws with fragmentOpcode := opcode, inFragment := !fin, fragmentStart := msgStart }
  else { ws with inFragment := !fin, fragmentStart := if fin then 0 else ws.fragmentStart }

/-- The cases `WS_OPCODE_TEXT`, `WS_OPCODE_BINARY` and `WS_OPCODE_CONT`. -/
def wsDataFrame (ws : WsState) (fin : Bool) (opcode : Opcode) (payload : List UInt8) :
    Except (WsState × Nat) WsState := do
  let ws := decodedCompact ws
  let msgStart := if opcode = .cont then ws.fragmentStart else ws.decoded.length
  let isText := decide (opcode = .text ∨ (opcode = .cont ∧ ws.fragmentOpcode = .text))
  let ws ← takePayload ws opcode fin payload
  let ws ← if fin then finishMessage stray ws isText msgStart else pure ws
  return updateFragment ws opcode fin msgStart

def echoCode (payload : List UInt8) : Nat :=
  match payload with
  | high :: low :: _ =>
    let code := high.toNat <<< 8 ||| low.toNat
    if code < 1000 ∨ code = 1004 ∨ code = 1005 ∨ code = 1006 ∨ (1012 ≤ code ∧ code ≤ 2999) ∨ code ≥ 5000 then
      wsCloseProtocolError
    else code
  | _ => wsCloseNormal

/-- The loop of `ws_parse_frames` is left, goes on, or the function returns false. The flush behind the first and the
last is in `wsParseFrames`. -/
inductive Pass where
  | leave (ws : WsState)
  | again (ws : WsState)
  | fail (ws : WsState)
deriving DecidableEq

def Pass.state : Pass → WsState
  | .leave ws | .again ws | .fail ws => ws

def wsParsePass (ws : WsState) : Pass :=
  match wsFrame ws.inFragment ws.inbuf with
  | .incomplete => .leave ws
  | .reject code => .fail (wsWriteCloseFrame ws code)
  | .frame fin opcode payload start =>
    let consumed := start + payload.length
    -- The payload is unmasked in place, and a frame that fails is not consumed.
    let ws := { ws with inbuf := ws.inbuf.take start ++ payload ++ ws.inbuf.drop consumed }
    match opcode with
    | .ping => .again (inbufConsume (wsWriteFrameRaw ws pongByte payload) consumed)
    | .pong => .again (inbufConsume ws consumed)
    | .close => .fail (inbufConsume (wsWriteCloseFrame ws (echoCode payload)) consumed)
    | .reserved _ => .fail (wsWriteCloseFrame ws wsCloseProtocolError)
    | data =>
      match wsDataFrame stray ws fin data payload with
      | .error (ws, code) => .fail (wsWriteCloseFrame ws code)
      | .ok ws => .again (inbufConsume ws consumed)

/-- The loop with the value that `ws_parse_frames` returns. A pass that goes on consumes input, so the bytes bound the
rounds. -/
def wsParseLoop : Nat → WsState → WsState × Bool
  | 0, ws => (ws, true)
  | rounds + 1, ws =>
    match wsParsePass stray ws with
    | .leave ws => (ws, true)
    | .again ws => wsParseLoop rounds ws
    | .fail ws => (ws, false)

end LibOp.Websocket

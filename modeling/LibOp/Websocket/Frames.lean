import LibOp.Foundation.Bytes

namespace LibOp.Websocket

open Foundation List UInt8

structure OutFrame where
  firstByte : UInt8
  payload : List UInt8
deriving DecidableEq

/-- The bytes `hdr[1]` onwards of `ws_write_frame_raw`. -/
def lengthBytes (len : Nat) : List UInt8 :=
  if len < 126 then [ofNat len]
  else if len ≤ 65535 then [126, ofNat (len >>> 8), ofNat (len &&& 0xff)]
  else [127, ofNat (len >>> 56), ofNat (len >>> 48), ofNat (len >>> 40),
    ofNat (len >>> 32), ofNat (len >>> 24), ofNat (len >>> 16),
    ofNat (len >>> 8), ofNat len]

def OutFrame.header (frame : OutFrame) : List UInt8 := frame.firstByte :: lengthBytes frame.payload.length

def OutFrame.bytes (frame : OutFrame) : List UInt8 := frame.header ++ frame.payload

/-! The peer's side: an unmasked frame is read back from its bytes. -/

def readLength : List UInt8 → Option (Nat × List UInt8)
  | [] => none
  | second :: rest =>
    if second.toNat < 126 then some (second.toNat, rest)
    else
      let width := if second.toNat = 126 then 2 else 8
      if rest.length < width then none else some (bigEndian (rest.take width), rest.drop width)

def readFrame : List UInt8 → Option (OutFrame × List UInt8)
  | [] => none
  | firstByte :: rest =>
    match readLength rest with
    | none => none
    | some (len, rest) =>
      if rest.length < len then none else some (⟨firstByte, rest.take len⟩, rest.drop len)

def readFrames : Nat → List UInt8 → List OutFrame
  | 0, _ => []
  | rounds + 1, stream =>
    match readFrame stream with
    | none => []
    | some (frame, rest) => frame :: readFrames rounds rest

def framesOf (stream : List UInt8) : List OutFrame := readFrames stream.length stream

variable {len : Nat}

lemma lengthBytes_medium (large : 126 ≤ len) (small : len ≤ 65535) : lengthBytes len = 126 :: bigEndianBytes 2 len := by
  have low : ofNat (len &&& 0xff) = ofNat len := by
    apply UInt8.toNat_inj.mp
    rw [UInt8.toNat_ofNat', UInt8.toNat_ofNat', Nat.and_two_pow_sub_one_eq_mod len 8, Nat.mod_mod]
  rw [lengthBytes, if_neg (by omega), if_pos small, low]
  rfl

lemma lengthBytes_large (large : 65535 < len) : lengthBytes len = 127 :: bigEndianBytes 8 len := by
  rw [lengthBytes, if_neg (by omega), if_neg (by omega)]
  rfl

lemma readLength_wide {width len : Nat} (rest : List UInt8)
    (wide : ¬ second.toNat < 126) (known : (if second.toNat = 126 then 2 else 8) = width) (fits : len < 256 ^ width) :
    readLength (second :: (bigEndianBytes width len ++ rest)) = some (len, rest) := by
  have size := bigEndianBytes_length width len
  rw [readLength, if_neg wide]
  rw [known, if_neg (by rw [length_append, size]; omega), take_left' size, drop_left' size,
    bigEndian_bigEndianBytes fits]

lemma readLength_lengthBytes (fits : len < 256 ^ 8) (rest : List UInt8) :
    readLength (lengthBytes len ++ rest) = some (len, rest) := by
  by_cases small : len < 126
  · have same : (ofNat len).toNat = len := by
      rw [toNat_ofNat']
      omega
    rw [lengthBytes, if_pos small, singleton_append, readLength, if_pos (by omega), same]
  · by_cases medium : len ≤ 65535
    · rw [lengthBytes_medium (by omega) medium]
      exact readLength_wide rest (by decide) rfl (by omega)
    · rw [lengthBytes_large (by omega)]
      exact readLength_wide rest (by decide) rfl fits

lemma readFrame_bytes {frame : OutFrame} (fits : frame.payload.length < 256 ^ 8) (rest : List UInt8) :
    readFrame (frame.bytes ++ rest) = some (frame, rest) := by
  rw [OutFrame.bytes, OutFrame.header, append_assoc, cons_append, readFrame, readLength_lengthBytes fits]
  dsimp only
  rw [if_neg (by rw [length_append]; omega), take_left' rfl, drop_left' rfl]

lemma OutFrame.bytes_pos (frame : OutFrame) : 0 < frame.bytes.length := Nat.succ_pos _

lemma readFrames_bytes {frames : List OutFrame} (fits : ∀ frame ∈ frames, frame.payload.length < 256 ^ 8)
    (enough : (frames.flatMap (·.bytes)).length ≤ rounds) : readFrames rounds (frames.flatMap (·.bytes)) = frames := by
  induction frames generalizing rounds with
  | nil => cases rounds <;> rfl
  | cons frame rest ih =>
    have pos := frame.bytes_pos
    rw [flatMap_cons, length_append] at enough
    obtain ⟨rounds, rfl⟩ := Nat.exists_eq_add_of_lt (show 0 < rounds by omega)
    rw [flatMap_cons, Nat.zero_add, readFrames, readFrame_bytes (fits frame mem_cons_self)]
    exact congrArg (frame :: ·) (ih (forall_mem_cons.mp fits).2 (by omega))

end LibOp.Websocket

import LibOp.Foundation.Bytes

open LibOp.Foundation

namespace LibOp.Base64

def sizeMax : Nat := 2 ^ 64 - 1

def b64Enc : List UInt8 := [
  'A', 'B', 'C', 'D', 'E', 'F', 'G', 'H', 'I', 'J', 'K', 'L', 'M', 'N', 'O', 'P',
  'Q', 'R', 'S', 'T', 'U', 'V', 'W', 'X', 'Y', 'Z', 'a', 'b', 'c', 'd', 'e', 'f',
  'g', 'h', 'i', 'j', 'k', 'l', 'm', 'n', 'o', 'p', 'q', 'r', 's', 't', 'u', 'v',
  'w', 'x', 'y', 'z', '0', '1', '2', '3', '4', '5', '6', '7', '8', '9', '+', '/'].map fun c => UInt8.ofNat c.toNat

def b64Pad : UInt8 := 0x3D

def encodeDigit (index : Nat) : UInt8 := b64Enc.getD index 0

def b64Dec : List Int := [
  -1, -1, -1, -1, -1, -1, -1, -1, -1, -1, -1, -1, -1, -1, -1, -1,
  -1, -1, -1, -1, -1, -1, -1, -1, -1, -1, -1, -1, -1, -1, -1, -1,
  -1, -1, -1, -1, -1, -1, -1, -1, -1, -1, -1, 62, -1, -1, -1, 63,
  52, 53, 54, 55, 56, 57, 58, 59, 60, 61, -1, -1, -1, -1, -1, -1,
  -1,  0,  1,  2,  3,  4,  5,  6,  7,  8,  9, 10, 11, 12, 13, 14,
  15, 16, 17, 18, 19, 20, 21, 22, 23, 24, 25, -1, -1, -1, -1, -1,
  -1, 26, 27, 28, 29, 30, 31, 32, 33, 34, 35, 36, 37, 38, 39, 40,
  41, 42, 43, 44, 45, 46, 47, 48, 49, 50, 51, -1, -1, -1, -1, -1,
  -1, -1, -1, -1, -1, -1, -1, -1, -1, -1, -1, -1, -1, -1, -1, -1,
  -1, -1, -1, -1, -1, -1, -1, -1, -1, -1, -1, -1, -1, -1, -1, -1,
  -1, -1, -1, -1, -1, -1, -1, -1, -1, -1, -1, -1, -1, -1, -1, -1,
  -1, -1, -1, -1, -1, -1, -1, -1, -1, -1, -1, -1, -1, -1, -1, -1,
  -1, -1, -1, -1, -1, -1, -1, -1, -1, -1, -1, -1, -1, -1, -1, -1,
  -1, -1, -1, -1, -1, -1, -1, -1, -1, -1, -1, -1, -1, -1, -1, -1,
  -1, -1, -1, -1, -1, -1, -1, -1, -1, -1, -1, -1, -1, -1, -1, -1,
  -1, -1, -1, -1, -1, -1, -1, -1, -1, -1, -1, -1, -1, -1, -1, -1]

def decodeDigit (ch : UInt8) : Int := b64Dec.getD ch.toNat (-1)

def encodeLoop : List UInt8 → List UInt8
  | a :: b :: c :: rest =>
    encodeDigit (a.toNat >>> 2) :: encodeDigit ((a.toNat &&& 0x03) <<< 4 ||| b.toNat >>> 4) ::
      encodeDigit ((b.toNat &&& 0x0f) <<< 2 ||| c.toNat >>> 6) :: encodeDigit (c.toNat &&& 0x3f) :: encodeLoop rest
  | [a, b] =>
    [encodeDigit (a.toNat >>> 2), encodeDigit ((a.toNat &&& 0x03) <<< 4 ||| b.toNat >>> 4),
      encodeDigit ((b.toNat &&& 0x0f) <<< 2), b64Pad]
  | [a] => [encodeDigit (a.toNat >>> 2), encodeDigit ((a.toNat &&& 0x03) <<< 4), b64Pad, b64Pad]
  | [] => []

def opBase64Encode (src : List UInt8) : Option (List UInt8) :=
  if src.length > sizeMax - 2 ∨ (src.length + 2) / 3 > (sizeMax - 1) / 4 then none else some (encodeLoop src)

/-- The allocation of the result, the digits read and the index of the next byte. -/
structure Decoding where
  result : List UInt8
  i : Nat
  j : Nat

def addDigit (s : Decoding) (val : Nat) : Option Decoding :=
  match s.i &&& 3 with
  | 0 => do
    let result ← store s.result s.j (UInt8.ofNat (val <<< 2))
    some { s with result, i := s.i + 1 }
  | 1 => do
    let partialByte ← s.result[s.j]?
    let result ← store s.result s.j (partialByte ||| UInt8.ofNat (val >>> 4))
    let result ← store result (s.j + 1) (UInt8.ofNat ((val &&& 0x0f) <<< 4))
    some { result, i := s.i + 1, j := s.j + 1 }
  | 2 => do
    let partialByte ← s.result[s.j]?
    let result ← store s.result s.j (partialByte ||| UInt8.ofNat (val >>> 2))
    let result ← store result (s.j + 1) (UInt8.ofNat ((val &&& 0x03) <<< 6))
    some { result, i := s.i + 1, j := s.j + 1 }
  | _ => do
    let partialByte ← s.result[s.j]?
    let result ← store s.result s.j (partialByte ||| UInt8.ofNat val)
    some { result, i := s.i + 1, j := s.j + 1 }

/-- `ch` is the byte read last. -/
def decodeLoop (s : Decoding) (ch : UInt8) : List UInt8 → Option (Decoding × UInt8)
  | [] => some (s, ch)
  | c :: rest =>
    if c = 0 then some (s, c)
    else if c = b64Pad then some (s, c)
    else if decodeDigit c < 0 then decodeLoop s c rest
    else (addDigit s (decodeDigit c).toNat).bind fun s => decodeLoop s c rest

structure Decoded where
  result : List UInt8
  outLen : Nat

/-- The inner option is `NULL`; the outer one is empty when an access lies outside of an allocation. -/
def opBase64Decode (src : List UInt8) : Option (Option Decoded) :=
  if src.length = sizeMax then some none
  else do
    let (s, ch) ← decodeLoop { result := List.replicate (src.length + 1) 0, i := 0, j := 0 } 0 src
    if ch = b64Pad ∧ s.i &&& 3 = 1 then some none
    else
      let result ← store s.result s.j 0
      some (some { result, outLen := s.j })

def plus : UInt8 := 0x2B

def patchUrl : List UInt8 → List UInt8
  | [] => []
  | p :: rest =>
    if p = plus then minus :: patchUrl rest
    else if p = slash then underscore :: patchUrl rest
    else if p = b64Pad then []
    else p :: patchUrl rest

def opBase64urlEncode (src : List UInt8) : Option (List UInt8) := (opBase64Encode src).map patchUrl

def standardDigit (c : UInt8) : UInt8 := if c = minus then plus else if c = underscore then slash else c

/-- `while (i % 4 != 0) buf[i++] = '=';` -/
def padLoop (buf : List UInt8) (i : Nat) : Option (List UInt8 × Nat) :=
  if i % 4 = 0 then some (buf, i) else (store buf i b64Pad).bind fun buf => padLoop buf (i + 1)
termination_by (4 - i % 4) % 4

def opBase64urlDecode (src : List UInt8) : Option (Option Decoded) :=
  if src.length ≥ sizeMax - 4 then some none
  else do
    let buf ← storeAll (List.replicate (src.length + 4 + 1) 0) 0 (src.map standardDigit)
    let (buf, i) ← padLoop buf src.length
    let buf ← store buf i 0
    opBase64Decode (buf.take i)

end LibOp.Base64

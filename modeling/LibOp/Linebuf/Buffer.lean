import Mathlib

namespace LibOp.Linebuf

open List

def linebufTagslen : Nat := 4096
def linebufDatalen : Nat := 510

def linebufSize : Nat := linebufTagslen + linebufDatalen

def crlfLen : Nat := 2

def isCrlf (b : UInt8) : Bool := decide (b = 13) || decide (b = 10)

/-- `buf_line_t`: the bytes of `buf` up to `len`. A line of a receive buffer has one owner, so there is no reference
count. -/
structure BufLine where
  buf : List UInt8
  terminated : Bool
  raw : Bool
  fits : buf.length ≤ linebufSize + crlfLen

def BufLine.len (line : BufLine) : Nat := line.buf.length

/-- `buf_head_t` without `writeofs`, which only the send path uses. -/
structure BufHead where
  list : List BufLine
  len : Nat
  alloclen : Nat
  numlines : Nat

def linebufNewbuf : BufHead := ⟨[], 0, 0, 0⟩

def emptyLine : BufLine := ⟨[], false, false, Nat.zero_le _⟩

def linebufSkipCrlf (data : List UInt8) : Nat :=
  (data.takeWhile fun b => !isCrlf b).length + ((data.dropWhile fun b => !isCrlf b).takeWhile isCrlf).length

def blankTrailing (data : List UInt8) : List UInt8 :=
  data.rdropWhile isCrlf ++ List.replicate (data.length - (data.rdropWhile isCrlf).length) 0

lemma rdropWhile_length_le (data : List UInt8) : (data.rdropWhile isCrlf).length ≤ data.length := by
  exact ( rdropWhile_prefix isCrlf data).length_le

lemma blankTrailing_length (data : List UInt8) : (blankTrailing data).length = data.length := by
  have shorter := rdropWhile_length_le data
  rw [blankTrailing, length_append, length_replicate]
  omega

def BufLine.extend (line : BufLine) (bytes : List UInt8) (terminated raw : Bool)
    (room : bytes.length ≤ linebufSize - line.len) : BufLine where
  buf := line.buf ++ bytes
  terminated := terminated
  raw := raw
  fits := by
    have fits := line.fits
    rw [List.length_append]
    simp only [BufLine.len] at room
    omega

def endsWithCrlf (data : List UInt8) : Bool := (data.getLast?.map isCrlf).getD false

/-- What `linebuf_copy` keeps when it strips line ends. -/
def stripped (raw : Bool) (copied : List UInt8) : List UInt8 :=
  if raw then copied else copied.rdropWhile isCrlf

/-- What the overflow path of `linebuf_copy` keeps. -/
def blanked (raw : Bool) (copied : List UInt8) : List UInt8 :=
  if raw then copied else blankTrailing copied

lemma stripped_length (raw : Bool) (copied : List UInt8) : (stripped raw copied).length ≤ copied.length := by
  unfold stripped
  split
  · exact le_rfl
  · exact rdropWhile_length_le copied

lemma blanked_length (raw : Bool) (copied : List UInt8) : (blanked raw copied).length = copied.length := by
  unfold blanked
  split
  · rfl
  · exact blankTrailing_length copied

/-- The new `bufhead->len`, the line and the bytes consumed. -/
def linebufCopy (headLen : Nat) (line : BufLine) (data : List UInt8) (raw : Bool) : Nat × BufLine × Nat :=
  if line.terminated then (headLen, line, 0)
  else
    let consumed := linebufSkipCrlf data
    let avail := linebufSize - line.len
    if overflow : consumed > avail then
      (headLen + (linebufSize - line.len), line.extend (blanked raw (data.take avail)) true raw (by
          rw [blanked_length, List.length_take]
          omega), consumed)
    else
      have room : (data.take consumed).length ≤ avail := by
        rw [List.length_take]
        omega
      if endsWithCrlf (data.take consumed) then
        (headLen + (stripped raw (data.take consumed)).length,
          line.extend (stripped raw (data.take consumed)) true raw
            (Nat.le_trans (stripped_length raw _) room), consumed)
      else
        (headLen + (data.take consumed).length, line.extend (data.take consumed) false raw room, consumed)

variable {data : List UInt8}

lemma linebufSkipCrlf_pos (ne : data ≠ []) : 0 < linebufSkipCrlf data := by
  cases data with
  | nil => exact absurd rfl ne
  | cons b rest =>
    unfold linebufSkipCrlf
    cases lineEnd : isCrlf b
    · simp only [takeWhile_cons, lineEnd, Bool.not_false, if_true, length_cons]
      omega
    · simp [lineEnd]

lemma linebufCopy_consumed
    (fresh : line.terminated = false) : (linebufCopy headLen line data raw).2.2 = linebufSkipCrlf data := by
  unfold linebufCopy
  rw [if_neg (by simp [fresh])]
  dsimp only
  split
  · rfl
  · split <;> rfl

def parseLoop (head : BufHead) (data : List UInt8) (raw : Bool) (linecnt : Nat) : BufHead × Nat :=
  if more : data = [] then (head, linecnt)
  else
    let copied := linebufCopy head.len emptyLine data raw
    parseLoop
      { list := head.list ++ [copied.2.1], len := copied.1, alloclen := head.alloclen + 1,
        numlines := head.numlines + 1 }
      (data.drop copied.2.2) raw (linecnt + 1)
termination_by data.length
decreasing_by
  have positive := linebufSkipCrlf_pos more
  have nonempty := List.length_pos_of_ne_nil more
  rw [linebufCopy_consumed rfl, List.length_drop]
  omega

def linebufParse (head : BufHead) (data : List UInt8) (raw : Bool) : BufHead × Nat :=
  if data = [] then (head, 0)
  else
    match head.list.getLast? with
    | none => parseLoop head data raw 0
    | some line =>
      let copied := linebufCopy head.len line data raw
      if copied.2.2 > 0 then
        let filled := { head with list := head.list.dropLast ++ [copied.2.1], len := copied.1 }
        if copied.2.2 ≥ data.length then (filled, 1)
        else parseLoop filled (data.drop copied.2.2) raw 1
      else parseLoop head data raw 0

def linebufDoneLine (head : BufHead) (line : BufLine) (rest : List BufLine) : BufHead :=
  { list := rest, len := head.len - line.len, alloclen := head.alloclen - 1, numlines := head.numlines - 1 }

def getLoop (buflen : Nat) (part raw : Bool) : List BufLine → BufHead → BufHead × List UInt8
  | [], head => (head, [])
  | line :: rest, head =>
    if !(part || line.terminated) then (head, [])
    else if buflen = 0 then (head, [])
    else
      let start := line.buf.take (min line.len (buflen - 1))
      let bytes := if line.raw && !raw then (start.dropWhile isCrlf).rdropWhile isCrlf else start
      if bytes = [] then getLoop buflen part raw rest (linebufDoneLine head line rest)
      else (linebufDoneLine head line rest, bytes)

def linebufGet (head : BufHead) (buflen : Nat) (part raw : Bool) : BufHead × List UInt8 :=
  getLoop buflen part raw head.list head

end LibOp.Linebuf

import LibOp.Linebuf.Segmentation

namespace LibOp.Linebuf

open List

structure SentLine where
  content : List UInt8
  ends : List UInt8
  plain : Content content
  nonempty : content ≠ []
  fits : content.length ≤ linebufSize
  lineEnds : LineEnds ends
  terminated : ends ≠ []

def SentLine.bytes (line : SentLine) : List UInt8 := line.content ++ line.ends

def SentLine.stored (line : SentLine) : List UInt8 :=
  if line.bytes.length ≤ linebufSize then line.content
  else line.content ++ List.replicate (linebufSize - line.content.length) 0

variable (line : SentLine)

lemma SentLine.feed_bytes : feed [] line.bytes = ([], [line.stored]) := by
  have fits := line.fits
  rw [stored]
  split
  next room => exact feed_line line.terminated line.plain line.lineEnds (by rw [length_nil, Nat.zero_add]; exact room)
  next exceeds =>
    rw [bytes, length_append] at exceeds
    have shorter : LineEnds (line.ends.take (linebufSize - line.content.length)) :=
      fun b mem => line.lineEnds b (mem_of_mem_take mem)
    rw [feed, if_pos (by rw [bytes, length_append, length_nil]; omega), length_nil, Nat.sub_zero, bytes,
      take_append, take_of_length_le fits, blankTrailing_append line.plain shorter, length_take,
      Nat.min_eq_left (by omega), nil_append]

lemma linebufSkipCrlf_line (next : ∀ b, rest.head? = some b → isCrlf b = false) :
    linebufSkipCrlf (line.bytes ++ rest) = line.bytes.length := by
  have stops : rest.takeWhile isCrlf = [] := by
    cases rest with
    | nil => rfl
    | cons b rest => rw [takeWhile_cons, next b rfl, if_neg Bool.false_ne_true]
  obtain ⟨b, ends, shape⟩ := exists_cons_of_ne_nil line.terminated
  have first := line.lineEnds b (by rw [shape]; exact mem_cons_self)
  have content : ∀ b ∈ line.content, (!isCrlf b) = true := fun b mem => by rw [line.plain b mem]; rfl
  rw [linebufSkipCrlf, SentLine.bytes, append_assoc, takeWhile_append_of_pos content,
    dropWhile_append_of_pos content, shape, cons_append, takeWhile_cons_of_neg (by simp [first]),
    dropWhile_cons_of_neg (by simp [first]), ← cons_append, ← shape,
    takeWhile_append_of_pos line.lineEnds, stops]
  simp

lemma pieces_lines (lines : List SentLine) : pieces (lines.flatMap SentLine.bytes) = lines.map SentLine.bytes := by
  induction lines with
  | nil => exact pieces_nil
  | cons line lines ih =>
    have next : ∀ b, (lines.flatMap SentLine.bytes).head? = some b → isCrlf b = false := by
      intro b first
      cases lines with
      | nil => cases first
      | cons other lines =>
        obtain ⟨b', content, shape⟩ := exists_cons_of_ne_nil other.nonempty
        rw [flatMap_cons, SentLine.bytes, shape] at first
        cases first
        exact other.plain b (by rw [shape]; exact mem_cons_self)
    rw [flatMap_cons, map_cons, pieces_cons (by simp [SentLine.bytes, line.nonempty]),
      linebufSkipCrlf_line line next, take_left, drop_left, ih]

lemma receive_lines (large : linebufSize + 1 < buflen) (lines : List SentLine) :
    receive buflen linebufNewbuf [.parse (lines.flatMap SentLine.bytes)] = some (lines.map SentLine.stored) := by
  have empty : Holds linebufNewbuf [] [] := ⟨[], rfl, by simp, .inl ⟨rfl, rfl⟩⟩
  have fed : (feedAll [] (lines.map SentLine.bytes)).2 = lines.map SentLine.stored := by
    induction lines with
    | nil => rfl
    | cons line lines ih => rw [map_cons, feedAll, line.feed_bytes, ih, map_cons, singleton_append]
  have all : visible (lines.map SentLine.stored) = lines.map SentLine.stored := by
    rw [visible, filter_eq_self]
    intro stored mem
    obtain ⟨line, -, rfl⟩ := List.mem_map.mp mem
    rw [SentLine.stored]
    split <;> simp [line.nonempty]
  rw [receive_eq (Nat.lt_of_succ_lt large) _ empty, chunks, chunks, flatMap_cons, flatMap_nil, append_nil,
    pieces_lines, fed, all]
  rfl

lemma SentLine.stored_eq_iff : line.stored = line.content ↔
      line.content.length + line.ends.length ≤ linebufSize ∨ line.content.length = linebufSize := by
  have fits := line.fits
  rw [stored, bytes, length_append]
  split
  next room => exact iff_of_true rfl (.inl room)
  · simp only [append_right_eq_self, replicate_eq_nil_iff]
    omega

/-- The lines come out as sent exactly if each fits with its line ends, or fills the buffer. -/
theorem lines_returned_iff {buflen : Nat} (large : linebufSize + 1 < buflen) (lines : List SentLine) :
    receive buflen linebufNewbuf [.parse (lines.flatMap SentLine.bytes)] = some (lines.map SentLine.content) ↔
      ∀ line ∈ lines, line.content.length + line.ends.length ≤ linebufSize ∨ line.content.length = linebufSize := by
  rw [receive_lines large, Option.some_inj, map_inj_left]
  exact forall₂_congr fun line _ => line.stored_eq_iff

def shortLine : SentLine where
  content := [97]
  ends := [13, 10]
  plain := List.forall_mem_singleton.mpr rfl
  nonempty := by decide
  fits := by decide
  lineEnds := List.forall_mem_cons.mpr ⟨rfl, List.forall_mem_singleton.mpr rfl⟩
  terminated := by decide

theorem lines_returned_iff_short :
    linebufSize + 1 < 4608 ∧ (receive 4608 linebufNewbuf [.parse ([shortLine, shortLine].flatMap SentLine.bytes)] =
        some ([shortLine, shortLine].map SentLine.content) ↔
      ∀ line ∈ [shortLine, shortLine],
        line.content.length + line.ends.length ≤ linebufSize ∨ line.content.length = linebufSize) :=
  ⟨by decide, lines_returned_iff (by decide) _⟩

def nearlyFull : SentLine where
  content := List.replicate 4605 97
  ends := [13, 10]
  plain := fun b member => by rw [(List.mem_replicate.mp member).2]; decide
  nonempty := List.cons_ne_nil _ _
  fits := by rw [List.length_replicate]; decide
  lineEnds := List.forall_mem_cons.mpr ⟨rfl, List.forall_mem_singleton.mpr rfl⟩
  terminated := by decide

theorem nearly_full_line_padded :
    receive 4608 linebufNewbuf [.parse nearlyFull.bytes] = some [nearlyFull.content ++ [0]] := by
  have stored : nearlyFull.stored = nearlyFull.content ++ [0] := by
    have length : nearlyFull.content.length = 4605 := length_replicate
    rw [SentLine.stored, if_neg (by rw [SentLine.bytes, length_append, length]; decide), length]
    rfl
  have received := receive_lines (by decide : linebufSize + 1 < 4608) [nearlyFull]
  rw [flatMap_singleton, map_singleton, stored] at received
  exact received

end LibOp.Linebuf

import LibOp.Linebuf.Receive

namespace LibOp.Linebuf

open List

/-- A line of `n` content bytes and `m` line-end bytes that comes out alike for every cut. -/
def LineSafe (n m : Nat) : Prop :=
  if n < linebufSize then n + m ≤ linebufSize
  else if n = linebufSize then m ≤ linebufSize + 1
  else if n = linebufSize + 1 then m ≤ linebufSize
  else False

/-- Every line of the stream is safe; `n` and `m` count what precedes it of the current line. Content at the end has no
line end. -/
def SafeFrom : Nat → Nat → List UInt8 → Prop
  | n, m, [] => if m = 0 then n ≤ 2 * linebufSize + 1 else LineSafe n m
  | n, m, b :: rest =>
    if isCrlf b then SafeFrom n (m + 1) rest
    else if m = 0 then SafeFrom (n + 1) 0 rest
    else LineSafe n m ∧ SafeFrom 1 0 rest

def linesFrom : List UInt8 → List UInt8 → List (List UInt8)
  | cur, [] => if cur.length > linebufSize then [cur.take linebufSize] else []
  | cur, b :: rest =>
    if isCrlf b then (if cur = [] then [] else [cur.take linebufSize]) ++ linesFrom [] rest
    else linesFrom (cur ++ [b]) rest

lemma LineSafe.mono (safe : LineSafe n m') (fewer : m ≤ m') : LineSafe n m := by
  unfold LineSafe at safe ⊢
  split_ifs at safe ⊢ <;> omega

lemma LineSafe.short (safe : LineSafe n m) : n ≤ linebufSize + 1 ∧ m ≤ linebufSize + 1 := by
  unfold LineSafe at safe
  split_ifs at safe <;> omega

section

variable {n m : Nat} {c r rest : List UInt8}

lemma safeFrom_content (content : Content c) : SafeFrom n 0 (c ++ rest) ↔ SafeFrom (n + c.length) 0 rest := by
  induction c generalizing n with
  | nil => rfl
  | cons b c ih =>
    rw [cons_append, SafeFrom, content b mem_cons_self, if_neg (by decide), if_pos rfl,
      ih (forall_mem_cons.mp content).2, length_cons]
    rw [show n + 1 + c.length = n + (c.length + 1) by omega]

lemma safeFrom_ends (ends : LineEnds r) : SafeFrom n m (r ++ rest) ↔ SafeFrom n (m + r.length) rest := by
  induction r generalizing m with
  | nil => rfl
  | cons b r ih =>
    rw [cons_append, SafeFrom, ends b mem_cons_self, if_pos rfl, ih (forall_mem_cons.mp ends).2, length_cons]
    rw [show m + 1 + r.length = m + (r.length + 1) by omega]

lemma safeFrom_next (started : 1 ≤ m) (ne : c ≠ []) (content : Content c)
    (safe : SafeFrom n m (c ++ rest)) : SafeFrom c.length 0 rest := by
  cases c with
  | nil => exact absurd rfl ne
  | cons b c =>
    rw [cons_append, SafeFrom, content b mem_cons_self, if_neg (by decide), if_neg (by omega)] at safe
    rw [safeFrom_content (forall_mem_cons.mp content).2] at safe
    rw [length_cons, Nat.add_comm]
    exact safe.2

lemma SafeFrom.lineSafe (started : 1 ≤ m) (safe : SafeFrom n m rest) : LineSafe n m := by
  induction rest generalizing m with
  | nil =>
    rw [SafeFrom, if_neg (by omega)] at safe
    exact safe
  | cons b rest ih =>
    rw [SafeFrom] at safe
    split at safe
    · exact (ih (by omega) safe).mono (Nat.le_succ m)
    · rw [if_neg (by omega)] at safe
      exact safe.1

lemma SafeFrom.long (exceeds : linebufSize + 2 ≤ n) (safe : SafeFrom n 0 rest) : n ≤ 2 * linebufSize + 1 := by
  induction rest generalizing n with
  | nil => exact safe
  | cons b rest ih =>
    rw [SafeFrom] at safe
    split at safe
    · have short := (SafeFrom.lineSafe (by omega) safe).short
      omega
    · have := ih (by omega) safe
      omega

lemma linesFrom_content (content : Content c) (cur : List UInt8) :
    linesFrom cur (c ++ rest) = linesFrom (cur ++ c) rest := by
  induction c generalizing cur with
  | nil => simp
  | cons b c ih =>
    rw [cons_append, linesFrom, content b mem_cons_self, if_neg (by decide),
      ih (forall_mem_cons.mp content).2, append_assoc, singleton_append]

lemma linesFrom_nil_ends (ends : LineEnds r) : linesFrom [] (r ++ rest) = linesFrom [] rest := by
  induction r with
  | nil => rfl
  | cons b r ih =>
    rw [cons_append, linesFrom, ends b mem_cons_self, if_pos rfl, if_pos rfl,
      nil_append, ih (forall_mem_cons.mp ends).2]

lemma linesFrom_ends (ne : r ≠ []) (ends : LineEnds r) (cur : List UInt8) :
    linesFrom cur (r ++ rest) = (if cur = [] then [] else [cur.take linebufSize]) ++ linesFrom [] rest := by
  cases r with
  | nil => exact absurd rfl ne
  | cons b r =>
    rw [cons_append, linesFrom, ends b mem_cons_self, if_pos rfl, linesFrom_nil_ends (forall_mem_cons.mp ends).2]

lemma linesFrom_long (exceeds : linebufSize < cur.length) :
    linesFrom cur rest = cur.take linebufSize :: linesFrom [] (rest.dropWhile fun b => !isCrlf b) := by
  induction rest generalizing cur with
  | nil =>
    rw [linesFrom, if_pos exceeds]
    rfl
  | cons b rest ih =>
    have ne : cur ≠ [] := by
      rintro rfl
      exact absurd exceeds (Nat.not_lt_zero _)
    cases lineEnd : isCrlf b with
    | false =>
      rw [linesFrom, lineEnd, if_neg (by decide), ih (by simp; omega), take_append_of_le_length (Nat.le_of_lt exceeds)]
      simp [lineEnd]
    | true => simp [linesFrom, lineEnd, ne]

end

section

variable {part c r : List UInt8}

lemma feed_overflow_content (fits : part.length ≤ linebufSize) (content : Content c)
    (full : linebufSize ≤ part.length + c.length) (exceeds : linebufSize < part.length + (c ++ r).length) :
    feed part (c ++ r) = ([], [(part ++ c).take linebufSize]) := by
  have kept : (c ++ r).take (linebufSize - part.length) = c.take (linebufSize - part.length) :=
    take_append_of_le_length (by omega)
  have plain : Content (c.take (linebufSize - part.length)) :=
    fun b mem => content b (mem_of_mem_take mem)
  have unchanged := blankTrailing_append plain lineEnds_nil
  rw [append_nil] at unchanged
  rw [feed, if_pos (by omega), kept, unchanged, take_append, take_of_length_le fits]
  simp

lemma feed_line (ne : r ≠ []) (content : Content c) (ends : LineEnds r)
    (room : part.length + (c ++ r).length ≤ linebufSize) : feed part (c ++ r) = ([], [part ++ c]) := by
  have lineEnd := endsWithCrlf_append content ends
  have closed : (!r.isEmpty) = true := by simpa using ne
  rw [feed, if_neg (by omega), lineEnd, closed, if_pos rfl, rdropWhile_append content ends]

lemma feed_ends (ne : r ≠ []) (ends : LineEnds r) (room : r.length ≤ linebufSize) : feed [] r = ([], [[]]) := by
  have room' : ([] : List UInt8).length + ([] ++ r).length ≤ linebufSize := by simpa using room
  exact feed_line ne content_nil ends room'

lemma feed_open (content : Content c) (room : part.length + c.length ≤ linebufSize) :
    feed part c = (part ++ c, []) := by
  have open_ := endsWithCrlf_append content lineEnds_nil
  rw [append_nil] at open_
  rw [feed, if_neg (by omega), open_]
  rfl

lemma feed_overflow (part piece : List UInt8) (fits : part.length ≤ linebufSize)
    (exceeds : linebufSize < part.length + piece.length) :
    ∃ line, feed part piece = ([], [line]) ∧ line.length = linebufSize := by
  rw [feed, if_pos (by omega)]
  refine ⟨_, rfl, ?_⟩
  rw [length_append, blankTrailing_length, length_take]
  omega

end

def IsPiece (piece : List UInt8) : Prop := ∃ c r, piece = c ++ r ∧ Content c ∧ LineEnds r ∧ piece ≠ []

lemma pieces_isPiece (data : List UInt8) : ∀ piece ∈ pieces data, IsPiece piece := by
  by_cases none : data = []
  · simp [none, pieces_nil]
  · have pos := linebufSkipCrlf_pos none
    have dataLen := length_pos_of_ne_nil none
    obtain ⟨c, r, rest, shape, content, ends, skip, -⟩ := linebufSkipCrlf_split data
    rw [pieces_cons none]
    intro piece mem
    rcases List.mem_cons.mp mem with rfl | later
    · refine ⟨c, r, by rw [skip, shape, take_left], content, ends, ?_⟩
      intro empty
      rcases List.take_eq_nil_iff.mp empty with zero | noData
      · omega
      · exact none noData
    · exact pieces_isPiece (data.drop (linebufSkipCrlf data)) piece later
termination_by data.length
decreasing_by
  rw [length_drop]
  omega

lemma pieces_flatten (data : List UInt8) : (pieces data).flatten = data := by
  by_cases none : data = []
  · simp [none, pieces_nil]
  · have pos := linebufSkipCrlf_pos none
    have dataLen := length_pos_of_ne_nil none
    rw [pieces_cons none, flatten_cons, pieces_flatten (data.drop (linebufSkipCrlf data)), take_append_drop]
termination_by data.length
decreasing_by
  rw [length_drop]
  omega

lemma pieces_of_isPiece (isPiece : IsPiece piece) : pieces piece = [piece] := by
  obtain ⟨c, r, rfl, content, ends, ne⟩ := isPiece
  have phase1 : (c ++ r).takeWhile (fun b => !isCrlf b) = c := by
    rw [takeWhile_append_of_pos fun b mem => by simp [content b mem]]
    cases r with
    | nil => simp
    | cons b r => simp [ends b mem_cons_self]
  have phase2 : (c ++ r).dropWhile (fun b => !isCrlf b) = r := by
    rw [dropWhile_append_of_pos fun b mem => by simp [content b mem]]
    cases r with
    | nil => simp
    | cons b r => simp [ends b mem_cons_self]
  have phase3 := List.takeWhile_eq_self_iff.mpr ends
  have skip : linebufSkipCrlf (c ++ r) = (c ++ r).length := by
    rw [linebufSkipCrlf, phase1, phase2, phase3, length_append]
  rw [pieces_cons ne, skip, take_length, drop_length, pieces_nil]

end LibOp.Linebuf

import LibOp.Linebuf.Buffer

namespace LibOp.Linebuf

open List

def Content (c : List UInt8) : Prop := ∀ b ∈ c, isCrlf b = false

def LineEnds (r : List UInt8) : Prop := ∀ b ∈ r, isCrlf b = true

lemma content_nil : Content [] := fun _ mem => absurd mem not_mem_nil

lemma lineEnds_nil : LineEnds [] := fun _ mem => absurd mem not_mem_nil

lemma Content.append (first : Content c) (second : Content d) : Content (c ++ d) :=
  List.forall_mem_append.mpr ⟨first, second⟩

section

variable {c r : List UInt8} (content : Content c) (ends : LineEnds r)

include content ends

lemma endsWithCrlf_append : endsWithCrlf (c ++ r) = !r.isEmpty := by
  unfold endsWithCrlf
  rcases eq_nil_or_concat r with rfl | ⟨r', b, rfl⟩
  · rcases eq_nil_or_concat c with rfl | ⟨c', b, rfl⟩
    · rfl
    · simp [content b (by simp)]
  · simp [ends b (by simp)]

lemma rdropWhile_append : (c ++ r).rdropWhile isCrlf = c := by
  induction r using List.reverseRecOn with
  | nil =>
    rw [append_nil]
    rcases eq_nil_or_concat c with rfl | ⟨c', b, rfl⟩
    · rfl
    · simp [content b (by simp)]
  | append_singleton r b ih =>
    rw [← append_assoc, rdropWhile_concat_pos _ _ _ (ends b (by simp))]
    exact ih fun x mem => ends x (mem_append_left _ mem)

lemma blankTrailing_append : blankTrailing (c ++ r) = c ++ List.replicate r.length 0 := by
  rw [blankTrailing, rdropWhile_append content ends, length_append, Nat.add_sub_cancel_left]

end

lemma linebufSkipCrlf_split (data : List UInt8) : ∃ c r rest, data = c ++ r ++ rest ∧ Content c ∧ LineEnds r ∧
      linebufSkipCrlf data = (c ++ r).length ∧ (rest ≠ [] → r ≠ []) := by
  refine ⟨data.takeWhile fun b => !isCrlf b, (data.dropWhile fun b => !isCrlf b).takeWhile isCrlf,
    (data.dropWhile fun b => !isCrlf b).dropWhile isCrlf, ?_, ?_, ?_, ?_, ?_⟩
  · rw [append_assoc, takeWhile_append_dropWhile, takeWhile_append_dropWhile]
  · intro b mem
    simpa using mem_takeWhile_imp mem
  · exact fun b mem => mem_takeWhile_imp mem
  · rw [linebufSkipCrlf, length_append]
  · intro more none
    cases remaining : data.dropWhile fun b => !isCrlf b with
    | nil =>
      rw [remaining] at more
      exact more rfl
    | cons b rest =>
      have lineEnd := head_dropWhile_not (fun b => !isCrlf b) (l := data) (by simp [remaining])
      simp only [remaining, head_cons, Bool.not_eq_false'] at lineEnd
      rw [remaining, takeWhile_cons, lineEnd] at none
      cases none

/-- The logical lines into which `op_linebuf_parse` cuts its data. -/
def pieces (data : List UInt8) : List (List UInt8) :=
  if data = [] then []
  else data.take (linebufSkipCrlf data) :: pieces (data.drop (linebufSkipCrlf data))
termination_by data.length
decreasing_by
  have positive := linebufSkipCrlf_pos ‹data ≠ []›
  have nonempty := List.length_pos_of_ne_nil ‹data ≠ []›
  rw [List.length_drop]
  omega

/-- A logical line meets the unterminated bytes at the tail: those after it, and the line that it terminates. -/
def feed (part piece : List UInt8) : List UInt8 × List (List UInt8) :=
  if piece.length > linebufSize - part.length then
    ([], [part ++ blankTrailing (piece.take (linebufSize - part.length))])
  else if endsWithCrlf piece then ([], [part ++ piece.rdropWhile isCrlf])
  else (part ++ piece, [])

def feedAll (part : List UInt8) : List (List UInt8) → List UInt8 × List (List UInt8)
  | [] => (part, [])
  | piece :: rest =>
    let fed := feed part piece
    let fedRest := feedAll fed.1 rest
    (fedRest.1, fed.2 ++ fedRest.2)

lemma feedAll_append (part : List UInt8) (first second : List (List UInt8)) : feedAll part (first ++ second) =
      ((feedAll (feedAll part first).1 second).1,
        (feedAll part first).2 ++ (feedAll (feedAll part first).1 second).2) := by
  induction first generalizing part with
  | nil => rfl
  | cons piece rest ih =>
    simp only [cons_append, feedAll]
    rw [ih, append_assoc]

/-- `op_linebuf_parse` leaves the room for CR and LF unused. -/
def BufLine.Received (line : BufLine) : Prop := line.raw = false ∧ line.len ≤ linebufSize

def Holds (head : BufHead) (closed : List (List UInt8)) (part : List UInt8) : Prop :=
  ∃ done : List BufLine, done.map BufLine.buf = closed ∧ (∀ line ∈ done, line.terminated = true ∧ line.Received) ∧
    ((part = [] ∧ head.list = done) ∨
      ∃ line, line.buf = part ∧ line.terminated = false ∧ line.Received ∧ part ≠ [] ∧ head.list = done ++ [line])

lemma linebufCopy_len (short : line.len ≤ linebufSize) (headLen : Nat) (data : List UInt8)
    (raw : Bool) : (linebufCopy headLen line data raw).2.1.len ≤ linebufSize := by
  have kept := stripped_length raw (data.take (linebufSkipCrlf data))
  rw [BufLine.len] at short
  unfold linebufCopy
  split
  · exact short
  · dsimp only
    split
    · simp only [BufLine.len, BufLine.extend, length_append, length_take, blanked_length]
      omega
    next room =>
      rw [BufLine.len] at room
      rw [length_take] at kept
      split <;> simp only [BufLine.len, BufLine.extend, length_append, length_take] <;> omega

lemma linebufCopy_spec (headLen : Nat) (fresh : line.terminated = false) (data : List UInt8) :
    ∃ copied, (linebufCopy headLen line data false).2.1 = copied ∧ copied.raw = false ∧ ((copied.terminated = true ∧
          feed line.buf (data.take (linebufSkipCrlf data)) = ([], [copied.buf])) ∨
        (copied.terminated = false ∧ copied.buf = line.buf ++ data.take (linebufSkipCrlf data) ∧
          feed line.buf (data.take (linebufSkipCrlf data)) = (copied.buf, []))) := by
  obtain ⟨c, r, rest, shape, -, -, skip, -⟩ := linebufSkipCrlf_split data
  have whole : (data.take (linebufSkipCrlf data)).length = linebufSkipCrlf data := by
    rw [skip, shape, take_left]
  unfold linebufCopy feed
  rw [if_neg (by simp [fresh]), whole]
  dsimp only [BufLine.len]
  by_cases overflow : linebufSkipCrlf data > linebufSize - line.buf.length
  · rw [dif_pos overflow, if_pos overflow, take_take, min_eq_left (le_of_lt overflow)]
    exact ⟨_, rfl, rfl, .inl ⟨rfl, rfl⟩⟩
  · rw [dif_neg overflow, if_neg overflow]
    by_cases lineEnd : endsWithCrlf (data.take (linebufSkipCrlf data)) = true
    · rw [if_pos lineEnd, if_pos lineEnd]
      exact ⟨_, rfl, rfl, .inl ⟨rfl, rfl⟩⟩
    · rw [if_neg lineEnd, if_neg lineEnd]
      exact ⟨_, rfl, rfl, .inr ⟨rfl, rfl, rfl⟩⟩

variable {data : List UInt8} {head : BufHead}

lemma holds_of_copy (complete : ∀ line ∈ done, line.terminated = true ∧ line.Received)
    (ne : data ≠ []) (fresh : line.terminated = false) (short : line.len ≤ linebufSize)
    (linked : head.list = done ++ [(linebufCopy headLen line data false).2.1]) :
    Holds head (done.map BufLine.buf ++ (feed line.buf (data.take (linebufSkipCrlf data))).2)
      (feed line.buf (data.take (linebufSkipCrlf data))).1 := by
  have pos := linebufSkipCrlf_pos ne
  obtain ⟨copied, isCopied, plain, outcome⟩ := linebufCopy_spec headLen fresh data
  have received : copied.Received := ⟨plain, isCopied ▸ linebufCopy_len short headLen data false⟩
  rw [isCopied] at linked
  rcases outcome with ⟨terminated, fed⟩ | ⟨open_, bytes, fed⟩
  · rw [fed]
    refine ⟨done ++ [copied], by simp, ?_, .inl ⟨rfl, linked⟩⟩
    exact List.forall_mem_append.mpr ⟨complete, List.forall_mem_singleton.mpr ⟨terminated, received⟩⟩
  · rw [fed, append_nil]
    refine ⟨done, rfl, complete, .inr ⟨copied, rfl, open_, received, ?_, linked⟩⟩
    rw [bytes]
    intro none
    rcases List.take_eq_nil_iff.mp (List.append_eq_nil_iff.mp none).2 with zero | noData
    · omega
    · exact ne noData

lemma feed_closed_of_more {part data : List UInt8} (more : data.drop (linebufSkipCrlf data) ≠ []) :
    (feed part (data.take (linebufSkipCrlf data))).1 = [] := by
  obtain ⟨c, r, rest, shape, content, ends, skip, hasEnd⟩ := linebufSkipCrlf_split data
  rw [skip, shape, drop_left] at more
  have lineEnd := endsWithCrlf_append content ends
  rw [skip, shape, take_left]
  unfold feed
  split
  · rfl
  · rw [lineEnd]
    cases r with
    | nil => exact absurd rfl (hasEnd more)
    | cons b r => rfl

lemma pieces_cons (ne : data ≠ []) :
    pieces data = data.take (linebufSkipCrlf data) :: pieces (data.drop (linebufSkipCrlf data)) := by
  rw [pieces, if_neg ne]

lemma pieces_nil : pieces [] = [] := by
  rw [pieces, if_pos rfl]

lemma parseLoop_holds (data : List UInt8) (head : BufHead) (linecnt : Nat) {part : List UInt8}
    (holds : Holds head closed part) (ready : data = [] ∨ part = []) :
    Holds (parseLoop head data false linecnt).1 (closed ++ (feedAll part (pieces data)).2)
      (feedAll part (pieces data)).1 := by
  by_cases finished : data = []
  · subst finished
    rw [parseLoop, dif_pos rfl, pieces_nil, feedAll, append_nil]
    exact holds
  · rw [parseLoop, dif_neg finished, pieces_cons finished]
    dsimp only [feedAll]
    rw [linebufCopy_consumed rfl, ← append_assoc]
    obtain rfl := ready.resolve_left finished
    obtain ⟨done, closedLines, complete, ⟨-, whole⟩ | ⟨line, -, -, -, ne, -⟩⟩ := holds
    · subst closedLines
      have pos := linebufSkipCrlf_pos finished
      have dataLen := length_pos_of_ne_nil finished
      let nextHead : BufHead :=
        { list := head.list ++ [(linebufCopy head.len emptyLine data false).2.1]
          len := (linebufCopy head.len emptyLine data false).1
          alloclen := head.alloclen + 1, numlines := head.numlines + 1 }
      have linked : nextHead.list = done ++ [(linebufCopy head.len emptyLine data false).2.1] := by
        rw [← whole]
      have filled := holds_of_copy complete finished rfl (Nat.zero_le _) linked
      apply parseLoop_holds (data.drop (linebufSkipCrlf data)) nextHead (linecnt + 1) filled
      by_cases more : data.drop (linebufSkipCrlf data) = []
      · exact .inl more
      · exact .inr (feed_closed_of_more more)
    · exact absurd rfl ne
termination_by data.length
decreasing_by
  rw [length_drop]
  omega

lemma linebufParse_holds {part : List UInt8} (holds : Holds head closed part) (data : List UInt8) :
    Holds (linebufParse head data false).1 (closed ++ (feedAll part (pieces data)).2)
      (feedAll part (pieces data)).1 := by
  by_cases none : data = []
  · subst none
    rw [linebufParse, if_pos rfl, pieces_nil, feedAll, append_nil]
    exact holds
  have pos := linebufSkipCrlf_pos none
  rw [linebufParse, if_neg none]
  obtain ⟨done, closedLines, complete, ⟨empty, whole⟩ | ⟨line, isPart, fresh, received, ne, whole⟩⟩ := holds
  · have start : Holds head closed part := ⟨done, closedLines, complete, .inl ⟨empty, whole⟩⟩
    cases last : head.list.getLast? with
    | none => exact parseLoop_holds data head 0 start (.inr empty)
    | some line =>
      have terminated := (complete line (whole ▸ mem_of_getLast? last)).1
      have refused : (linebufCopy head.len line data false).2.2 = 0 := by
        rw [linebufCopy, if_pos terminated]
      dsimp only
      rw [refused, if_neg (by decide)]
      exact parseLoop_holds data head 0 start (.inr empty)
  · subst closedLines isPart
    rw [whole, getLast?_concat]
    dsimp only
    rw [linebufCopy_consumed fresh, if_pos pos, pieces_cons none]
    let filledHead : BufHead :=
      { head with list := (done ++ [line]).dropLast ++ [(linebufCopy head.len line data false).2.1]
                  len := (linebufCopy head.len line data false).1 }
    have linked : filledHead.list = done ++ [(linebufCopy head.len line data false).2.1] := by
      simp only [filledHead, dropLast_concat]
    have filled := holds_of_copy complete none fresh received.2 linked
    dsimp only [feedAll]
    rw [← append_assoc]
    split
    next all =>
      rw [drop_eq_nil_of_le all, pieces_nil, feedAll, append_nil]
      exact filled
    next some_ =>
      apply parseLoop_holds (data.drop (linebufSkipCrlf data)) filledHead 1 filled
      by_cases more : data.drop (linebufSkipCrlf data) = []
      · exact .inl more
      · exact .inr (feed_closed_of_more more)

end LibOp.Linebuf

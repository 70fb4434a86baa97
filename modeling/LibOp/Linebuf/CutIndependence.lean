import LibOp.Linebuf.Segmentation

namespace LibOp.Linebuf

open List Nat

lemma linebufSize_pos : 0 < linebufSize := by decide

lemma visible_single (full : line.length = linebufSize) : visible [line] = [line] := by
  refine visible_cons ?_ []
  rintro rfl
  exact absurd full (by decide)

lemma visible_line (line : List UInt8) : visible [line] = if line = [] then [] else [line] := by
  cases line <;> rfl

section

/-- A piece of content `c` and line ends `r` of a safe line, behind the content `part`. -/
inductive Collected (part c r : List UInt8) : List UInt8 × List (List UInt8) → Prop where
  | closes {lines : List (List UInt8)} (hasEnd : r ≠ [])
      (shown : visible lines = if part ++ c = [] then [] else [(part ++ c).take linebufSize]) :
      Collected part c r ([], lines)
  | grows (noEnd : r = []) (room : (part ++ c).length ≤ linebufSize) : Collected part c r (part ++ c, [])
  | spills {lines : List (List UInt8)} (noEnd : r = []) (exceeds : linebufSize < (part ++ c).length)
      (shown : visible lines = [(part ++ c).take linebufSize]) : Collected part c r ([], lines)

/-- The content of a safe line is collected, its line ends are skipped, or what is past `LINEBUF_SIZE` bytes is
discarded. -/
structure BringsOut (ps : List (List UInt8)) : Prop where
  collect : ∀ part : List UInt8, part.length ≤ linebufSize → SafeFrom part.length 0 ps.flatten →
    visible (feedAll part ps).2 = linesFrom part ps.flatten
  skip : ∀ n m, 1 ≤ m → SafeFrom n m ps.flatten → visible (feedAll [] ps).2 = linesFrom [] ps.flatten
  spill : ∀ (part : List UInt8) n, linebufSize + 1 + part.length ≤ n → SafeFrom n 0 ps.flatten →
    visible (feedAll part ps).2 = linesFrom [] (ps.flatten.dropWhile fun b => !isCrlf b)

variable {part c r rest : List UInt8} {ps : List (List UInt8)}

lemma feed_collecting (fits : part.length ≤ linebufSize) (content : Content c) (ends : LineEnds r)
    (safe : SafeFrom part.length 0 (c ++ r ++ rest)) : Collected part c r (feed part (c ++ r)) := by
  rw [append_assoc, safeFrom_content content, safeFrom_ends ends, Nat.zero_add] at safe
  by_cases noEnd : r = []
  · subst noEnd
    by_cases room : (part ++ c).length ≤ linebufSize
    · rw [append_nil, feed_open content (by rwa [length_append] at room)]
      exact .grows rfl room
    · rw [length_append] at room
      rw [feed_overflow_content fits content (by omega) (by rw [append_nil]; omega)]
      refine .spills rfl (by rw [length_append]; omega) (visible_single ?_)
      rw [length_take, length_append]
      omega
  · have someEnd := length_pos_of_ne_nil noEnd
    have line := SafeFrom.lineSafe someEnd safe
    by_cases room : part.length + (c ++ r).length ≤ linebufSize
    · rw [feed_line noEnd content ends room]
      refine .closes noEnd ?_
      rw [length_append] at room
      rw [visible_line, take_of_length_le (by rw [length_append]; omega)]
    · rw [length_append] at room
      have full : linebufSize ≤ part.length + c.length := by
        by_contra short
        rw [LineSafe, if_pos (by omega)] at line
        omega
      have size : ((part ++ c).take linebufSize).length = linebufSize := by
        rw [length_take, length_append]
        omega
      have ne : part ++ c ≠ [] := by
        intro none
        have zero := congrArg List.length none
        have pos := linebufSize_pos
        rw [length_append, length_nil] at zero
        omega
      rw [feed_overflow_content fits content full (by rw [length_append]; omega)]
      refine .closes noEnd ?_
      rw [if_neg ne, visible_single size]

section

variable (later : BringsOut ps) (content : Content c) (ends : LineEnds r)

include later content ends

lemma BringsOut.collect_cons (fits : part.length ≤ linebufSize) (safe : SafeFrom part.length 0 (c ++ r ++ ps.flatten)) :
    visible (feedAll part ((c ++ r) :: ps)).2 = linesFrom part (c ++ r ++ ps.flatten) := by
  have outcome := feed_collecting fits content ends safe
  rw [append_assoc, safeFrom_content content, safeFrom_ends ends, Nat.zero_add] at safe
  rw [feedAll, visible_append, append_assoc, linesFrom_content content]
  generalize feed part (c ++ r) = fed at outcome ⊢
  cases outcome with
  | closes hasEnd shown => rw [shown, later.skip _ _ (length_pos_of_ne_nil hasEnd) safe, linesFrom_ends hasEnd ends]
  | grows noEnd room =>
    subst noEnd
    rw [← length_append] at safe
    rw [later.collect _ room safe]
    rfl
  | spills noEnd exceeds shown =>
    subst noEnd
    rw [← length_append] at safe
    rw [shown, later.spill [] _ exceeds safe, nil_append, linesFrom_long exceeds]
    rfl

lemma BringsOut.skip_cons (ne : c ++ r ≠ []) (started : 1 ≤ m) (safe : SafeFrom n m (c ++ r ++ ps.flatten)) :
    visible (feedAll [] ((c ++ r) :: ps)).2 = linesFrom [] (c ++ r ++ ps.flatten) := by
  by_cases noContent : c = []
  · subst noContent
    rw [nil_append] at ne safe ⊢
    rw [safeFrom_ends ends] at safe
    have line := (SafeFrom.lineSafe (by omega) safe).short
    rw [feedAll, feed_ends ne ends (by omega), visible_append, later.skip _ _ (by omega) safe, linesFrom_nil_ends ends]
    rfl
  · -- Content behind line ends starts the next line.
    rw [append_assoc] at safe
    have fresh := safeFrom_next started noContent content safe
    rw [← Nat.zero_add c.length, ← safeFrom_content content, ← append_assoc] at fresh
    exact later.collect_cons content ends (zero_le _) fresh

lemma BringsOut.spill_cons (ne : c ++ r ≠ []) (exceeds : linebufSize + 1 + part.length ≤ n)
    (safe : SafeFrom n 0 (c ++ r ++ ps.flatten)) :
    visible (feedAll part ((c ++ r) :: ps)).2 = linesFrom [] ((c ++ r ++ ps.flatten).dropWhile fun b => !isCrlf b) := by
  rw [append_assoc, safeFrom_content content, safeFrom_ends ends, Nat.zero_add] at safe
  by_cases noEnd : r = []
  · subst noEnd
    have bound : part.length + c.length ≤ linebufSize := by
      rw [append_nil] at ne
      have some_ := length_pos_of_ne_nil ne
      have long := SafeFrom.long (by omega) safe
      omega
    rw [append_nil, feedAll, feed_open content bound]
    rw [visible_append, later.spill (part ++ c) (n + c.length) (by rw [length_append]; omega) safe,
      dropWhile_append_of_pos fun b mem => by simp [content b mem]]
    rfl
  · -- A safe line that meets its end here is one byte too long, and that byte is already discarded.
    have started := length_pos_of_ne_nil noEnd
    have line := SafeFrom.lineSafe started safe
    have short := line.short
    obtain rfl : c = [] := eq_nil_of_length_eq_zero (by omega)
    obtain rfl : part = [] := eq_nil_of_length_eq_zero (by omega)
    have exact_ : n = linebufSize + 1 := by omega
    rw [length_nil, Nat.add_zero, exact_, LineSafe, if_neg (by omega), if_neg (by omega), if_pos rfl] at line
    have kept : (r ++ ps.flatten).dropWhile (fun b => !isCrlf b) = r ++ ps.flatten := by
      cases r with
      | nil => exact absurd rfl noEnd
      | cons b r => simp [ends b mem_cons_self]
    rw [nil_append, feedAll, feed_ends noEnd ends line, visible_append, later.skip _ _ started safe, kept,
      linesFrom_nil_ends ends]
    rfl

end

lemma feedAll_safe (ps : List (List UInt8)) (arePieces : ∀ piece ∈ ps, IsPiece piece) : BringsOut ps := by
  induction ps with
  | nil =>
    refine ⟨fun part fits _ => ?_, fun _ _ _ _ => rfl, fun _ _ _ _ => rfl⟩
    rw [flatten_nil, linesFrom, if_neg (not_lt.mpr fits)]
    rfl
  | cons piece ps ih =>
    have later := ih (forall_mem_cons.mp arePieces).2
    obtain ⟨c, r, rfl, content, ends, ne⟩ := arePieces piece mem_cons_self
    exact ⟨fun _ fits safe => later.collect_cons content ends fits safe,
      fun _ _ started safe => later.skip_cons content ends ne started safe,
      fun _ _ exceeds safe => later.spill_cons content ends ne exceeds safe⟩

end

section

variable {c r rest : List UInt8}

lemma isPiece_content (content : Content c) (ne : c ≠ []) : IsPiece c :=
  ⟨c, [], (append_nil c).symm, content, lineEnds_nil, ne⟩

lemma isPiece_ends (ends : LineEnds r) (ne : r ≠ []) : IsPiece r :=
  ⟨[], r, rfl, content_nil, ends, ne⟩

lemma isPiece_line (content : Content c) (ends : LineEnds r) (ne : r ≠ []) : IsPiece (c ++ r) :=
  ⟨c, r, rfl, content, ends, by simp [ne]⟩

def singles (stream : List UInt8) : List (List UInt8) := stream.map fun b => [b]

lemma singles_flatten (stream : List UInt8) : (singles stream).flatten = stream := by
  induction stream with
  | nil => rfl
  | cons b stream ih => simp_all [singles]

lemma singles_isPiece (stream : List UInt8) : ∀ piece ∈ singles stream, IsPiece piece := by
  intro piece mem
  obtain ⟨b, -, rfl⟩ := List.mem_map.mp mem
  cases lineEnd : isCrlf b with
  | false => exact isPiece_content (by simp [Content, lineEnd]) (by simp)
  | true => exact isPiece_ends (by simp [LineEnds, lineEnd]) (by simp)

lemma feedAll_single_ends (ends : LineEnds r) :
    (feedAll [] (singles r)).1 = [] ∧ visible (feedAll [] (singles r)).2 = [] := by
  induction r with
  | nil => exact ⟨rfl, rfl⟩
  | cons b r ih =>
    have one : LineEnds [b] := fun x mem => ends x (by simp_all)
    have fed := feed_ends (by simp) one linebufSize_pos
    have later := ih (forall_mem_cons.mp ends).2
    simp only [singles, map_cons, feedAll, fed]
    exact later

def Diverge (stream : List UInt8) : Prop :=
  ∃ p q, (∀ piece ∈ p, IsPiece piece) ∧ (∀ piece ∈ q, IsPiece piece) ∧ p.flatten = stream ∧
    q.flatten = stream ∧ (feedAll [] p).1 = [] ∧ (feedAll [] q).1 = [] ∧
    visible (feedAll [] p).2 ≠ visible (feedAll [] q).2

lemma feed_overflow_visible (piece : List UInt8) (exceeds : linebufSize < piece.length) :
    (feed [] piece).1 = [] ∧ (visible (feed [] piece).2).length = 1 := by
  obtain ⟨line, fed, size⟩ := feed_overflow [] piece (zero_le _) (by simpa using exceeds)
  rw [fed, visible_single size]
  exact ⟨rfl, rfl⟩

lemma feed_terminates (content : Content c) (ends : LineEnds r) (ne : r ≠ []) (some_ : c ≠ []) :
    (feed [] (c ++ r)).1 = [] ∧ (visible (feed [] (c ++ r)).2).length = 1 := by
  by_cases exceeds : linebufSize < (c ++ r).length
  · exact feed_overflow_visible (c ++ r) exceeds
  · have room : ([] : List UInt8).length + (c ++ r).length ≤ linebufSize := by
      rw [length_nil]
      omega
    rw [feed_line ne content ends room, nil_append, visible_cons some_]
    exact ⟨rfl, rfl⟩

lemma diverge_of_two {first second : List UInt8} (isFirst : IsPiece first) (isSecond : IsPiece second)
    (isWhole : IsPiece (first ++ second)) (one : (feed [] first).1 = [] ∧ (visible (feed [] first).2).length = 1)
    (other : (feed [] second).1 = [] ∧ (visible (feed [] second).2).length = 1)
    (whole : (feed [] (first ++ second)).1 = [] ∧ (visible (feed [] (first ++ second)).2).length = 1) :
    Diverge (first ++ second) := by
  refine ⟨[first ++ second], [first, second], by simp [isWhole], by simp [isFirst, isSecond], by simp,
    by simp, whole.1, ?_, fun same => ?_⟩
  · simp [feedAll, one.1, other.1]
  · have lengths := congrArg List.length same
    simp only [feedAll, one.1, visible_append, length_append, whole.2, one.2, other.2] at lengths
    exact absurd lengths (by decide)

lemma Content.halves (content : Content c) (long : linebufSize < c.length) :
    Content (c.take (linebufSize + 1)) ∧ (c.take (linebufSize + 1)).length = linebufSize + 1 ∧
      Content (c.drop (linebufSize + 1)) := by
  refine ⟨fun x mem => content x (mem_of_mem_take mem), ?_, fun x mem => content x (mem_of_mem_drop mem)⟩
  rw [length_take]
  omega

lemma diverge_of_not_lineSafe (content : Content c) (ends : LineEnds r) (ne : r ≠ [])
    (unsafe_ : ¬ LineSafe c.length r.length) : Diverge (c ++ r) := by
  have size := linebufSize_pos
  have isWhole := isPiece_line content ends ne
  obtain ⟨b, r', rfl⟩ := exists_cons_of_ne_nil ne
  have oneEnd : LineEnds [b] := fun x mem => ends x (by simp_all)
  have moreEnds : LineEnds r' := (forall_mem_cons.mp ends).2
  have regroup : c ++ b :: r' = (c ++ [b]) ++ r' := by simp
  unfold LineSafe at unsafe_
  split_ifs at unsafe_ with short exact_ next
  · -- The line ends overflow: in one piece zero bytes pad the line, byte by byte they do not.
    obtain ⟨line, fed, full⟩ := feed_overflow [] (c ++ b :: r') (zero_le _) (by
      rw [length_nil, length_append]
      omega)
    have room : ([] : List UInt8).length + (c ++ [b]).length ≤ linebufSize := by simp; omega
    have first := feed_line (by simp) content oneEnd room
    obtain ⟨tailPart, tailLines⟩ := feedAll_single_ends moreEnds
    refine ⟨[c ++ b :: r'], (c ++ [b]) :: singles r', by simp [isWhole], ?_, by simp,
      by simp [singles_flatten], by simp [feedAll, fed], by simp [feedAll, first, tailPart], ?_⟩
    · exact List.forall_mem_cons.mpr ⟨isPiece_line content oneEnd (by simp), singles_isPiece r'⟩
    · simp only [feedAll, fed, first, visible_append, tailLines, append_nil, nil_append,
        visible_single full, visible_line]
      intro same
      split at same
      · cases same
      · rw [(List.cons.inj same).1] at full
        omega
  · rw [regroup]
    have enough : linebufSize < r'.length := by
      rw [length_cons] at unsafe_
      omega
    have someMore : r' ≠ [] := ne_nil_of_length_pos (by omega)
    exact diverge_of_two (isPiece_line content oneEnd (by simp)) (isPiece_ends moreEnds someMore)
      (regroup ▸ isWhole) (feed_overflow_visible _ (by simp; omega)) (feed_overflow_visible _ enough)
      (feed_overflow_visible _ (by simp; omega))
  · have someContent : c ≠ [] := ne_nil_of_length_pos (by omega)
    exact diverge_of_two (isPiece_content content someContent) (isPiece_ends ends ne) isWhole
      (feed_overflow_visible _ (by omega)) (feed_overflow_visible _ (by omega))
      (feed_overflow_visible _ (by simp; omega))
  · have cut : c ++ b :: r' = c.take (linebufSize + 1) ++ (c.drop (linebufSize + 1) ++ b :: r') := by
      rw [← append_assoc, take_append_drop]
    obtain ⟨front, frontLen, back⟩ := content.halves (by omega)
    have someBack : c.drop (linebufSize + 1) ≠ [] := ne_nil_of_length_pos (by rw [length_drop]; omega)
    rw [cut]
    exact diverge_of_two (isPiece_content front (ne_nil_of_length_pos (by omega)))
      (isPiece_line back ends ne) (cut ▸ isWhole) (feed_overflow_visible _ (by omega))
      (feed_terminates back ends ne someBack)
      (feed_overflow_visible _ (by rw [← cut, length_append]; omega))

lemma diverge_final (content : Content c) (long : ¬ c.length ≤ 2 * linebufSize + 1) : Diverge c := by
  obtain ⟨front, frontLen, back⟩ := content.halves (by omega)
  have backLen : linebufSize < (c.drop (linebufSize + 1)).length := by
    rw [length_drop]
    omega
  rw [← take_append_drop (linebufSize + 1) c]
  exact diverge_of_two (isPiece_content front (ne_nil_of_length_pos (by omega)))
    (isPiece_content back (ne_nil_of_length_pos (by omega)))
    (isPiece_content (front.append back) (ne_nil_of_length_pos (by rw [length_append]; omega)))
    (feed_overflow_visible _ (by omega)) (feed_overflow_visible _ backLen)
    (feed_overflow_visible _ (by rw [length_append]; omega))

def Differ (stream : List UInt8) : Prop :=
  ∃ p q, (∀ piece ∈ p, IsPiece piece) ∧ (∀ piece ∈ q, IsPiece piece) ∧ p.flatten = stream ∧
    q.flatten = stream ∧ visible (feedAll [] p).2 ≠ visible (feedAll [] q).2

lemma Diverge.differ (diverge : Diverge c) (rest : List UInt8) : Differ (c ++ rest) := by
  obtain ⟨p, q, areP, areQ, flatP, flatQ, endP, endQ, different⟩ := diverge
  refine ⟨p ++ singles rest, q ++ singles rest, ?_, ?_, by simp [flatP, singles_flatten],
    by simp [flatQ, singles_flatten], fun same => different ?_⟩
  · intro piece mem
    exact (List.mem_append.mp mem).elim (areP piece) (singles_isPiece rest piece)
  · intro piece mem
    exact (List.mem_append.mp mem).elim (areQ piece) (singles_isPiece rest piece)
  · simp only [feedAll_append, visible_append, endP, endQ] at same
    exact append_cancel_right same

lemma Differ.behind (content : Content c) (ends : LineEnds r) (ne : r ≠ []) (differ : Differ rest) :
    Differ (c ++ r ++ rest) := by
  obtain ⟨p, q, areP, areQ, flatP, flatQ, different⟩ := differ
  have isLine := isPiece_line content ends ne
  have closed : (feed [] (c ++ r)).1 = [] := by
    by_cases exceeds : linebufSize < (c ++ r).length
    · exact (feed_overflow_visible _ exceeds).1
    · have room : ([] : List UInt8).length + (c ++ r).length ≤ linebufSize := by
        rw [length_nil]
        omega
      rw [feed_line ne content ends room]
  refine ⟨(c ++ r) :: p, (c ++ r) :: q, ?_, ?_, by simp [flatP], by simp [flatQ], fun same => different ?_⟩
  · exact List.forall_mem_cons.mpr ⟨isLine, areP⟩
  · exact List.forall_mem_cons.mpr ⟨isLine, areQ⟩
  · simp only [feedAll, visible_append, closed] at same
    exact append_cancel_left same

lemma differ_of_unsafe (rest : List UInt8) (content : Content c) (ends : LineEnds r)
    (bad : ¬ SafeFrom c.length r.length rest) : Differ (c ++ r ++ rest) := by
  induction rest generalizing c r with
  | nil =>
    rw [SafeFrom] at bad
    split at bad
    next noEnd =>
      obtain rfl := eq_nil_of_length_eq_zero noEnd
      rw [append_nil]
      exact (diverge_final content bad).differ []
    next hasEnd =>
      have ne : r ≠ [] := fun none => hasEnd (none ▸ rfl)
      exact (diverge_of_not_lineSafe content ends ne bad).differ []
  | cons b rest ih =>
    rw [SafeFrom] at bad
    split at bad
    next lineEnd =>
      have longer : LineEnds (r ++ [b]) := List.forall_mem_append.mpr ⟨ends, List.forall_mem_singleton.mpr lineEnd⟩
      have differ := ih content longer (by rwa [length_append, length_singleton])
      simpa using differ
    next plain =>
      have one : Content [b] := by
        intro x mem
        rw [List.mem_singleton.mp mem]
        exact Bool.of_not_eq_true plain
      split at bad
      next noEnd =>
        obtain rfl := eq_nil_of_length_eq_zero noEnd
        have differ := ih (content.append one) lineEnds_nil (by rwa [length_append, length_singleton])
        simpa using differ
      next hasEnd =>
        have ne : r ≠ [] := fun none => hasEnd (none ▸ rfl)
        by_cases line : LineSafe c.length r.length
        · exact Differ.behind content ends ne (ih one lineEnds_nil fun safe => bad ⟨line, safe⟩)
        · exact (diverge_of_not_lineSafe content ends ne line).differ (b :: rest)

end

lemma newbuf_holds : Holds linebufNewbuf [] [] :=
  ⟨[], rfl, fun _ mem => absurd mem not_mem_nil, .inl ⟨rfl, rfl⟩⟩

lemma chunks_parse (ps : List (List UInt8)) : chunks (ps.map .parse) = ps := by
  induction ps with
  | nil => rfl
  | cons p ps ih => rw [map_cons, chunks, ih]

lemma flatMap_pieces_flatten (cs : List (List UInt8)) : (cs.flatMap pieces).flatten = cs.flatten := by
  induction cs with
  | nil => rfl
  | cons chunk cs ih => rw [flatMap_cons, flatten_append, pieces_flatten, ih, flatten_cons]

variable {ps : List (List UInt8)}

lemma flatMap_pieces_of_isPiece (arePieces : ∀ piece ∈ ps, IsPiece piece) : ps.flatMap pieces = ps := by
  induction ps with
  | nil => rfl
  | cons p ps ih =>
    rw [flatMap_cons, pieces_of_isPiece (arePieces p mem_cons_self), ih (forall_mem_cons.mp arePieces).2]
    rfl

lemma receive_pieces (large : linebufSize < buflen) (arePieces : ∀ piece ∈ ps, IsPiece piece) :
    receive buflen linebufNewbuf (ps.map .parse) = some (visible (feedAll [] ps).2) := by
  rw [receive_eq large _ newbuf_holds, chunks_parse, flatMap_pieces_of_isPiece arePieces]
  rfl

/-- The received lines are a function of the stream exactly when all its lines are safe. -/
theorem received_lines_independent_iff (stream : List UInt8) :
    (∃ lines, ∀ buflen events, linebufSize < buflen → Cuts stream events →
      receive buflen linebufNewbuf events = some lines) ↔ SafeFrom 0 0 stream := by
  constructor
  · rintro ⟨lines, same⟩
    by_contra bad
    obtain ⟨p, q, areP, areQ, flatP, flatQ, different⟩ := differ_of_unsafe stream content_nil lineEnds_nil bad
    have large : linebufSize < linebufSize + 1 := lt_succ_self _
    have cut : ∀ ps : List (List UInt8), (∀ piece ∈ ps, IsPiece piece) → ps.flatten = stream →
        some (visible (feedAll [] ps).2) = some lines := by
      intro ps arePieces flat
      rw [← receive_pieces large arePieces]
      refine same _ _ large ⟨by rw [chunks_parse, flat], fun chunk mem => ?_⟩
      rw [chunks_parse] at mem
      obtain ⟨c, r, -, -, -, ne⟩ := arePieces chunk mem
      exact ne
    exact different (Option.some.inj ((cut p areP flatP).trans (cut q areQ flatQ).symm))
  · intro safe
    refine ⟨linesFrom [] stream, fun buflen events large cuts => ?_⟩
    have arePieces : ∀ piece ∈ (chunks events).flatMap pieces, IsPiece piece := by
      intro piece mem
      obtain ⟨chunk, -, inChunk⟩ := List.mem_flatMap.mp mem
      exact pieces_isPiece chunk piece inChunk
    have flat : ((chunks events).flatMap pieces).flatten = stream := by rw [flatMap_pieces_flatten, cuts.1]
    have lines := (feedAll_safe _ arePieces).collect [] (zero_le _) (by rwa [flat])
    rw [receive_eq large events newbuf_holds, lines, flat]
    rfl

/-- A line two bytes too long is cut off when read at once; in two chunks, its last byte is a line of its own. -/
theorem received_lines_depend_on_cut :
    let line := List.replicate (linebufSize + 2) (65 : UInt8) ++ [10]
    let once := [LineEvent.parse line]
    let twice := [LineEvent.parse (List.replicate (linebufSize + 1) 65), .parse [65, 10]]
    Cuts line once ∧ Cuts line twice ∧
      receive (linebufSize + 1) linebufNewbuf once = some [List.replicate linebufSize 65] ∧
      receive (linebufSize + 1) linebufNewbuf twice = some [List.replicate linebufSize 65, [65]] := by
  have letters : ∀ n, Content (List.replicate n 65) := by
    intro n b mem
    rw [eq_of_mem_replicate mem]
    decide
  have newline : LineEnds [10] := by
    intro b mem
    rw [List.mem_singleton.mp mem]
    decide
  have large : linebufSize < linebufSize + 1 := lt_succ_self _
  have split : List.replicate (linebufSize + 2) (65 : UInt8) ++ [10] =
      List.replicate (linebufSize + 1) 65 ++ [65, 10] := by
    rw [show linebufSize + 2 = linebufSize + 1 + 1 from rfl, replicate_succ']
    simp
  have full : visible [List.replicate linebufSize (65 : UInt8)] = [List.replicate linebufSize 65] :=
    visible_single length_replicate
  have onceFed : feed [] (List.replicate (linebufSize + 2) 65 ++ [10]) =
      ([], [List.replicate linebufSize 65]) := by
    rw [feed_overflow_content (zero_le _) (letters _) (by rw [length_replicate]; omega)
      (by rw [length_append, length_replicate]; omega)]
    simp
  have firstFed : feed [] (List.replicate (linebufSize + 1) 65) = ([], [List.replicate linebufSize 65]) := by
    rw [← append_nil (List.replicate (linebufSize + 1) 65),
      feed_overflow_content (zero_le _) (letters _) (by simp) (by simp)]
    simp
  have secondFed : feed [] [65, 10] = ([], [[65]]) := by decide
  intro line once twice
  refine ⟨⟨by simp [once, line, chunks], by simp [once, line, chunks]⟩,
    ⟨by simp [twice, line, chunks, split], by simp [twice, chunks]⟩, ?_, ?_⟩
  · have isLine : ∀ piece ∈ [line], IsPiece piece := by simpa using isPiece_line (letters _) newline (by simp)
    have received := receive_pieces large isLine
    simp only [feedAll, line, onceFed, append_nil, full] at received
    exact received
  · have arePieces : ∀ piece ∈ [List.replicate (linebufSize + 1) (65 : UInt8), [65, 10]], IsPiece piece := by
      have first := isPiece_content (letters (linebufSize + 1)) (by simp)
      have second := isPiece_line (letters 1) newline (by simp)
      simpa using ⟨first, second⟩
    have received := receive_pieces large arePieces
    simp only [feedAll, firstFed, secondFed, visible_append, append_nil, full] at received
    exact received

end LibOp.Linebuf

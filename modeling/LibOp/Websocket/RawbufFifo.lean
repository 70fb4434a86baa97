import LibOp.Websocket.Rawbuf

namespace LibOp.Websocket

open List

inductive RawbufCall where
  | append (data : List UInt8)
  | get (len : Nat)
  | flush (ssl : Bool) (sock : SockResult)
  | length
deriving DecidableEq

/-- A buffer with what was appended to it and what was taken out of it. -/
structure RawbufRun where
  rb : RawbufHead
  appended : List UInt8
  taken : List UInt8
deriving DecidableEq

def RawbufRun.start : RawbufRun := ⟨newRawbuffer, [], []⟩

def rawbufStep (s : RawbufRun) : RawbufCall → RawbufRun
  | .append data => { s with rb := rawbufAppend s.rb data, appended := s.appended ++ data }
  | .get len => { s with rb := (rawbufGet s.rb len).1, taken := s.taken ++ (rawbufGet s.rb len).2 }
  | .flush ssl sock =>
    { s with rb := (rawbufFlush s.rb ssl sock).1, taken := s.taken ++ (rawbufFlush s.rb ssl sock).2.1 }
  | .length => { s with rb := rawbufHeal s.rb }

/-- The head from the offset `written`, and the chunks behind it. -/
def RawbufHead.buffered (rb : RawbufHead) : List UInt8 :=
  match rb.list with
  | [] => []
  | buf :: rest => buf.data.drop rb.written ++ rest.flatMap (·.data)

def RawbufHead.Anchored (rb : RawbufHead) : Prop :=
  rb.written = 0 ∨ ∃ buf rest, rb.list = buf :: rest ∧ buf.flushing = true

lemma anchored_of_flushing (buf : RawbufChunk) (rest : List RawbufChunk) (len written : Nat) :
    (⟨{ buf with flushing := true } :: rest, len, written⟩ : RawbufHead).Anchored :=
  .inr ⟨{ buf with flushing := true }, rest, rfl, rfl⟩

variable {rb : RawbufHead}

lemma rawbufHeal_eq (valid : rb.Valid) : rawbufHeal rb = rb := by
  rw [rawbufHeal, if_neg]
  rintro ⟨none, some⟩
  have empty := eq_nil_of_length_eq_zero none
  rw [valid.counted, RawbufHead.pending, empty] at some
  exact some rfl

lemma RawbufHead.Valid.pending_eq_buffered (valid : rb.Valid) (anchored : rb.Anchored) : rb.pending = rb.buffered := by
  obtain ⟨list, len, written⟩ := rb
  cases list with
  | nil => rfl
  | cons buf rest =>
    rw [valid.pending_cons, RawbufHead.buffered]
    rcases anchored with zero | ⟨_, _, same, flushing⟩
    · rw [show written = 0 from zero, ite_self]
    · rw [(List.cons.inj same).1, if_pos flushing]

lemma rawbufGet_cons {total written : Nat}
    (anchored : (⟨buf :: rest, total, written⟩ : RawbufHead).Anchored) (len : Nat) :
    rawbufGet ⟨buf :: rest, total, written⟩ len = if len < buf.data.length - written then
        (⟨⟨buf.data, true⟩ :: rest, total - len, written + len⟩, (buf.data.drop written).take len)
      else (⟨rest, total - (buf.data.length - written), 0⟩, buf.data.drop written) := by
  have uniform : (buf.flushing = true ∨ written = 0) := by
    rcases anchored with zero | ⟨_, _, same, flushing⟩
    · exact .inr zero
    · rw [(List.cons.inj same).1]
      exact .inl flushing
  have available : (if buf.flushing then buf.data.length - written else buf.data.length) =
      buf.data.length - written := by
    rcases uniform with flushing | rfl
    · rw [if_pos flushing]
    · exact ite_self _
  have src : (if buf.flushing then buf.data.drop written else buf.data) = buf.data.drop written := by
    rcases uniform with flushing | rfl
    · rw [if_pos flushing]
    · exact ite_self _
  simp only [rawbufGet, available, src]
  by_cases partly : len < buf.data.length - written
  · rw [if_pos partly, if_neg (show ¬ len > buf.data.length - written by omega), if_neg (by omega)]
  · have all : (if len > buf.data.length - written then buf.data.length - written else len) =
        buf.data.length - written := by
      split <;> omega
    rw [if_neg partly, all, if_pos rfl, take_of_length_le (Nat.le_of_eq length_drop)]

lemma rawbufGet_spec (valid : rb.Valid) (anchored : rb.Anchored) (len : Nat) :
    (rawbufGet rb len).1.Valid ∧ (rawbufGet rb len).2 ++ (rawbufGet rb len).1.pending = rb.pending := by
  obtain ⟨list, total, written⟩ := rb
  cases list with
  | nil => exact ⟨valid, rfl⟩
  | cons buf rest =>
    have fresh := valid.tail_fresh
    have counted : total = (buf.data.drop written ++ rest.flatMap (·.data)).length := by
      rw [show total = _ from valid.counted, valid.pending_eq_buffered anchored, RawbufHead.buffered]
    rw [valid.pending_eq_buffered anchored, RawbufHead.buffered]
    have sizes := counted
    rw [length_append, length_drop] at sizes
    rw [rawbufGet_cons anchored]
    split
    next partly =>
      have parts := valid_of_partial buf.data (total - len) (show written + len < _ by omega) fresh (by
        rw [length_append, length_drop]
        omega)
      refine ⟨parts.1, ?_⟩
      rw [parts.2, ← append_assoc, ← drop_drop, take_append_drop]
    next all =>
      have rests := valid_of_fresh (total - (buf.data.length - written)) 0 fresh (by omega)
      exact ⟨rests.1, by rw [rests.2]⟩

lemma rawbufGet_anchored (anchored : rb.Anchored) (len : Nat) : (rawbufGet rb len).1.Anchored := by
  obtain ⟨list, total, written⟩ := rb
  cases list with
  | nil => exact anchored
  | cons buf rest =>
    rw [rawbufGet_cons anchored]
    split
    · exact anchored_of_flushing _ _ _ _
    · exact .inl rfl

lemma rawbufAppend_anchored (anchored : rb.Anchored) (data : List UInt8) : (rawbufAppend rb data).Anchored := by
  obtain ⟨list, len, written⟩ := rb
  rcases anchored with zero | ⟨buf, rest, same, flushing⟩
  · left
    simp only [rawbufAppend]
    split
    · exact zero
    · split <;> exact zero
  · cases same
    right
    rcases eq_nil_or_concat rest with rfl | ⟨front, tail, rfl⟩
    · simp [rawbufAppend, flushing]
    · simp only [rawbufAppend, concat_eq_append, ← cons_append, getLast?_concat, dropLast_concat]
      split
      · exact ⟨buf, _, rfl, flushing⟩
      · exact ⟨buf, _, rfl, flushing⟩

lemma advance_anchored (list : List RawbufChunk) (sxret len written : Nat)
    (anchored : (⟨list, len, written⟩ : RawbufHead).Anchored) : (advance sxret list len written).Anchored := by
  induction list generalizing sxret len written with
  | nil => exact anchored
  | cons buf rest ih =>
    rw [advance]
    split
    next flushing =>
      dsimp only
      split
      · exact ih _ _ _ (.inl rfl)
      · exact .inr ⟨buf, rest, rfl, flushing⟩
    next fresh =>
      split
      · apply ih
        rcases anchored with zero | ⟨_, _, same, flushing⟩
        · exact .inl zero
        · rw [← (List.cons.inj same).1] at flushing
          exact absurd flushing fresh
      · exact anchored_of_flushing _ _ _ _

lemma rawbufFlush_anchored (anchored : rb.Anchored) (ssl : Bool) (sock : SockResult) :
    (rawbufFlush rb ssl sock).1.Anchored := by
  obtain ⟨list, len, written⟩ := rb
  cases list with
  | nil => exact anchored
  | cons buf rest =>
    cases ssl with
    | false =>
      simp only [rawbufFlush, Bool.not_false, if_true, rawbufFlushWritev]
      cases sock with
      | wouldBlock | failed => exact anchored
      | accepted n =>
        dsimp only
        split
        · exact anchored
        · exact advance_anchored _ _ _ _ anchored
    | true =>
      simp only [rawbufFlush, Bool.not_true, Bool.false_eq_true, if_false]
      generalize (if buf.flushing = true then written else 0) = offset
      cases sock with
      | wouldBlock | failed => exact anchored_of_flushing _ _ _ _
      | accepted n =>
        dsimp only
        split
        · exact anchored_of_flushing _ _ _ _
        · split
          · exact .inl rfl
          · exact anchored_of_flushing _ _ _ _

structure RawbufRun.Sound (s : RawbufRun) : Prop where
  valid : s.rb.Valid
  anchored : s.rb.Anchored
  fifo : s.taken ++ s.rb.pending = s.appended

lemma RawbufRun.Sound.step (sound : s.Sound) (call : RawbufCall) : (rawbufStep s call).Sound := by
  cases call with
  | append data =>
    obtain ⟨valid, pending⟩ := rawbufAppend_spec sound.valid data
    refine ⟨valid, rawbufAppend_anchored sound.anchored data, ?_⟩
    rw [rawbufStep, pending, ← append_assoc, sound.fifo]
  | get len =>
    obtain ⟨valid, pending⟩ := rawbufGet_spec sound.valid sound.anchored len
    refine ⟨valid, rawbufGet_anchored sound.anchored len, ?_⟩
    rw [rawbufStep, append_assoc, pending, sound.fifo]
  | flush ssl sock =>
    obtain ⟨valid, pending⟩ := rawbufFlush_spec sound.valid ssl sock
    refine ⟨valid, rawbufFlush_anchored sound.anchored ssl sock, ?_⟩
    rw [rawbufStep, append_assoc, pending, sound.fifo]
  | length =>
    rw [rawbufStep, rawbufHeal_eq sound.valid]
    exact sound

lemma RawbufRun.Sound.run (calls : List RawbufCall) : (calls.foldl rawbufStep .start).Sound := by
  have initial : RawbufRun.start.Sound := ⟨newRawbuffer_valid, .inl rfl, rfl⟩
  exact List.foldlRecOn calls rawbufStep initial fun _ sound call _ => sound.step call

/-- Over appends, reads and flushes with any partial writes the bytes come out in order, and the length counts those
inside. -/
theorem rawbuf_is_fifo (calls : List RawbufCall) :
    (calls.foldl rawbufStep .start).taken ++ (calls.foldl rawbufStep .start).rb.buffered =
        (calls.foldl rawbufStep .start).appended ∧
      rawbufLength (calls.foldl rawbufStep .start).rb = (calls.foldl rawbufStep .start).rb.buffered.length := by
  have sound := RawbufRun.Sound.run calls
  rw [← sound.valid.pending_eq_buffered sound.anchored, rawbufLength, rawbufHeal_eq sound.valid]
  exact ⟨sound.fifo, sound.valid.counted⟩

end LibOp.Websocket

import Mathlib

namespace LibOp.Websocket

open List

def rawbufSize : Nat := 4096

/-- `OP_UIO_MAXIOV` on Linux. -/
def uioMaxiov : Nat := 1024

/-- `rawbuf_t`: the bytes of `data` up to `len`. -/
structure RawbufChunk where
  data : List UInt8
  flushing : Bool
deriving DecidableEq

structure RawbufHead where
  list : List RawbufChunk
  len : Nat
  written : Nat
deriving DecidableEq

/-- What the socket does with the bytes that one call offers to it. -/
inductive SockResult where
  | accepted (n : Nat)
  | wouldBlock
  | failed
deriving DecidableEq

/-- The bytes written, `-1` with an `errno` that `op_ignore_errno` ignores, or `-1` with another one. -/
inductive FlushResult where
  | wrote (n : Nat)
  | again
  | error
deriving DecidableEq

def newRawbuffer : RawbufHead := ⟨[], 0, 0⟩

/-- The consistency check of `op_rawbuf_length`. -/
def rawbufHeal (rb : RawbufHead) : RawbufHead :=
  if rb.list.length = 0 ∧ rb.len ≠ 0 then { rb with len := 0 } else rb

def rawbufLength (rb : RawbufHead) : Nat := (rawbufHeal rb).len

/-- The loop of `op_rawbuf_append`: a chunk for every `RAWBUF_SIZE` bytes. -/
def newChunks : Nat → List UInt8 → List RawbufChunk
  | 0, _ => []
  | rounds + 1, data =>
    if data = [] then [] else ⟨data.take rawbufSize, false⟩ :: newChunks rounds (data.drop rawbufSize)

def rawbufAppend (rb : RawbufHead) (data : List UInt8) : RawbufHead :=
  match rb.list.getLast? with
  | none => { rb with list := newChunks data.length data, len := rb.len + data.length }
  | some tail =>
    if tail.data.length < rawbufSize ∧ tail.flushing = false then
      let space := rawbufSize - tail.data.length
      let filled := { tail with data := tail.data ++ data.take space }
      { rb with list := rb.list.dropLast ++ [filled] ++ newChunks data.length (data.drop space)
                len := rb.len + data.length }
    else { rb with list := rb.list ++ newChunks data.length data, len := rb.len + data.length }

def unwritten (written : Nat) (buf : RawbufChunk) : List UInt8 :=
  if buf.flushing then buf.data.drop written else buf.data

/-- The loop of `op_rawbuf_flush_writev` over the written chunks. -/
def advance : Nat → List RawbufChunk → Nat → Nat → RawbufHead
  | _, [], len, written => ⟨[], len, written⟩
  | sxret, buf :: rest, len, written =>
    if buf.flushing then
      let remaining := buf.data.length - written
      if sxret ≥ remaining then advance (sxret - remaining) rest (len - remaining) 0
      else ⟨buf :: rest, len - sxret, written + sxret⟩
    else if sxret ≥ buf.data.length then
      advance (sxret - buf.data.length) rest (len - buf.data.length) written
    else ⟨{ buf with flushing := true } :: rest, len - sxret, sxret⟩

def rawbufFlushWritev (rb : RawbufHead) (sock : SockResult) : RawbufHead × List UInt8 × FlushResult :=
  match sock with
  | .wouldBlock => (rb, [], .again)
  | .failed => (rb, [], .error)
  | .accepted n =>
    let vec := (rb.list.take uioMaxiov).flatMap (unwritten rb.written)
    let retval := min n vec.length
    if retval = 0 then (rb, [], .wrote 0)
    else (advance retval rb.list rb.len rb.written, vec.take retval, .wrote retval)

def rawbufFlush (rb : RawbufHead) (ssl : Bool) (sock : SockResult) : RawbufHead × List UInt8 × FlushResult :=
  match rb.list with
  | [] => (rb, [], .again)
  | buf :: rest =>
    if !ssl then rawbufFlushWritev rb sock
    else
      let written := if buf.flushing then rb.written else 0
      let flushing : RawbufHead := ⟨{ buf with flushing := true } :: rest, rb.len, written⟩
      match sock with
      | .wouldBlock => (flushing, [], .again)
      | .failed => (flushing, [], .error)
      | .accepted n =>
        let offered := buf.data.drop written
        let retval := min n offered.length
        if retval = 0 then (flushing, [], .wrote 0)
        else if written + retval = buf.data.length then
          (⟨rest, rb.len - retval, 0⟩, offered.take retval, .wrote retval)
        else (⟨{ buf with flushing := true } :: rest, rb.len - retval, written + retval⟩,
          offered.take retval, .wrote retval)

def rawbufGet (rb : RawbufHead) (len : Nat) : RawbufHead × List UInt8 :=
  match rb.list with
  | [] => (rb, [])
  | buf :: rest =>
    let available := if buf.flushing then buf.data.length - rb.written else buf.data.length
    let cpylen := if len > available then available else len
    let src := if buf.flushing then buf.data.drop rb.written else buf.data
    if cpylen = available then (⟨rest, rb.len - cpylen, 0⟩, src.take cpylen)
    else (⟨{ buf with flushing := true } :: rest, rb.len - cpylen, rb.written + cpylen⟩, src.take cpylen)

def RawbufHead.pending (rb : RawbufHead) : List UInt8 := rb.list.flatMap (unwritten rb.written)

/-- Only the head is partly written, no chunk is used up, the length is right. -/
structure RawbufHead.Valid (rb : RawbufHead) : Prop where
  behind : ∀ buf ∈ rb.list.tail, buf.flushing = false
  left : ∀ buf ∈ rb.list, unwritten rb.written buf ≠ []
  counted : rb.len = rb.pending.length

lemma newRawbuffer_valid : newRawbuffer.Valid :=
  ⟨fun _ mem => absurd mem not_mem_nil, fun _ mem => absurd mem not_mem_nil, rfl⟩

lemma newChunks_spec {data : List UInt8} (enough : data.length ≤ rounds) :
    (newChunks rounds data).flatMap (·.data) = data ∧
      ∀ buf ∈ newChunks rounds data, buf.flushing = false ∧ buf.data ≠ [] := by
  induction rounds generalizing data with
  | zero =>
    rw [eq_nil_of_length_eq_zero (Nat.le_zero.mp enough)]
    exact ⟨rfl, fun _ mem => absurd mem not_mem_nil⟩
  | succ rounds ih =>
    by_cases none : data = []
    · rw [newChunks, if_pos none]
      exact ⟨none.symm, fun _ mem => absurd mem not_mem_nil⟩
    · have size : 0 < rawbufSize := by decide
      obtain ⟨content, fresh⟩ := ih (show (data.drop rawbufSize).length ≤ rounds by
        rw [length_drop]
        omega)
      rw [newChunks, if_neg none, flatMap_cons, content, take_append_drop]
      refine ⟨rfl, List.forall_mem_cons.mpr ⟨⟨rfl, fun empty => ?_⟩, fresh⟩⟩
      rcases List.take_eq_nil_iff.mp empty with zero | noData
      · omega
      · exact none noData

variable {buf : RawbufChunk} {written : Nat}

lemma unwritten_fresh (fresh : buf.flushing = false) : unwritten written buf = buf.data := by
  rw [unwritten, fresh]
  rfl

variable {chunks : List RawbufChunk}

lemma flatMap_unwritten_fresh (written : Nat) (fresh : ∀ buf ∈ chunks, buf.flushing = false) :
    chunks.flatMap (unwritten written) = chunks.flatMap (·.data) :=
  flatMap_congr fun buf mem => unwritten_fresh (fresh buf mem)

variable {len written : Nat}

lemma append_fresh {list chunks : List RawbufChunk} (valid : (⟨list, len, written⟩ : RawbufHead).Valid)
    (fresh : ∀ buf ∈ chunks, buf.flushing = false ∧ buf.data ≠ []) :
    (⟨list ++ chunks, len + (chunks.flatMap (·.data)).length, written⟩ : RawbufHead).Valid ∧
      (list ++ chunks).flatMap (unwritten written) = list.flatMap (unwritten written) ++ chunks.flatMap (·.data) := by
  have pending : (list ++ chunks).flatMap (unwritten written) =
      list.flatMap (unwritten written) ++ chunks.flatMap (·.data) := by
    rw [flatMap_append, flatMap_unwritten_fresh written fun buf mem => (fresh buf mem).1]
  refine ⟨⟨fun buf mem => ?_, fun buf mem => ?_, ?_⟩, pending⟩
  · cases list with
    | nil => exact (fresh buf (mem_of_mem_tail mem)).1
    | cons head list =>
      rcases List.mem_append.mp mem with old | new
      · exact valid.behind buf old
      · exact (fresh buf new).1
  · rcases List.mem_append.mp mem with old | new
    · exact valid.left buf old
    · rw [unwritten_fresh (fresh buf new).1]
      exact (fresh buf new).2
  · rw [RawbufHead.pending, pending, length_append]
    exact congrArg (· + _) valid.counted

lemma fill_tail {front : List RawbufChunk} {tail : RawbufChunk}
    (valid : (⟨front ++ [tail], len, written⟩ : RawbufHead).Valid) (fresh : tail.flushing = false) (more : List UInt8) :
    (⟨front ++ [{ tail with data := tail.data ++ more }], len + more.length, written⟩ : RawbufHead).Valid ∧
      (front ++ [{ tail with data := tail.data ++ more }]).flatMap (unwritten written) =
        (front ++ [tail]).flatMap (unwritten written) ++ more := by
  have old : unwritten written tail = tail.data := unwritten_fresh fresh
  have filled : unwritten written { tail with data := tail.data ++ more } = tail.data ++ more :=
    unwritten_fresh fresh
  have pending : (front ++ [{ tail with data := tail.data ++ more }]).flatMap (unwritten written) =
      (front ++ [tail]).flatMap (unwritten written) ++ more := by
    simp [old, filled]
  refine ⟨⟨fun buf mem => ?_, fun buf mem => ?_, ?_⟩, pending⟩
  · cases front with
    | nil => exact absurd mem not_mem_nil
    | cons head front =>
      rcases List.mem_append.mp mem with inFront | last
      · exact valid.behind buf (mem_append_left _ inFront)
      · rw [List.mem_singleton.mp last]
        exact fresh
  · rcases List.mem_append.mp mem with inFront | last
    · exact valid.left buf (mem_append_left _ inFront)
    · have some_ := valid.left tail (mem_append_right _ mem_cons_self)
      rw [old] at some_
      rw [List.mem_singleton.mp last, filled]
      exact fun empty => some_ (List.append_eq_nil_iff.mp empty).1
  · rw [RawbufHead.pending, pending, length_append]
    exact congrArg (· + _) valid.counted

variable {rb : RawbufHead}

lemma rawbufAppend_spec (valid : rb.Valid) (data : List UInt8) :
    (rawbufAppend rb data).Valid ∧ (rawbufAppend rb data).pending = rb.pending ++ data := by
  obtain ⟨list, len, written⟩ := rb
  obtain ⟨whole, wholeFresh⟩ := newChunks_spec (Nat.le_refl data.length)
  have behind := append_fresh valid wholeFresh
  rw [whole] at behind
  rcases eq_nil_or_concat list with rfl | ⟨front, tail, rfl⟩
  · exact behind
  · rw [concat_eq_append] at *
    simp only [rawbufAppend, getLast?_concat, dropLast_concat]
    split
    next room =>
      obtain ⟨rest, restFresh⟩ := newChunks_spec
        (show (data.drop (rawbufSize - tail.data.length)).length ≤ data.length by
          rw [length_drop]
          omega)
      obtain ⟨filledValid, filledPending⟩ := fill_tail valid room.2 (data.take (rawbufSize - tail.data.length))
      have after := append_fresh filledValid restFresh
      rw [rest, filledPending, append_assoc ((front ++ [tail]).flatMap _), Nat.add_assoc,
        ← length_append, take_append_drop] at after
      exact after
    next full => exact behind

variable {rest : List RawbufChunk}

lemma RawbufHead.Valid.tail_fresh (valid : (⟨buf :: rest, len, written⟩ : RawbufHead).Valid) :
    ∀ other ∈ rest, other.flushing = false ∧ other.data ≠ [] := by
  intro other mem
  have fresh := valid.behind other mem
  have left := valid.left other (mem_cons_of_mem _ mem)
  rw [unwritten_fresh fresh] at left
  exact ⟨fresh, left⟩

lemma valid_of_fresh (len written : Nat) (fresh : ∀ buf ∈ chunks, buf.flushing = false ∧ buf.data ≠ [])
    (counted : len = (chunks.flatMap (·.data)).length) :
    (⟨chunks, len, written⟩ : RawbufHead).Valid ∧
      (⟨chunks, len, written⟩ : RawbufHead).pending = chunks.flatMap (·.data) := by
  have pending := flatMap_unwritten_fresh written fun buf mem => (fresh buf mem).1
  refine ⟨⟨fun buf mem => (fresh buf (mem_of_mem_tail mem)).1, fun buf mem => ?_, ?_⟩, pending⟩
  · rw [unwritten_fresh (fresh buf mem).1]
    exact (fresh buf mem).2
  · rw [counted, RawbufHead.pending, pending]

lemma valid_of_partial (data : List UInt8) (len : Nat) (inside : written < data.length)
    (fresh : ∀ other ∈ rest, other.flushing = false ∧ other.data ≠ [])
    (counted : len = (data.drop written ++ rest.flatMap (·.data)).length) :
    (⟨⟨data, true⟩ :: rest, len, written⟩ : RawbufHead).Valid ∧
      (⟨⟨data, true⟩ :: rest, len, written⟩ : RawbufHead).pending = data.drop written ++ rest.flatMap (·.data) := by
  have restPending := flatMap_unwritten_fresh written fun other mem => (fresh other mem).1
  have head : unwritten written ⟨data, true⟩ = data.drop written := by rw [unwritten, if_pos rfl]
  have pending : (⟨⟨data, true⟩ :: rest, len, written⟩ : RawbufHead).pending =
      data.drop written ++ rest.flatMap (·.data) := by
    rw [RawbufHead.pending, flatMap_cons, restPending, head]
  refine ⟨⟨fun other mem => (fresh other mem).1, ?_, by rw [pending, counted]⟩, pending⟩
  refine List.forall_mem_cons.mpr ⟨?_, fun other mem => ?_⟩
  · rw [head]
    exact ne_nil_of_length_pos (by rw [length_drop]; omega)
  · rw [unwritten_fresh (fresh other mem).1]
    exact (fresh other mem).2

lemma advance_fresh (chunks : List RawbufChunk) (sxret written : Nat)
    (fresh : ∀ buf ∈ chunks, buf.flushing = false ∧ buf.data ≠ []) (bound : sxret ≤ (chunks.flatMap (·.data)).length) :
    (advance sxret chunks (chunks.flatMap (·.data)).length written).Valid ∧
      (advance sxret chunks (chunks.flatMap (·.data)).length written).pending =
        (chunks.flatMap (·.data)).drop sxret := by
  induction chunks generalizing sxret with
  | nil =>
    rw [advance, flatMap_nil, drop_nil]
    exact valid_of_fresh _ written fresh rfl
  | cons buf rest ih =>
    obtain ⟨⟨notFlushing, some_⟩, restFresh⟩ := List.forall_mem_cons.mp fresh
    rw [flatMap_cons, length_append] at bound ⊢
    rw [advance, if_neg (by simp [notFlushing])]
    split
    next whole =>
      have spec := ih (sxret - buf.data.length) restFresh (by omega)
      rw [Nat.add_sub_cancel_left, drop_append, drop_eq_nil_of_le whole, nil_append]
      exact spec
    next part =>
      rw [drop_append_of_le_length (by omega)]
      apply valid_of_partial buf.data _ (by omega) restFresh
      rw [length_append, length_drop]
      omega

lemma advance_spec (valid : rb.Valid) (bound : sxret ≤ rb.pending.length) :
    (advance sxret rb.list rb.len rb.written).Valid ∧
      (advance sxret rb.list rb.len rb.written).pending = rb.pending.drop sxret := by
  obtain ⟨list, len, written⟩ := rb
  cases list with
  | nil =>
    rw [show len = 0 from valid.counted]
    exact advance_fresh [] sxret written (fun _ mem => absurd mem not_mem_nil) bound
  | cons buf rest =>
    have fresh := valid.tail_fresh
    have restPending := flatMap_unwritten_fresh written fun other mem => (fresh other mem).1
    have counted := valid.counted
    have left := valid.left buf mem_cons_self
    simp only [RawbufHead.pending, flatMap_cons, restPending] at bound counted ⊢
    by_cases flushing : buf.flushing = true
    · rw [unwritten, if_pos flushing] at bound counted left ⊢
      have inside := length_pos_of_ne_nil left
      rw [length_append, length_drop] at bound counted
      rw [advance, if_pos flushing]
      dsimp only
      split
      next whole =>
        rw [counted, Nat.add_sub_cancel_left, drop_append,
          drop_eq_nil_of_le (by rw [length_drop]; omega), nil_append, length_drop]
        exact advance_fresh rest (sxret - (buf.data.length - written)) 0 fresh (by omega)
      next part =>
        rw [drop_append_of_le_length (by rw [length_drop]; omega), drop_drop]
        obtain ⟨data, _⟩ := buf
        subst flushing
        dsimp only at *
        apply valid_of_partial data _ (by omega) fresh
        rw [counted, length_append, length_drop]
        omega
    · have notFlushing := Bool.of_not_eq_true flushing
      rw [unwritten_fresh notFlushing] at bound counted left ⊢
      have all : ∀ other ∈ buf :: rest, other.flushing = false ∧ other.data ≠ [] :=
        List.forall_mem_cons.mpr ⟨⟨notFlushing, left⟩, fresh⟩
      rw [counted]
      exact advance_fresh (buf :: rest) sxret written all bound

lemma take_pending_vec (rb : RawbufHead) : (rb.list.take uioMaxiov).flatMap (unwritten rb.written) <+: rb.pending := by
  conv => rhs; rw [RawbufHead.pending, ← take_append_drop uioMaxiov rb.list, flatMap_append]
  exact prefix_append _ _

lemma rawbufFlushWritev_spec (valid : rb.Valid) (sock : SockResult) : (rawbufFlushWritev rb sock).1.Valid ∧
      (rawbufFlushWritev rb sock).2.1 ++ (rawbufFlushWritev rb sock).1.pending = rb.pending := by
  cases sock with
  | wouldBlock | failed => exact ⟨valid, rfl⟩
  | accepted n =>
    simp only [rawbufFlushWritev]
    split
    · exact ⟨valid, rfl⟩
    · obtain ⟨more, whole⟩ := take_pending_vec rb
      have bound : min n ((rb.list.take uioMaxiov).flatMap (unwritten rb.written)).length ≤ rb.pending.length := by
        rw [← whole, length_append]
        omega
      obtain ⟨validAfter, pending⟩ := advance_spec valid bound
      refine ⟨validAfter, ?_⟩
      rw [pending, ← whole, drop_append_of_le_length (Nat.min_le_right _ _), ← append_assoc, take_append_drop]

lemma unwritten_eq_drop (written : Nat) (buf : RawbufChunk) :
    unwritten written buf = buf.data.drop (if buf.flushing then written else 0) := by
  unfold unwritten
  split <;> simp

section

variable (valid : (⟨buf :: rest, len, written⟩ : RawbufHead).Valid)

include valid

lemma RawbufHead.Valid.pending_cons : (⟨buf :: rest, len, written⟩ : RawbufHead).pending =
      buf.data.drop (if buf.flushing then written else 0) ++ rest.flatMap (·.data) := by
  have restPending := flatMap_unwritten_fresh written fun other mem => (valid.tail_fresh other mem).1
  rw [RawbufHead.pending, flatMap_cons, restPending, unwritten_eq_drop]

lemma rawbufFlush_ssl_spec (sock : SockResult) : (rawbufFlush ⟨buf :: rest, len, written⟩ true sock).1.Valid ∧
      (rawbufFlush ⟨buf :: rest, len, written⟩ true sock).2.1 ++
        (rawbufFlush ⟨buf :: rest, len, written⟩ true sock).1.pending =
      (⟨buf :: rest, len, written⟩ : RawbufHead).pending := by
  have fresh := valid.tail_fresh
  have counted : len = _ := valid.counted
  have left := valid.left buf mem_cons_self
  rw [valid.pending_cons] at counted ⊢
  rw [unwritten_eq_drop] at left
  simp only [rawbufFlush, Bool.not_true, Bool.false_eq_true, if_false]
  generalize (if buf.flushing = true then written else 0) = offset at left counted ⊢
  have inside := length_pos_of_ne_nil left
  rw [length_drop] at inside
  have flushed := valid_of_partial buf.data len (by omega) fresh counted
  cases sock with
  | wouldBlock | failed => exact ⟨flushed.1, flushed.2⟩
  | accepted n =>
    dsimp only
    rw [length_append, length_drop] at counted
    split
    · exact ⟨flushed.1, flushed.2⟩
    · split
      next all =>
        rw [length_drop] at all ⊢
        have rests := valid_of_fresh (len - min n (buf.data.length - offset)) 0 fresh (by omega)
        refine ⟨rests.1, ?_⟩
        rw [rests.2, take_of_length_le (by rw [length_drop]; omega)]
      next part =>
        rw [length_drop] at part ⊢
        have inside : offset + min n (buf.data.length - offset) < buf.data.length := by omega
        have parts := valid_of_partial buf.data (len - min n (buf.data.length - offset)) inside fresh (by
            rw [length_append, length_drop]
            omega)
        refine ⟨parts.1, ?_⟩
        rw [parts.2, ← append_assoc, ← drop_drop, take_append_drop]

end

lemma rawbufFlush_spec (valid : rb.Valid) (ssl : Bool) (sock : SockResult) : (rawbufFlush rb ssl sock).1.Valid ∧
      (rawbufFlush rb ssl sock).2.1 ++ (rawbufFlush rb ssl sock).1.pending = rb.pending := by
  obtain ⟨list, len, written⟩ := rb
  cases list with
  | nil => exact ⟨valid, rfl⟩
  | cons buf rest =>
    cases ssl with
    | false => exact rawbufFlushWritev_spec valid sock
    | true => exact rawbufFlush_ssl_spec valid sock

lemma rawbufFlush_error (result : (rawbufFlush rb ssl sock).2.2 = .error) : sock = .failed := by
  obtain ⟨list, len, written⟩ := rb
  cases sock with
  | failed => rfl
  | wouldBlock => cases list <;> cases ssl <;> cases result
  | accepted n =>
    cases list with
    | nil => cases result
    | cons buf rest =>
      cases ssl with
      | false =>
        simp only [rawbufFlush, Bool.not_false, if_true, rawbufFlushWritev] at result
        split at result <;> cases result
      | true =>
        simp only [rawbufFlush, Bool.not_true, Bool.false_eq_true, if_false] at result
        generalize (if buf.flushing = true then written else 0) = offset at result
        split at result
        · cases result
        · split at result <;> cases result

end LibOp.Websocket

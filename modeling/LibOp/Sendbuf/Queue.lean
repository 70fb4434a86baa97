import LibOp.Linebuf.Buffer
import LibOp.Websocket.Rawbuf

namespace LibOp.Sendbuf

open Linebuf Websocket List

def sendbufBlockSize : Nat := 4096

inductive ChunkType where
  | line
  | block
deriving DecidableEq

def ChunkType.limit : ChunkType → Nat
  | .line => linebufSize + crlfLen
  | .block => sendbufBlockSize

lemma ChunkType.limit_le (type : ChunkType) : type.limit ≤ 4608 := by
  cases type <;> decide

/-- `op_sendbuf_chunk_t`: `data` is the line, or the block up to `wpos`. -/
structure SendbufChunk where
  type : ChunkType
  data : List UInt8
  rpos : UInt16
  fits : data.length ≤ type.limit
  read : rpos.toNat ≤ data.length
deriving DecidableEq

/-- `op_sendbuf_t`: the active queue from its head, the inbox from the top of the stack. -/
structure OpSendbuf where
  active : List SendbufChunk
  inbox : List SendbufChunk
  len : UInt64
deriving DecidableEq

def OpSendbuf.empty : OpSendbuf := ⟨[], [], 0⟩

def SendbufChunk.avail (chunk : SendbufChunk) : Nat := chunk.data.length - chunk.rpos.toNat

def SendbufChunk.unsent (chunk : SendbufChunk) : List UInt8 := chunk.data.drop chunk.rpos.toNat

variable (chunk : SendbufChunk)

lemma SendbufChunk.length_unsent : chunk.unsent.length = chunk.avail :=
  length_drop

lemma SendbufChunk.toNat_rpos_add (inside : n < chunk.avail) :
    (chunk.rpos + UInt16.ofNat n).toNat = chunk.rpos.toNat + n := by
  have fits := Nat.le_trans chunk.fits chunk.type.limit_le
  have small : n < 2 ^ 16 := by
    rw [avail] at inside
    omega
  rw [avail] at inside
  rw [UInt16.toNat_add, UInt16.toNat_ofNat_of_lt' small]
  exact Nat.mod_eq_of_lt (by omega)

def SendbufChunk.consume (chunk : SendbufChunk) (n : Nat) (inside : n < chunk.avail) : SendbufChunk where
  type := chunk.type
  data := chunk.data
  rpos := chunk.rpos + UInt16.ofNat n
  fits := chunk.fits
  read := by
    rw [chunk.toNat_rpos_add inside]
    rw [avail] at inside
    omega

@[simp] lemma SendbufChunk.unsent_consume (inside : n < chunk.avail) :
    (chunk.consume n inside).unsent = chunk.unsent.drop n := by
  rw [unsent, unsent, drop_drop, ← chunk.toNat_rpos_add inside]
  rfl

/-- The `memcpy` of `op_sendbuf_write`, as far as there is room. -/
def SendbufChunk.fill (chunk : SendbufChunk) (bytes : List UInt8) : SendbufChunk where
  type := chunk.type
  data := chunk.data ++ bytes.take (chunk.type.limit - chunk.data.length)
  rpos := chunk.rpos
  fits := by
    have fits := chunk.fits
    rw [List.length_append, List.length_take]
    omega
  read := by
    have read := chunk.read
    rw [List.length_append]
    omega

@[simp] lemma SendbufChunk.unsent_fill (bytes : List UInt8) :
    (chunk.fill bytes).unsent = chunk.unsent ++ bytes.take (chunk.type.limit - chunk.data.length) :=
  drop_append_of_le_length chunk.read

def newBlock : SendbufChunk := ⟨.block, [], 0, Nat.zero_le _, le_rfl⟩

def tailBlock (active : List SendbufChunk) : List SendbufChunk × SendbufChunk :=
  match active.getLast? with
  | some tail =>
    if tail.type = .block ∧ tail.data.length < sendbufBlockSize then (active.dropLast, tail)
    else (active, newBlock)
  | none => (active, newBlock)

/-- The loop of `op_sendbuf_write`; every round copies a byte. -/
def sendbufWriteLoop : Nat → OpSendbuf → List UInt8 → OpSendbuf
  | 0, sb, _ => sb
  | rounds + 1, sb, data =>
    if data = [] then sb
    else
      let (front, tail) := tailBlock sb.active
      let space := sendbufBlockSize - tail.data.length
      let copy := if data.length < space then data.length else space
      sendbufWriteLoop rounds
        { sb with active := front ++ [tail.fill data], len := sb.len + UInt64.ofNat copy } (data.drop copy)

def opSendbufWrite (sb : OpSendbuf) (data : List UInt8) : OpSendbuf := sendbufWriteLoop data.length sb data

def sendbufInboxPush (sb : OpSendbuf) (chunk : SendbufChunk) : OpSendbuf := { sb with inbox := chunk :: sb.inbox }

def lineChunk (line : BufLine) : Option SendbufChunk :=
  if line.len = 0 ∨ line.terminated = false then none
  else some ⟨.line, line.buf, 0, line.fits, Nat.zero_le _⟩

def opSendbufWriteLinebuf (sb : OpSendbuf) (linebuf : BufHead) : OpSendbuf :=
  let chunks := linebuf.list.filterMap lineChunk
  let pushed := chunks.foldl sendbufInboxPush sb
  let totalBytes := chunks.foldl (fun total chunk => total + chunk.data.length) 0
  if totalBytes > 0 then { pushed with len := pushed.len + UInt64.ofNat totalBytes } else pushed

def sendbufDrainInbox (sb : OpSendbuf) : OpSendbuf :=
  { sb with active := sb.active ++ sb.inbox.reverse, inbox := [] }

/-- The loop of `sendbuf_advance`. -/
def advanceChunks : List SendbufChunk → Nat → List SendbufChunk
  | [], _ => []
  | chunk :: rest, consumed =>
    if consumed = 0 then chunk :: rest
    else if inside : consumed < chunk.avail then chunk.consume consumed inside :: rest
    else advanceChunks rest (consumed - chunk.avail)

def sendbufAdvance (sb : OpSendbuf) (consumed : Nat) : OpSendbuf :=
  { sb with len := sb.len - UInt64.ofNat consumed, active := advanceChunks sb.active consumed }

/-- The loop of `op_sendbuf_drain_to_buf` with `room` left: the chunks that stay and the bytes copied. -/
def drainChunks : List SendbufChunk → Nat → List SendbufChunk × List UInt8
  | [], _ => ([], [])
  | chunk :: rest, room =>
    if room = 0 then (chunk :: rest, [])
    else if inside : room < chunk.avail then (chunk.consume room inside :: rest, chunk.unsent.take room)
    else ((drainChunks rest (room - chunk.avail)).1, chunk.unsent ++ (drainChunks rest (room - chunk.avail)).2)

def opSendbufDrainToBuf (sb : OpSendbuf) (limit : Nat) : OpSendbuf × List UInt8 :=
  let drained := sendbufDrainInbox sb
  let (active, out) := drainChunks drained.active limit
  ({ drained with active := active, len := drained.len - UInt64.ofNat out.length }, out)

/-- What one write is offered: the first `OP_UIO_MAXIOV` chunks with bytes left, or the head for TLS or WebSocket
frames. -/
def flushChunks (active : List SendbufChunk) (vectored : Bool) : List SendbufChunk :=
  if vectored then (active.filter (·.avail ≠ 0)).take uioMaxiov else active.take 1

/-- `vectored` says neither TLS nor WebSocket. Returns the queue, the bytes that left it and the result. -/
def opSendbufFlush (sb : OpSendbuf) (vectored : Bool) (sock : SockResult) : OpSendbuf × List UInt8 × FlushResult :=
  let drained := sendbufDrainInbox sb
  let chunks := flushChunks drained.active vectored
  if drained.len = 0 then (drained, [], .again)
  else if chunks = [] then (drained, [], .again)
  else
    match sock with
    | .wouldBlock => (drained, [], .again)
    | .failed => (drained, [], .error)
    | .accepted n =>
      let offered := chunks.flatMap (·.unsent)
      let total := min n offered.length
      if total = 0 then (drained, [], .wrote 0)
      else (sendbufAdvance drained total, offered.take total, .wrote total)

def unsentBytes (chunks : List SendbufChunk) : List UInt8 := chunks.flatMap (·.unsent)

def OpSendbuf.queued (sb : OpSendbuf) : List UInt8 := unsentBytes sb.active ++ unsentBytes sb.inbox.reverse

@[simp] lemma unsentBytes_append (front back : List SendbufChunk) :
    unsentBytes (front ++ back) = unsentBytes front ++ unsentBytes back := flatMap_append

@[simp] lemma unsentBytes_cons (rest : List SendbufChunk) :
    unsentBytes (chunk :: rest) = chunk.unsent ++ unsentBytes rest := flatMap_cons

@[simp] lemma unsentBytes_nil : unsentBytes [] = [] := rfl

lemma tailBlock_spec (active : List SendbufChunk) :
    (tailBlock active).2.type = .block ∧ (tailBlock active).2.data.length < sendbufBlockSize ∧
      unsentBytes (tailBlock active).1 ++ (tailBlock active).2.unsent = unsentBytes active := by
  have fresh : newBlock.type = .block ∧ newBlock.data.length < sendbufBlockSize ∧
      unsentBytes active ++ newBlock.unsent = unsentBytes active :=
    ⟨rfl, by decide, append_nil _⟩
  rw [tailBlock]
  split
  next tail last =>
    split
    next room =>
      obtain ⟨front, rfl⟩ := List.getLast?_eq_some_iff.mp last
      rw [dropLast_concat, unsentBytes_append, unsentBytes_cons, unsentBytes_nil, append_nil]
      exact ⟨room.1, room.2, rfl⟩
    next => exact fresh
  next => exact fresh

open SendbufChunk

variable (sb : OpSendbuf)

lemma sendbufWriteLoop_spec {data : List UInt8} (enough : data.length ≤ rounds) :
    unsentBytes (sendbufWriteLoop rounds sb data).active = unsentBytes sb.active ++ data ∧
      (sendbufWriteLoop rounds sb data).inbox = sb.inbox := by
  induction rounds generalizing sb data with
  | zero =>
    rw [eq_nil_of_length_eq_zero (Nat.le_zero.mp enough), append_nil]
    exact ⟨rfl, rfl⟩
  | succ rounds ih =>
    rw [sendbufWriteLoop]
    split
    next none =>
      rw [none, append_nil]
      exact ⟨rfl, rfl⟩
    next some =>
      obtain ⟨type, room, content⟩ := tailBlock_spec sb.active
      generalize tailBlock sb.active = found at type room content
      obtain ⟨front, tail⟩ := found
      dsimp only at type room content ⊢
      have copied : (if data.length < sendbufBlockSize - tail.data.length then data.length
          else sendbufBlockSize - tail.data.length) = min (sendbufBlockSize - tail.data.length) data.length := by
        split <;> omega
      have limit : tail.type.limit = sendbufBlockSize := by rw [type, ChunkType.limit]
      rw [copied]
      obtain ⟨written, untouched⟩ := ih ⟨front ++ [tail.fill data], sb.inbox, sb.len + UInt64.ofNat _⟩
        (show (data.drop (min (sendbufBlockSize - tail.data.length) data.length)).length ≤ rounds by
          rw [length_drop]
          omega)
      refine ⟨?_, untouched⟩
      rw [written, unsentBytes_append, unsentBytes_cons, unsentBytes_nil, append_nil,
        unsent_fill, limit, ← content, append_assoc, append_assoc, append_assoc]
      rw [take_eq_take_min, take_append_drop]

lemma foldl_sendbufInboxPush (chunks : List SendbufChunk) :
    chunks.foldl sendbufInboxPush sb = { sb with inbox := chunks.reverse ++ sb.inbox } := by
  induction chunks generalizing sb with
  | nil => rfl
  | cons chunk rest ih =>
    rw [foldl_cons, ih, sendbufInboxPush, reverse_cons, append_assoc]
    rfl

lemma opSendbufWriteLinebuf_spec (linebuf : BufHead) : (opSendbufWriteLinebuf sb linebuf).active = sb.active ∧
      (opSendbufWriteLinebuf sb linebuf).inbox = (linebuf.list.filterMap lineChunk).reverse ++ sb.inbox := by
  rw [opSendbufWriteLinebuf, foldl_sendbufInboxPush]
  split <;> exact ⟨rfl, rfl⟩

def lineBytes (linebuf : BufHead) : List UInt8 := (linebuf.list.filter (·.terminated)).flatMap (·.buf)

lemma unsentBytes_lineChunks (lines : List BufLine) :
    unsentBytes (lines.filterMap lineChunk) = (lines.filter (·.terminated)).flatMap (·.buf) := by
  induction lines with
  | nil => rfl
  | cons line rest ih =>
    by_cases terminated : line.terminated = true
    · rw [filter_cons_of_pos terminated, flatMap_cons, ← ih]
      by_cases nothing : line.buf = []
      · rw [filterMap_cons_none (by simp [lineChunk, BufLine.len, nothing]), nothing, nil_append]
      · rw [filterMap_cons_some (b := ⟨.line, line.buf, 0, line.fits, Nat.zero_le _⟩)
          (by simp [lineChunk, BufLine.len, nothing, terminated]), unsentBytes_cons]
        rfl
    · rw [filter_cons_of_neg terminated, ← ih]
      rw [filterMap_cons_none (by simp [lineChunk, terminated])]

open OpSendbuf

lemma queued_writeLinebuf (linebuf : BufHead) :
    (opSendbufWriteLinebuf sb linebuf).queued = sb.queued ++ lineBytes linebuf := by
  obtain ⟨active, inbox⟩ := opSendbufWriteLinebuf_spec sb linebuf
  rw [queued, active, inbox, reverse_append, reverse_reverse, unsentBytes_append,
    unsentBytes_lineChunks, ← append_assoc]
  rfl

lemma queued_drainInbox :
    (sendbufDrainInbox sb).queued = sb.queued ∧ unsentBytes (sendbufDrainInbox sb).active = sb.queued := by
  simp [queued, sendbufDrainInbox]

variable (chunks : List SendbufChunk)

lemma unsentBytes_advanceChunks (consumed : Nat) :
    unsentBytes (advanceChunks chunks consumed) = (unsentBytes chunks).drop consumed := by
  induction chunks generalizing consumed with
  | nil => simp [advanceChunks]
  | cons chunk rest ih =>
    have size := chunk.length_unsent
    rw [advanceChunks]
    split
    next none => rw [none, drop_zero]
    next =>
      split
      next inside => rw [unsentBytes_cons, unsentBytes_cons, unsent_consume, drop_append_of_le_length (by omega)]
      next whole =>
        have sent : chunk.unsent.length ≤ consumed := by omega
        rw [ih, unsentBytes_cons, drop_append, drop_eq_nil_of_le sent, size, nil_append]

lemma drainChunks_spec (room : Nat) :
    (drainChunks chunks room).2 ++ unsentBytes (drainChunks chunks room).1 = unsentBytes chunks := by
  induction chunks generalizing room with
  | nil => rfl
  | cons chunk rest ih =>
    rw [drainChunks]
    split
    next => rfl
    next =>
      split
      next inside => rw [unsentBytes_cons, unsentBytes_cons, unsent_consume, ← append_assoc, take_append_drop]
      next => rw [append_assoc, ih, unsentBytes_cons]

lemma queued_drainToBuf (limit : Nat) :
    (opSendbufDrainToBuf sb limit).2 ++ (opSendbufDrainToBuf sb limit).1.queued = sb.queued := by
  have drained := drainChunks_spec (sendbufDrainInbox sb).active limit
  rw [(queued_drainInbox sb).2] at drained
  rw [← drained]
  simp [opSendbufDrainToBuf, queued, sendbufDrainInbox]

lemma unsentBytes_filter : unsentBytes (chunks.filter (·.avail ≠ 0)) = unsentBytes chunks := by
  induction chunks with
  | nil => rfl
  | cons chunk rest ih =>
    by_cases sent : chunk.avail = 0
    · have nothing := chunk.length_unsent
      rw [sent] at nothing
      rw [filter_cons_of_neg (by simp [sent]), ih, unsentBytes_cons, eq_nil_of_length_eq_zero nothing, nil_append]
    · rw [filter_cons_of_pos (by simp [sent]), unsentBytes_cons, unsentBytes_cons, ih]

lemma unsentBytes_flushChunks (active : List SendbufChunk) (vectored : Bool) :
    unsentBytes (flushChunks active vectored) <+: unsentBytes active := by
  have front (chunks : List SendbufChunk) (n : Nat) : unsentBytes (chunks.take n) <+: unsentBytes chunks := by
    conv => rhs; rw [← take_append_drop n chunks, unsentBytes_append]
    exact prefix_append _ _
  rw [flushChunks]
  split
  · rw [← unsentBytes_filter active]
    exact front _ _
  · exact front _ _

lemma queued_flush (vectored : Bool) (sock : SockResult) :
    (opSendbufFlush sb vectored sock).2.1 ++ (opSendbufFlush sb vectored sock).1.queued = sb.queued := by
  obtain ⟨same, offer⟩ := queued_drainInbox sb
  have head := unsentBytes_flushChunks (sendbufDrainInbox sb).active vectored
  have inbox : (sendbufDrainInbox sb).inbox = [] := rfl
  simp only [opSendbufFlush]
  generalize sendbufDrainInbox sb = drained at same offer head inbox
  split
  · exact same
  · split
    · exact same
    · cases sock with
      | wouldBlock | failed => exact same
      | accepted n =>
        dsimp only
        split
        · exact same
        · rw [offer, unsentBytes] at head
          generalize (flushChunks drained.active vectored).flatMap (·.unsent) = offered at head
          obtain ⟨rest, whole⟩ := head
          have advanced : (sendbufAdvance drained (min n offered.length)).queued =
              sb.queued.drop (min n offered.length) := by
            rw [queued, sendbufAdvance, unsentBytes_advanceChunks, inbox, offer, reverse_nil,
              unsentBytes_nil, append_nil]
          have left : offered.take (min n offered.length) = sb.queued.take (min n offered.length) := by
            rw [← whole, take_append_of_le_length (Nat.min_le_right _ _)]
          rw [advanced, left, take_append_drop]

end LibOp.Sendbuf

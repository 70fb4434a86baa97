import LibOp.Sendbuf.Queue

namespace LibOp.Sendbuf

open Linebuf Websocket Function

abbrev Addr := Nat

/-- The producer of a chunk and its place among its pushes. -/
structure Tag (n : Nat) where
  producer : Fin n
  seq : Nat
deriving DecidableEq

/-- The locals of `op_sendbuf_write_linebuf` while it pushes one chunk. -/
structure Push where
  chunk : Addr
  line : BufLine
  rest : List BufLine
  totalBytes : Nat

/-- A producer in `op_sendbuf_write_linebuf`: at the loop head, before the load of the inbox, the write of
`chunk->next`, or the compare-exchange. -/
inductive Producer where
  | idle
  | scanning (lines : List BufLine) (totalBytes : Nat)
  | pushing (push : Push)
  | loaded (push : Push) (oldTop : Option Addr)
  | linked (push : Push) (oldTop : Option Addr)

/-- What the I/O thread calls; `sock` is the answer to the write of a flush. -/
inductive Job where
  | drainToBuf (limit : Nat)
  | flush (vectored : Bool) (sock : SockResult)

/-- The I/O thread in `sendbuf_drain_inbox` (exchange, reversal, walk to the tail), then in `op_sendbuf_drain_to_buf`
and `op_sendbuf_flush`. `fault` is a null dereference. -/
inductive Consumer where
  | idle
  | draining (job : Job)
  | reversing (job : Job) (stack prev : Option Addr)
  | walking (job : Job) (fifoHead fifoTail : Addr)
  | drained (job : Job)
  | copying (room done : Nat)
  | subtracting (done : Nat)
  | gathering (chunk : Option Addr) (vectored : Bool) (sock : SockResult) (nvec offered : Nat)
  | wrote (total : Nat)
  | advancing (consumed : Nat)
  | fault

/-- The shared memory and the threads. No step reads `tag`, `pushed` and `consumed`. -/
structure Mpsc (n : Nat) where
  next : Addr → Option Addr
  chunk : Addr → SendbufChunk
  allocated : Addr → Bool
  head : Option Addr
  tail : Option Addr
  inbox : Option Addr
  len : UInt64
  producers : Fin n → Producer
  consumer : Consumer
  tag : Addr → Option (Tag n)
  pushed : List (Tag n)
  consumed : List (Tag n)

def Mpsc.start (n : Nat) : Mpsc n where
  next _ := none
  chunk _ := newBlock
  allocated _ := false
  head := none
  tail := none
  inbox := none
  len := 0
  producers _ := .idle
  consumer := .idle
  tag _ := none
  pushed := []
  consumed := []

inductive MpscAction (n : Nat) where
  | call (p : Fin n) (linebuf : BufHead)
  | produce (p : Fin n) (fresh : Addr) (spurious : Bool)
  | request (job : Job)
  | consume

variable {n : Nat}

def Mpsc.goto (s : Mpsc n) (p : Fin n) (pc : Producer) : Mpsc n :=
  { s with producers := update s.producers p pc }

def pushesOf (pushed : List (Tag n)) (p : Fin n) : Nat := (pushed.filter (·.producer = p)).length

/-- `op_bh_alloc` and the initialisation of the chunk. -/
def Mpsc.alloc (s : Mpsc n) (p : Fin n) (addr : Addr) (chunk : SendbufChunk) : Mpsc n :=
  { s with
    next := update s.next addr none
    chunk := update s.chunk addr chunk
    allocated := update s.allocated addr true
    tag := update s.tag addr (some ⟨p, pushesOf s.pushed p⟩) }

/-- `chunk->next = old_top`. -/
def Mpsc.link (s : Mpsc n) (p : Fin n) (push : Push) (oldTop : Option Addr) : Mpsc n :=
  { s with
    next := update s.next push.chunk oldTop
    producers := update s.producers p (.linked push oldTop) }

def Mpsc.publish (s : Mpsc n) (p : Fin n) (push : Push) : Mpsc n :=
  { s with
    inbox := some push.chunk
    producers := update s.producers p (.scanning push.rest (push.totalBytes + push.line.len))
    pushed := s.pushed ++ (s.tag push.chunk).toList }

/-- The allocator returns `fresh`; `spurious` fails the weak compare-exchange although the inbox is unchanged. -/
def produceStep (s : Mpsc n) (p : Fin n) (fresh : Addr) (spurious : Bool) : Mpsc n :=
  match s.producers p with
  | .idle => s
  | .scanning [] totalBytes =>
    if totalBytes > 0 then
      { s.goto p .idle with len := s.len + UInt64.ofNat totalBytes }
    else s.goto p .idle
  | .scanning (line :: rest) totalBytes =>
    match lineChunk line with
    | none => s.goto p (.scanning rest totalBytes)
    | some chunk =>
      if s.allocated fresh then s
      else (s.alloc p fresh chunk).goto p (.pushing ⟨fresh, line, rest, totalBytes⟩)
  | .pushing push => s.goto p (.loaded push s.inbox)
  | .loaded push oldTop => s.link p push oldTop
  | .linked push oldTop =>
    if s.inbox = oldTop ∧ spurious = false then s.publish p push else s.goto p (.loaded push s.inbox)

/-- `sendbuf_free_head`, with the head chunk at `chunk`. -/
def Mpsc.freeHead (s : Mpsc n) (chunk : Addr) : Mpsc n :=
  { s with
    head := s.next chunk
    tail := if s.next chunk = none then none else s.tail
    allocated := update s.allocated chunk false
    consumed := s.consumed ++ (s.tag chunk).toList }

/-- `chunk->rpos += n`, where fewer than the available bytes are consumed. -/
def Mpsc.consumePart (s : Mpsc n) (addr : Addr) (bytes : Nat) (inside : bytes < (s.chunk addr).avail) : Mpsc n :=
  { s with chunk := update s.chunk addr ((s.chunk addr).consume bytes inside) }

/-- The end of `sendbuf_drain_inbox`. -/
def Mpsc.appendFifo (s : Mpsc n) (fifoHead fifoTail : Addr) : Mpsc n :=
  match s.tail with
  | some last => { s with next := update s.next last (some fifoHead), tail := some fifoTail }
  | none => { s with head := some fifoHead, tail := some fifoTail }

/-- The write of `op_sendbuf_flush` with `nvec` segments of `offered` bytes. -/
def Mpsc.writeOut (s : Mpsc n) (sock : SockResult) (nvec offered : Nat) : Mpsc n :=
  match sock with
  | .accepted count =>
    if nvec = 0 ∨ min count offered = 0 then { s with consumer := .idle }
    else { s with consumer := .wrote (min count offered) }
  | _ => { s with consumer := .idle }

def consumeStep (s : Mpsc n) : Mpsc n :=
  match s.consumer with
  | .idle => s
  | .fault => s
  | .draining job =>
    match s.inbox with
    | none => { s with consumer := .drained job }
    | some top => { s with consumer := .reversing job (some top) none, inbox := none }
  | .reversing job (some chunk) prev =>
    { s with
      next := update s.next chunk prev
      consumer := .reversing job (s.next chunk) (some chunk) }
  | .reversing job none (some fifoHead) => { s with consumer := .walking job fifoHead fifoHead }
  | .reversing _ none none => { s with consumer := .fault }
  | .walking job fifoHead fifoTail =>
    match s.next fifoTail with
    | some further => { s with consumer := .walking job fifoHead further }
    | none => { s.appendFifo fifoHead fifoTail with consumer := .drained job }
  | .drained (.drainToBuf limit) => { s with consumer := .copying limit 0 }
  | .drained (.flush vectored sock) =>
    if s.len = 0 then { s with consumer := .idle }
    else { s with consumer := .gathering s.head vectored sock 0 0 }
  | .copying room done =>
    match s.head with
    | none => { s with consumer := .subtracting done }
    | some chunk =>
      if room = 0 then { s with consumer := .subtracting done }
      else if inside : room < (s.chunk chunk).avail then
        { s.consumePart chunk room inside with consumer := .copying 0 (done + room) }
      else
        { s.freeHead chunk with
          consumer := .copying (room - (s.chunk chunk).avail) (done + (s.chunk chunk).avail) }
  | .subtracting done => { s with consumer := .idle, len := s.len - UInt64.ofNat done }
  | .gathering (some chunk) vectored sock nvec offered =>
    if nvec < (if vectored then uioMaxiov else 1) then
      if vectored ∧ (s.chunk chunk).avail = 0 then
        { s with consumer := .gathering (s.next chunk) vectored sock nvec offered }
      else
        { s with
          consumer := .gathering (s.next chunk) vectored sock (nvec + 1) (offered + (s.chunk chunk).avail) }
    else s.writeOut sock nvec offered
  | .gathering none _ sock nvec offered => s.writeOut sock nvec offered
  | .wrote total => { s with consumer := .advancing total, len := s.len - UInt64.ofNat total }
  | .advancing consumed =>
    match s.head with
    | none => { s with consumer := .idle }
    | some chunk =>
      if consumed = 0 then { s with consumer := .idle }
      else if inside : consumed < (s.chunk chunk).avail then
        { s.consumePart chunk consumed inside with consumer := .idle }
      else { s.freeHead chunk with consumer := .advancing (consumed - (s.chunk chunk).avail) }

def mpscStep (s : Mpsc n) : MpscAction n → Mpsc n
  | .call p linebuf =>
    match s.producers p with
    | .idle => s.goto p (.scanning linebuf.list 0)
    | _ => s
  | .produce p fresh spurious => produceStep s p fresh spurious
  | .request job =>
    match s.consumer with
    | .idle => { s with consumer := .draining job }
    | _ => s
  | .consume => consumeStep s

def mpscRun (n : Nat) (actions : List (MpscAction n)) : Mpsc n := actions.foldl mpscStep (.start n)

end LibOp.Sendbuf

import Mathlib

namespace LibOp.Queues.Shm

def slotPayload : Nat := 4080

def flagFirst : Nat := 1

def flagMore : Nat := 2

structure Slot where
  len : Nat
  flags : Nat
  connId : Nat
  data : Nat → UInt8

structure Chunk where
  connId : Nat
  flags : Nat
  bytes : List UInt8
deriving DecidableEq, Repr

abbrev Message := Nat × List UInt8

/-- The locals of `op_shm_ring_push`: `rest` is what is left from `src` on. The message is kept for the record. -/
structure Sending where
  message : Message
  rest : List UInt8
  prod : Nat
  first : Bool
deriving DecidableEq, Repr

def Sending.chunkLen (p : Sending) : Nat := if p.rest.length < slotPayload then p.rest.length else slotPayload

def Sending.flags (p : Sending) : Nat :=
  let flags := if p.first then 0 ||| flagFirst else 0
  if p.chunkLen < p.rest.length then flags ||| flagMore else flags

def Sending.chunk (p : Sending) : Chunk :=
  { connId := p.message.1, flags := p.flags, bytes := p.rest.take p.chunkLen }

def Sending.next (p : Sending) : Sending :=
  { p with rest := p.rest.drop p.chunkLen, prod := (p.prod + 1) % 2 ^ 64, first := false }

/-- The producer before each of its accesses to the shared memory. -/
inductive Producer where
  | idle
  | checking (p : Sending)
  | probing (p : Sending)
  | identifying (p : Sending)
  | flagging (p : Sending)
  | copying (p : Sending) (i : Nat)
  | publishing (p : Sending)
  | advancing (p : Sending)
deriving DecidableEq, Repr

/-- The consumer before each of its accesses to the shared memory. -/
inductive Consumer where
  | idle
  | loaded (cons : Nat)
  | probing (cons : Nat)
  | identifying (cons plen : Nat)
  | flagging (cons plen connId : Nat)
  | reading (cons plen : Nat) (chunk : Chunk)
  | clearing (cons : Nat) (chunk : Chunk)
  | releasing (cons : Nat) (chunk : Chunk)
deriving DecidableEq, Repr

/-- The ring, both sides, the chunks of finished turns of the push loop and of finished pops, and the accepted
messages. -/
structure State where
  prodPos : Nat
  consPos : Nat
  slots : Nat → Slot
  producer : Producer
  consumer : Consumer
  published : List Chunk
  popped : List Chunk
  accepted : List Message

/-- The ring of `op_shm_ring_map` with `init`. -/
def State.init : State :=
  { prodPos := 0, consPos := 0, slots := fun _ => ⟨0, 0, 0, fun _ => 0⟩, producer := .idle, consumer := .idle,
    published := [], popped := [], accepted := [] }

variable (slotCount : Nat)

def slotIndex (pos : Nat) : Nat := pos &&& (slotCount - 1)

def State.write (s : State) (pos : Nat) (f : Slot → Slot) (producer : Producer) : State :=
  { s with
    slots := Function.update s.slots (slotIndex slotCount pos) (f (s.slots (slotIndex slotCount pos)))
    producer := producer }

/-- `prod_pos` is stored, and the loop goes on or the push returns 0. -/
def State.advance (s : State) (p : Sending) : State :=
  { s with
    prodPos := (p.prod + 1) % 2 ^ 64
    published := s.published ++ [p.chunk]
    producer := if p.next.rest = [] then .idle else .checking p.next
    accepted := if p.next.rest = [] then s.accepted ++ [p.message] else s.accepted }

def produce (s : State) : State :=
  match s.producer with
  | .idle => s
  | .checking p =>
    if (p.prod + 2 ^ 64 - s.consPos) % 2 ^ 64 ≥ slotCount then { s with producer := .idle }
    else { s with producer := .probing p }
  | .probing p =>
    if (s.slots (slotIndex slotCount p.prod)).len ≠ 0 then { s with producer := .idle }
    else { s with producer := .identifying p }
  | .identifying p => s.write slotCount p.prod (fun slot => { slot with connId := p.message.1 }) (.flagging p)
  | .flagging p => s.write slotCount p.prod (fun slot => { slot with flags := p.flags }) (.copying p 0)
  | .copying p i =>
    match p.chunk.bytes[i]? with
    | some byte =>
      s.write slotCount p.prod (fun slot => { slot with data := Function.update slot.data i byte }) (.copying p (i + 1))
    | none => { s with producer := .publishing p }
  | .publishing p => s.write slotCount p.prod (fun slot => { slot with len := p.chunkLen }) (.advancing p)
  | .advancing p => s.advance p

def State.clear (s : State) (cons : Nat) (chunk : Chunk) : State :=
  { s with
    slots := Function.update s.slots (slotIndex slotCount cons) { s.slots (slotIndex slotCount cons) with len := 0 }
    consumer := .releasing cons chunk }

def consume (s : State) : State :=
  match s.consumer with
  | .idle => s
  | .loaded cons => if cons = s.prodPos then { s with consumer := .idle } else { s with consumer := .probing cons }
  | .probing cons =>
    let plen := (s.slots (slotIndex slotCount cons)).len
    if plen = 0 then { s with consumer := .idle } else { s with consumer := .identifying cons plen }
  | .identifying cons plen => { s with consumer := .flagging cons plen (s.slots (slotIndex slotCount cons)).connId }
  | .flagging cons plen connId =>
    { s with consumer := .reading cons plen ⟨connId, (s.slots (slotIndex slotCount cons)).flags, []⟩ }
  | .reading cons plen chunk =>
    if chunk.bytes.length < plen then
      let byte := (s.slots (slotIndex slotCount cons)).data chunk.bytes.length
      { s with consumer := .reading cons plen { chunk with bytes := chunk.bytes ++ [byte] } }
    else { s with consumer := .clearing cons chunk }
  | .clearing cons chunk => s.clear slotCount cons chunk
  | .releasing cons chunk =>
    { s with consPos := (cons + 1) % 2 ^ 64, consumer := .idle, popped := s.popped ++ [chunk] }

inductive Action where
  | push (message : Message)
  | produce
  | pop
  | consume
deriving DecidableEq, Repr

/-- Calls of a side inside of a call do not occur. A push of no bytes returns 0 at once. -/
def step (s : State) : Action → State
  | .push message =>
    match s.producer with
    | .idle =>
      if message.2 = [] then s else { s with producer := .checking ⟨message, message.2, s.prodPos, true⟩ }
    | _ => s
  | .produce => produce slotCount s
  | .pop =>
    match s.consumer with
    | .idle => { s with consumer := .loaded s.consPos }
    | _ => s
  | .consume => consume slotCount s

structure Assembly where
  finished : List Message
  unfinished : Option Message
deriving DecidableEq, Repr

def Chunk.isFirst (chunk : Chunk) : Bool := chunk.flags &&& flagFirst != 0

def Chunk.hasMore (chunk : Chunk) : Bool := chunk.flags &&& flagMore != 0

/-- FIRST starts a message and drops an unfinished one; any other chunk is appended. -/
def Assembly.take (a : Assembly) (chunk : Chunk) : Assembly :=
  let current : Option Message :=
    if chunk.isFirst then some (chunk.connId, chunk.bytes)
    else a.unfinished.map fun message => (message.1, message.2 ++ chunk.bytes)
  match current with
  | none => { a with unfinished := none }
  | some message =>
    if chunk.hasMore then { a with unfinished := some message }
    else { finished := a.finished ++ [message], unfinished := none }

def reassemble (chunks : List Chunk) : Assembly := chunks.foldl Assembly.take ⟨[], none⟩

end LibOp.Queues.Shm

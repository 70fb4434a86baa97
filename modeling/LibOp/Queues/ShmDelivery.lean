import LibOp.Foundation.WordBits
import LibOp.Foundation.RingQueue
import LibOp.Queues.ShmRing

namespace LibOp.Queues.Shm

open Foundation Nat Function

lemma chunkLen_le (p : Sending) : p.chunkLen ≤ p.rest.length := by
  unfold Sending.chunkLen
  split <;> omega

lemma chunkLen_pos {p : Sending} (some : p.rest ≠ []) : 0 < p.chunkLen := by
  have pos := List.length_pos_iff.mpr some
  unfold Sending.chunkLen slotPayload
  split <;> omega

lemma length_chunk (p : Sending) : p.chunk.bytes.length = p.chunkLen :=
  List.length_take_of_le (chunkLen_le p)

lemma chunk_ne_nil {p : Sending} (some : p.rest ≠ []) : p.chunk.bytes ≠ [] := by
  apply List.length_pos_iff.mp
  rw [length_chunk]
  exact chunkLen_pos some

lemma chunk_isFirst (p : Sending) : p.chunk.isFirst = p.first := by
  change (p.flags &&& flagFirst != 0) = p.first
  unfold Sending.flags
  cases p.first <;> dsimp only <;> split <;> rfl

lemma chunk_hasMore (p : Sending) : p.chunk.hasMore = true ↔ p.next.rest ≠ [] := by
  have more : p.next.rest ≠ [] ↔ p.chunkLen < p.rest.length := by
    change p.rest.drop p.chunkLen ≠ [] ↔ _
    rw [Ne, List.drop_eq_nil_iff, not_le]
  rw [more]
  change (p.flags &&& flagMore != 0) = true ↔ _
  unfold Sending.flags
  by_cases continues : p.chunkLen < p.rest.length
  · rw [if_pos continues]
    cases p.first <;> exact iff_of_true rfl continues
  · rw [if_neg continues]
    cases p.first <;> exact iff_of_false (by decide) continues

def Underway (a : Assembly) (p : Sending) : Prop :=
  if p.first then p.rest = p.message.2
  else ∃ sent, a.unfinished = some (p.message.1, sent) ∧ sent ++ p.rest = p.message.2

lemma underway_take (underway : Underway a p) :
    (p.next.rest = [] → a.take p.chunk = ⟨a.finished ++ [p.message], none⟩) ∧
      (p.next.rest ≠ [] → (a.take p.chunk).finished = a.finished ∧ Underway (a.take p.chunk) p.next) := by
  have rest : p.chunk.bytes ++ p.next.rest = p.rest := List.take_append_drop _ _
  obtain ⟨sent, current, whole⟩ : ∃ sent, (if p.chunk.isFirst then some (p.chunk.connId, p.chunk.bytes)
        else a.unfinished.map fun message => (message.1, message.2 ++ p.chunk.bytes)) = some (p.message.1, sent) ∧
        sent ++ p.next.rest = p.message.2 := by
    rw [chunk_isFirst]
    unfold Underway at underway
    split at underway
    next first =>
      rw [if_pos first]
      exact ⟨_, rfl, rest.trans underway⟩
    next later =>
      obtain ⟨sent, unfinished, whole⟩ := underway
      rw [if_neg later, unfinished]
      exact ⟨_, rfl, by rw [List.append_assoc, rest, whole]⟩
  have taken : a.take p.chunk = if p.chunk.hasMore then { a with unfinished := some (p.message.1, sent) }
      else { finished := a.finished ++ [(p.message.1, sent)], unfinished := none } := by
    rw [Assembly.take, current]
  rw [taken]
  constructor
  · intro done
    rw [done, List.append_nil] at whole
    rw [if_neg (fun more => (chunk_hasMore p).mp more done), whole]
  · intro more
    rw [if_pos ((chunk_hasMore p).mpr more)]
    exact ⟨rfl, sent, rfl, whole⟩

lemma reassemble_concat (chunks : List Chunk) (chunk : Chunk) :
    reassemble (chunks ++ [chunk]) = (reassemble chunks).take chunk := List.foldl_concat ..

lemma finished_prefix_take (a : Assembly) (chunk : Chunk) : a.finished <+: (a.take chunk).finished := by
  unfold Assembly.take
  dsimp only
  split
  · exact List.prefix_rfl
  · split
    · exact List.prefix_rfl
    · exact List.prefix_append _ _

lemma finished_prefix_foldl (chunks : List Chunk) (a : Assembly) :
    a.finished <+: (chunks.foldl Assembly.take a).finished := by
  induction chunks generalizing a with
  | nil => exact List.prefix_rfl
  | cons chunk rest ih => exact (finished_prefix_take a chunk).trans (ih _)

lemma reassemble_prefix {first all : List Chunk} (order : first <+: all) :
    (reassemble first).finished <+: (reassemble all).finished := by
  obtain ⟨rest, rfl⟩ := order
  rw [reassemble, reassemble, List.foldl_append]
  exact finished_prefix_foldl rest _

def Copied (slot : Slot) (chunk : Chunk) (count : Nat) : Prop :=
  slot.connId = chunk.connId ∧ slot.flags = chunk.flags ∧ ∀ i, i < count → chunk.bytes[i]? = some (slot.data i)

def Holds (slot : Slot) (chunk : Chunk) : Prop :=
  slot.len = chunk.bytes.length ∧ Copied slot chunk chunk.bytes.length

/-- What the producer knows of its next slot and of the published and popped chunks. -/
def ProducerOk (slotCount : Nat) (published popped : List Chunk) (slot : Slot) : Producer → Prop
  | .idle => True
  | .checking p => Sent p
  | .probing p => Sent p ∧ Room
  | .identifying p => Sent p ∧ Room
  | .flagging p => Sent p ∧ Room ∧ slot.connId = p.message.1
  | .copying p i => Sent p ∧ Room ∧ i ≤ p.chunk.bytes.length ∧ Copied slot p.chunk i
  | .publishing p => Sent p ∧ Room ∧ Copied slot p.chunk p.chunk.bytes.length
  | .advancing p => Sent p ∧ Room ∧ Holds slot p.chunk
where
  Sent (p : Sending) : Prop :=
    p.prod = published.length % 2 ^ 64 ∧ p.rest ≠ [] ∧ Underway (reassemble published) p
  Room : Prop := published.length < popped.length + slotCount

def Producer.announced : Producer → Bool
  | .advancing _ => true
  | _ => false

def Consumer.cleared : Consumer → Bool
  | .releasing _ _ => true
  | _ => false

def ConsumerOk (published popped : List Chunk) : Consumer → Prop
  | .idle => True
  | .loaded cons => cons = popped.length % 2 ^ 64
  | .probing cons => cons = popped.length % 2 ^ 64 ∧ popped.length < published.length
  | .identifying cons plen => Next cons fun chunk => plen = chunk.bytes.length
  | .flagging cons plen connId => Next cons fun chunk => plen = chunk.bytes.length ∧ connId = chunk.connId
  | .reading cons plen part => Next cons fun chunk => plen = chunk.bytes.length ∧ part.connId = chunk.connId ∧
      part.flags = chunk.flags ∧ part.bytes = chunk.bytes.take part.bytes.length ∧ part.bytes.length ≤ plen
  | .clearing cons chunk => Next cons (· = chunk)
  | .releasing cons chunk => Next cons (· = chunk)
where
  Next (cons : Nat) (known : Chunk → Prop) : Prop :=
    cons = popped.length % 2 ^ 64 ∧ ∃ chunk, published[popped.length]? = some chunk ∧ known chunk

structure Inv (slotCount : Nat) (s : State) : Prop where
  prodPos : s.prodPos = s.published.length % 2 ^ 64
  consPos : s.consPos = s.popped.length % 2 ^ 64
  order : s.popped <+: s.published
  sized : ∀ chunk ∈ s.published, chunk.bytes ≠ []
  space : s.published.length ≤ s.popped.length + slotCount
  held : ∀ j chunk, s.popped.length ≤ j → s.published[j]? = some chunk →
    (j = s.popped.length → s.consumer.cleared = false) → Holds (s.slots (j % slotCount)) chunk
  vacant : ∀ j, s.published.length ≤ j → j < s.popped.length + slotCount →
    (j = s.published.length → s.producer.announced = false) → (s.slots (j % slotCount)).len = 0
  empty : s.consumer.cleared = true → (s.slots (s.popped.length % slotCount)).len = 0
  producer : ProducerOk slotCount s.published s.popped (s.slots (s.published.length % slotCount)) s.producer
  consumer : ConsumerOk s.published s.popped s.consumer
  accepted : (reassemble s.published).finished = s.accepted

variable {size : Nat} {s : State} {p : Sending} {i cons plen connId : Nat} {chunk : Chunk}

lemma init_inv (size : Nat) : Inv size State.init where
  prodPos := rfl
  consPos := rfl
  order := List.prefix_rfl
  sized _ bad := absurd bad List.not_mem_nil
  space := zero_le _
  held _ _ _ bad _ := by cases bad
  vacant _ _ _ _ := rfl
  empty _ := rfl
  producer := trivial
  consumer := trivial
  accepted := rfl

lemma slotIndex_eq (power : ∃ k, k ≤ 31 ∧ size = 2 ^ k) (n : Nat) : slotIndex size (n % 2 ^ 64) = n % size := by
  obtain ⟨k, atMost, rfl⟩ := power
  exact word_and_mask (by omega) n

lemma slotCount_lt (power : ∃ k, k ≤ 31 ∧ size = 2 ^ k) : size < 2 ^ 32 := by
  obtain ⟨k, atMost, rfl⟩ := power
  exact Nat.pow_lt_pow_right (by decide) (by omega)

lemma Inv.cleared_lt (inv : Inv size s) (cleared : s.consumer.cleared = true) :
    s.popped.length < s.published.length := by
  have ok := inv.consumer
  cases place : s.consumer with
  | releasing cons chunk =>
    rw [place] at ok
    obtain ⟨-, next, found, -⟩ := ok
    exact (List.getElem?_eq_some_iff.mp found).1
  | _ =>
    rw [place] at cleared
    cases cleared

variable {producer : Producer}

lemma Inv.move_producer (inv : Inv size s) (before : s.producer.announced = false)
    (ok : ProducerOk size s.published s.popped (s.slots (s.published.length % size)) producer) :
    Inv size { s with producer := producer } :=
  { inv with
    vacant := fun j low high _ => inv.vacant j low high fun _ => before
    producer := ok }

lemma Inv.producer_at (inv : Inv size s) (place : s.producer = producer) :
    ProducerOk size s.published s.popped (s.slots (s.published.length % size)) producer :=
  place ▸ inv.producer

lemma Inv.write (inv : Inv size s) (power : ∃ k, k ≤ 31 ∧ size = 2 ^ k)
    (own : pos = s.published.length % 2 ^ 64) (room : s.published.length < s.popped.length + size)
    (before : s.producer.announced = false) (length : producer.announced = false → ∀ slot, (f slot).len = slot.len)
    (ok : ProducerOk size s.published s.popped (f (s.slots (s.published.length % size))) producer) :
    Inv size (s.write size pos f producer) := by
  have index : slotIndex size pos = s.published.length % size := by rw [own, slotIndex_eq power]
  have slots : (s.write size pos f producer).slots = update s.slots (s.published.length % size)
      (f (s.slots (s.published.length % size))) := by
    rw [← index]
    rfl
  have self : (s.write size pos f producer).slots (s.published.length % size) =
      f (s.slots (s.published.length % size)) := by rw [slots, update_self]
  have other {j : Nat} (differs : j % size ≠ s.published.length % size) :
      (s.write size pos f producer).slots (j % size) = s.slots (j % size) := by
    rw [slots, update_of_ne differs]
  have ordered := inv.order.length_le
  exact
    { inv with
      held := by
        intro j chunk low found kept
        change s.popped.length ≤ j at low
        have inside := (List.getElem?_eq_some_iff.mp found).1
        rw [other (mod_ne_of_near inside (by omega))]
        exact inv.held j chunk low found kept
      vacant := by
        intro j low high quiet
        by_cases next : j = s.published.length
        · rw [next, self, length (quiet next)]
          exact inv.vacant _ le_rfl room fun _ => before
        · have beyond : s.published.length < j := lt_of_le_of_ne low (Ne.symm next)
          change j < s.popped.length + size at high
          rw [other (mod_ne_of_near beyond (by omega)).symm]
          exact inv.vacant j low high fun same => absurd same next
      empty := by
        intro cleared
        change (State.slots _ (s.popped.length % size)).len = 0
        rw [other (mod_ne_of_near (inv.cleared_lt cleared) room)]
        exact inv.empty cleared
      producer := by
        change ProducerOk _ _ _ ((s.write size pos f producer).slots (s.published.length % size)) producer
        rw [self]
        exact ok }

variable {published popped : List Chunk} {consumer : Consumer}

lemma ConsumerOk.publish (ok : ConsumerOk published popped consumer) (last : Chunk) :
    ConsumerOk (published ++ [last]) popped consumer := by
  have next {cons : Nat} {known : Chunk → Prop} (before : ConsumerOk.Next published popped cons known) :
      ConsumerOk.Next (published ++ [last]) popped cons known := by
    obtain ⟨own, chunk, found, knows⟩ := before
    exact ⟨own, chunk, (List.getElem?_append_left (List.getElem?_eq_some_iff.mp found).1).trans found, knows⟩
  cases consumer with
  | idle => exact trivial
  | loaded cons => exact ok
  | probing cons =>
    apply And.intro ok.1
    rw [List.length_append]
    exact lt_of_lt_of_le ok.2 (le_add_right _ _)
  | identifying cons plen => exact next ok
  | flagging cons plen connId | reading cons plen part | clearing cons chunk | releasing cons chunk => exact next ok

section

variable (inv : Inv size s)

include inv

lemma Inv.advance (place : s.producer = .advancing p) : Inv size (s.advance p) := by
  obtain ⟨⟨own, some, underway⟩, room, holds⟩ := inv.producer_at place
  obtain ⟨done, more⟩ := underway_take underway
  have length : (s.published ++ [p.chunk]).length = s.published.length + 1 := List.length_append
  have position : (p.prod + 1) % 2 ^ 64 = (s.published.length + 1) % 2 ^ 64 := by rw [own, mod_add_mod]
  exact
    { inv with
      prodPos := by
        change (p.prod + 1) % 2 ^ 64 = (s.published ++ [p.chunk]).length % 2 ^ 64
        rw [length, position]
      order := inv.order.trans (List.prefix_append _ _)
      sized := by
        exact List.forall_mem_append.mpr ⟨inv.sized, List.forall_mem_singleton.mpr (chunk_ne_nil some)⟩
      space := by
        change (s.published ++ [p.chunk]).length ≤ _
        rw [length]
        exact room
      held := by
        intro j chunk low found kept
        change (s.published ++ [p.chunk])[j]? = Option.some chunk at found
        by_cases last : j = s.published.length
        · rw [last, List.getElem?_concat_length] at found
          cases found
          rw [last]
          exact holds
        · have inside := (List.getElem?_eq_some_iff.mp found).1
          rw [List.getElem?_append_left (by omega)] at found
          exact inv.held j chunk low found kept
      vacant := by
        intro j low high _
        change (s.published ++ [p.chunk]).length ≤ j at low
        exact inv.vacant j (by omega) high fun same => absurd same (by omega)
      producer := by
        change ProducerOk _ (s.published ++ [p.chunk]) _ _
          (if p.next.rest = [] then Producer.idle else .checking p.next)
        split
        · exact trivial
        next continues =>
          refine ⟨?_, continues, ?_⟩
          · rw [length]
            exact position
          · rw [reassemble_concat]
            exact (more continues).2
      consumer := inv.consumer.publish p.chunk
      accepted := by
        change (reassemble (s.published ++ [p.chunk])).finished =
          if p.next.rest = [] then s.accepted ++ [p.message] else s.accepted
        rw [reassemble_concat]
        split
        next last => rw [done last, inv.accepted]
        next continues => rw [(more continues).1, inv.accepted] }

lemma Inv.produce (power : ∃ k, k ≤ 31 ∧ size = 2 ^ k) : Inv size (produce size s) := by
  unfold Shm.produce
  split
  · exact inv
  next p place =>
    have sent := inv.producer_at place
    have quiet : s.producer.announced = false := by rw [place]; rfl
    split
    · exact inv.move_producer quiet trivial
    next room =>
      have small := slotCount_lt power
      have ordered := inv.order.length_le
      have space := inv.space
      rw [sent.1, inv.consPos, word_distance ordered (by omega)] at room
      have below : s.published.length < s.popped.length + size := by omega
      apply inv.move_producer quiet
      exact ⟨sent, below⟩
  next p place =>
    have ready := inv.producer_at place
    have quiet : s.producer.announced = false := by rw [place]; rfl
    split
    · exact inv.move_producer quiet trivial
    · apply inv.move_producer quiet
      exact ready
  next p place =>
    obtain ⟨sent, room⟩ := inv.producer_at place
    exact inv.write power sent.1 room (place ▸ rfl) (fun _ _ => rfl) ⟨sent, room, rfl⟩
  next p place =>
    obtain ⟨sent, room, identified⟩ := inv.producer_at place
    refine inv.write power sent.1 room (place ▸ rfl) (fun _ _ => rfl) ?_
    exact ⟨sent, room, zero_le _, identified, rfl, fun _ bad => absurd bad (not_lt_zero _)⟩
  next p i place =>
    obtain ⟨sent, room, inside, identified, flagged, bytes⟩ := inv.producer_at place
    split
    next byte found =>
      refine inv.write power sent.1 room (place ▸ rfl) (fun _ _ => rfl) ?_
      refine ⟨sent, room, (List.getElem?_eq_some_iff.mp found).1, identified, flagged, ?_⟩
      intro j below
      change p.chunk.bytes[j]? = some (update (s.slots (s.published.length % size)).data i byte j)
      by_cases last : j = i
      · rw [last, found, update_self]
      · rw [bytes j (by omega), update_of_ne last]
    next finished =>
      have whole := le_antisymm inside (List.getElem?_eq_none_iff.mp finished)
      rw [whole] at bytes
      apply inv.move_producer (by rw [place]; rfl)
      exact ⟨sent, room, identified, flagged, bytes⟩
  next p place =>
    obtain ⟨sent, room, copied⟩ := inv.producer_at place
    apply inv.write power sent.1 room (place ▸ rfl)
    · intro bad
      cases bad
    · exact ⟨sent, room, (length_chunk p).symm, copied⟩
  next p place => exact inv.advance place

lemma Inv.move_consumer (before : s.consumer.cleared = false) (after : consumer.cleared = false)
    (ok : ConsumerOk s.published s.popped consumer) : Inv size { s with consumer := consumer } :=
  { inv with
    held := fun j chunk low found _ => inv.held j chunk low found fun _ => before
    empty := fun cleared => absurd cleared (by rw [after]; exact Bool.false_ne_true)
    consumer := ok }

lemma Inv.consumer_at (place : s.consumer = consumer) : ConsumerOk s.published s.popped consumer := place ▸ inv.consumer

lemma Inv.next_slot (power : ∃ k, k ≤ 31 ∧ size = 2 ^ k) (kept : s.consumer.cleared = false)
    {known : Chunk → Prop} (next : ConsumerOk.Next s.published s.popped cons known) :
    ∃ chunk, s.published[s.popped.length]? = some chunk ∧ known chunk ∧
      Holds (s.slots (slotIndex size cons)) chunk := by
  obtain ⟨own, chunk, found, knows⟩ := next
  rw [own, slotIndex_eq power]
  exact ⟨chunk, found, knows, inv.held _ chunk le_rfl found fun _ => kept⟩

end

lemma ProducerOk.any_slot {slot : Slot} (ok : ProducerOk size published popped slot producer)
    (full : ¬published.length < popped.length + size) (other : Slot) :
    ProducerOk size published popped other producer := by
  cases producer with
  | idle => exact trivial
  | checking p => exact ok
  | probing p | identifying p => exact absurd ok.2 full
  | flagging p | copying p i | publishing p | advancing p => exact absurd ok.2.1 full

lemma Inv.clear (inv : Inv size s) (power : ∃ k, k ≤ 31 ∧ size = 2 ^ k)
    (place : s.consumer = .clearing cons chunk) : Inv size (s.clear size cons chunk) := by
  obtain ⟨own, found, listed, same⟩ := inv.consumer_at place
  have below := (List.getElem?_eq_some_iff.mp listed).1
  have space := inv.space
  have index : slotIndex size cons = s.popped.length % size := by rw [own, slotIndex_eq power]
  have slots : (s.clear size cons chunk).slots = update s.slots (s.popped.length % size)
      { s.slots (s.popped.length % size) with len := 0 } := by
    rw [← index]
    rfl
  have other {j : Nat} (later : s.popped.length < j) (near : j < s.popped.length + size) :
      (s.clear size cons chunk).slots (j % size) = s.slots (j % size) := by
    rw [slots, update_of_ne (mod_ne_of_near later near).symm]
  exact
    { inv with
      held := by
        intro j chunk low found kept
        change s.published[j]? = some chunk at found
        have inside := (List.getElem?_eq_some_iff.mp found).1
        have later : s.popped.length < j := by
          apply lt_of_le_of_ne low
          intro same
          exact absurd (kept same.symm) Bool.false_ne_true.symm
        rw [other later (by omega)]
        exact inv.held j chunk low found fun same => absurd same (by omega)
      vacant := by
        intro j low high quiet
        change s.published.length ≤ j at low
        rw [other (by omega) high]
        exact inv.vacant j low high quiet
      empty := by
        intro _
        change ((s.clear size cons chunk).slots (s.popped.length % size)).len = 0
        rw [slots, update_self]
      producer := by
        change ProducerOk size s.published s.popped
          ((s.clear size cons chunk).slots (s.published.length % size)) s.producer
        by_cases room : s.published.length < s.popped.length + size
        · rw [other below room]
          exact inv.producer
        · exact inv.producer.any_slot room _
      consumer := ⟨own, found, listed, same⟩ }

lemma ProducerOk.release {slot : Slot} (ok : ProducerOk size published popped slot producer) (chunk : Chunk) :
    ProducerOk size published (popped ++ [chunk]) slot producer := by
  have wider (room : ProducerOk.Room size published popped) : ProducerOk.Room size published (popped ++ [chunk]) := by
    unfold ProducerOk.Room at room ⊢
    rw [List.length_append]
    omega
  cases producer with
  | idle => exact trivial
  | checking p => exact ok
  | probing p | identifying p => exact ⟨ok.1, wider ok.2⟩
  | flagging p | copying p i | publishing p | advancing p => exact ⟨ok.1, wider ok.2.1, ok.2.2⟩

section

variable (inv : Inv size s)

include inv

lemma Inv.release (place : s.consumer = .releasing cons chunk) :
    Inv size { s with consPos := (cons + 1) % 2 ^ 64, consumer := .idle, popped := s.popped ++ [chunk] } := by
  obtain ⟨own, next, found, rfl⟩ := inv.consumer_at place
  have length : (s.popped ++ [next]).length = s.popped.length + 1 := List.length_append
  have space := inv.space
  exact
    { inv with
      consPos := by rw [length, own, mod_add_mod]
      order := RingQueue.concat_prefix inv.order found
      space := by
        change s.published.length ≤ (s.popped ++ [next]).length + size
        omega
      held := by
        intro j chunk low listed _
        change (s.popped ++ [next]).length ≤ j at low
        exact inv.held j chunk (by omega) listed fun same => absurd same (by omega)
      vacant := by
        intro j low high quiet
        change j < (s.popped ++ [next]).length + size at high
        by_cases last : j = s.popped.length + size
        · rw [last, add_mod_right]
          exact inv.empty (by rw [place]; rfl)
        · exact inv.vacant j low (by omega) quiet
      empty := fun bad => absurd bad Bool.false_ne_true
      producer := inv.producer.release next
      consumer := trivial }

variable (power : ∃ k, k ≤ 31 ∧ size = 2 ^ k)

include power

lemma Inv.consume : Inv size (consume size s) := by
  unfold Shm.consume
  split
  · exact inv
  next cons place =>
    have own := inv.consumer_at place
    have kept : s.consumer.cleared = false := by rw [place]; rfl
    split
    · exact inv.move_consumer kept rfl trivial
    next differs =>
      apply inv.move_consumer kept rfl
      apply And.intro own
      apply lt_of_le_of_ne inv.order.length_le
      intro same
      apply differs
      rw [own, inv.prodPos, same]
  next cons place =>
    obtain ⟨own, below⟩ := inv.consumer_at place
    have kept : s.consumer.cleared = false := by rw [place]; rfl
    have next : ConsumerOk.Next s.published s.popped cons fun _ => True :=
      ⟨own, _, List.getElem?_eq_getElem below, trivial⟩
    obtain ⟨chunk, found, -, holds⟩ := inv.next_slot power kept next
    dsimp only
    split
    · exact inv.move_consumer kept rfl trivial
    · apply inv.move_consumer kept rfl
      exact ⟨own, chunk, found, holds.1⟩
  next cons plen place =>
    have next := inv.consumer_at place
    have kept : s.consumer.cleared = false := by rw [place]; rfl
    obtain ⟨chunk, found, size, holds⟩ := inv.next_slot power kept next
    apply inv.move_consumer kept rfl
    exact ⟨next.1, chunk, found, size, holds.2.1⟩
  next cons plen connId place =>
    have next := inv.consumer_at place
    have kept : s.consumer.cleared = false := by rw [place]; rfl
    obtain ⟨chunk, found, ⟨size, identity⟩, holds⟩ := inv.next_slot power kept next
    apply inv.move_consumer kept rfl
    exact ⟨next.1, chunk, found, size, identity, holds.2.2.1, rfl, zero_le _⟩
  next cons plen part place =>
    have next := inv.consumer_at place
    have kept : s.consumer.cleared = false := by rw [place]; rfl
    obtain ⟨chunk, found, ⟨size, identity, flags, bytes, atMost⟩, holds⟩ := inv.next_slot power kept next
    split
    next below =>
      apply inv.move_consumer kept rfl
      have byte := holds.2.2.2 part.bytes.length (by omega)
      refine ⟨next.1, chunk, found, size, identity, flags, ?_, ?_⟩
      · rw [List.length_append, List.length_singleton, List.take_add_one, byte, ← bytes]
        rfl
      · rw [List.length_append]
        exact below
    next finished =>
      have whole : part.bytes = chunk.bytes := by
        rw [bytes]
        exact List.take_of_length_le (by omega)
      have same : chunk = part := by
        rw [Chunk.mk.injEq]
        exact ⟨identity.symm, flags.symm, whole.symm⟩
      apply inv.move_consumer kept rfl
      exact ⟨next.1, chunk, found, same⟩
  next cons chunk place => exact inv.clear power place
  next cons chunk place => exact inv.release place

lemma Inv.step (action : Action) : Inv size (step size s action) := by
  cases action with
  | push message =>
    rw [Shm.step]
    split
    next place =>
      split
      · exact inv
      next some =>
        apply inv.move_producer (by rw [place]; rfl)
        exact ⟨inv.prodPos, some, rfl⟩
    · exact inv
  | produce => exact inv.produce power
  | pop =>
    rw [Shm.step]
    split
    next place =>
      apply inv.move_consumer (by rw [place]; rfl) rfl
      exact inv.consPos
    · exact inv
  | consume => exact inv.consume power

lemma Inv.run (actions : List Action) : Inv size (actions.foldl (Shm.step size) s) := by
  induction actions generalizing s with
  | nil => exact inv
  | cons action rest ih => exact ih (inv.step power action)

lemma Inv.pop_empty (inside : s.consumer ≠ .idle)
    (returns : (Shm.consume size s).consumer = .idle) (nothing : (Shm.consume size s).popped = s.popped) :
    s.popped = s.published := by
  have small := slotCount_lt power
  have ordered := inv.order.length_le
  have space := inv.space
  cases place : s.consumer with
  | idle => exact absurd place inside
  | loaded cons =>
    have own := inv.consumer_at place
    by_cases same : cons = s.prodPos
    · rw [own, inv.prodPos] at same
      exact inv.order.eq_of_length (by omega)
    · rw [Shm.consume, place] at returns
      dsimp only at returns
      rw [if_neg same] at returns
      cases returns
  | probing cons =>
    obtain ⟨own, below⟩ := inv.consumer_at place
    have next : ConsumerOk.Next s.published s.popped cons fun _ => True :=
      ⟨own, _, List.getElem?_eq_getElem below, trivial⟩
    obtain ⟨chunk, found, -, holds⟩ := inv.next_slot power (by rw [place]; rfl) next
    have filled : (s.slots (slotIndex size cons)).len ≠ 0 := by
      rw [holds.1]
      exact ne_of_gt (List.length_pos_iff.mpr (inv.sized chunk (List.mem_of_getElem? found)))
    rw [Shm.consume, place] at returns
    dsimp only at returns
    rw [if_neg filled] at returns
    cases returns
  | reading cons plen part =>
    rw [Shm.consume, place] at returns
    dsimp only at returns
    split at returns <;> cases returns
  | releasing cons chunk =>
    rw [Shm.consume, place] at nothing
    have length : (s.popped ++ [chunk]).length = s.popped.length := congrArg List.length nothing
    rw [List.length_append, List.length_singleton] at length
    omega
  | _ =>
    rw [Shm.consume, place] at returns
    cases returns

end

theorem shm_ring_delivers (slotCount : Nat) (power : ∃ k, k ≤ 31 ∧ slotCount = 2 ^ k) (actions : List Action) :
    let s := actions.foldl (Shm.step slotCount) State.init
    s.popped <+: s.published ∧ (reassemble s.popped).finished <+: s.accepted ∧
      (s.popped = s.published → (reassemble s.popped).finished = s.accepted) ∧
      (s.consumer ≠ .idle → (consume slotCount s).consumer = .idle → (consume slotCount s).popped = s.popped →
        s.popped = s.published) := by
  intro s
  have inv : Inv slotCount s := (init_inv slotCount).run power actions
  apply And.intro inv.order
  apply And.intro
  · rw [← inv.accepted]
    exact reassemble_prefix inv.order
  · apply And.intro
    · intro all
      rw [all, inv.accepted]
    · exact inv.pop_empty power

theorem shm_ring_delivers_one_slot :
    let actions := [.push (7, [1, 2])] ++ List.replicate 8 .produce ++ [.push (8, [3]), .produce, .pop] ++
      List.replicate 10 Action.consume
    let s := actions.foldl (Shm.step 1) State.init
    (s.published = [⟨7, 1, [1, 2]⟩] ∧ s.accepted = [(7, [1, 2])] ∧ s.popped = s.published) ∧
      (reassemble s.popped).finished = s.accepted := by
  intro actions s
  have run : s.published = [⟨7, 1, [1, 2]⟩] ∧ s.accepted = [(7, [1, 2])] ∧ s.popped = s.published := by decide
  exact ⟨run, (shm_ring_delivers 1 ⟨0, by decide, rfl⟩ actions).2.2.1 run.2.2⟩

def Producer.sending : Producer → Option Sending
  | .idle => none
  | .checking p | .probing p | .identifying p | .flagging p | .copying p _ | .publishing p | .advancing p => some p

def chunkCount (len : Nat) : Nat := (len + slotPayload - 1) / slotPayload

lemma length_next (p : Sending) : p.next.rest.length = p.rest.length - p.chunkLen := List.length_drop

lemma chunkCount_next (some : p.rest ≠ []) :
    chunkCount p.rest.length = chunkCount p.next.rest.length + 1 := by
  have pos := List.length_pos_iff.mpr some
  rw [length_next]
  unfold chunkCount Sending.chunkLen slotPayload
  split <;> omega

/-- A bound on the accesses of the producer up to its return. -/
def Producer.remaining : Producer → Nat
  | .idle => 0
  | .checking p => 8 * p.rest.length
  | .probing p => 8 * p.rest.length - 1
  | .identifying p => 8 * p.rest.length - 2
  | .flagging p => 8 * p.rest.length - 3
  | .copying p i => 8 * p.rest.length - 4 - i
  | .publishing p => 8 * p.next.rest.length + 2
  | .advancing p => 8 * p.next.rest.length + 1

lemma Inv.sent (inv : Inv size s) (inside : s.producer.sending = some p) : ProducerOk.Sent s.published p := by
  have ok := inv.producer
  cases place : s.producer with
  | idle =>
    rw [place] at inside
    cases inside
  | checking q =>
    rw [place] at inside ok
    cases inside
    exact ok
  | _ =>
    rw [place] at inside ok
    cases inside
    exact ok.1

/-- One access of the producer, from inside of a push: it goes on in its turn, finds the ring full or publishes. -/
lemma Inv.produce_cases (inv : Inv size s) (power : ∃ k, k ≤ 31 ∧ size = 2 ^ k) (inside : s.producer.sending = some p) :
    (Shm.produce size s).producer.remaining < s.producer.remaining ∧
      ((∃ producer slots, Shm.produce size s = { s with producer, slots } ∧ producer.sending = some p) ∨
        Shm.produce size s = { s with producer := .idle } ∧ s.popped.length + size ≤ s.published.length ∨
        Shm.produce size s = s.advance p) := by
  have some := (inv.sent inside).2.1
  have part := chunkLen_pos some
  have whole := chunkLen_le p
  have left := length_next p
  unfold Shm.produce
  split <;> rename_i place <;> rw [place] at inside ⊢ <;> cases inside
  · have sent := inv.producer_at place
    split
    next full =>
      have space := inv.space
      have ordered := inv.order.length_le
      rw [sent.1, inv.consPos, word_distance ordered (by omega)] at full
      exact ⟨by simp only [Producer.remaining]; omega, .inr (.inl ⟨rfl, by omega⟩)⟩
    · exact ⟨by simp only [Producer.remaining]; omega, .inl ⟨_, _, rfl, rfl⟩⟩
  · obtain ⟨sent, room⟩ := inv.producer_at place
    have vacant := inv.vacant _ le_rfl room fun _ => by rw [place]; rfl
    rw [sent.1, slotIndex_eq power, if_neg (not_not.mpr vacant)]
    exact ⟨by simp only [Producer.remaining]; omega, .inl ⟨_, _, rfl, rfl⟩⟩
  · exact ⟨by simp only [State.write, Producer.remaining]; omega, .inl ⟨_, _, rfl, rfl⟩⟩
  · exact ⟨by simp only [State.write, Producer.remaining]; omega, .inl ⟨_, _, rfl, rfl⟩⟩
  · obtain ⟨-, -, inside, -⟩ := inv.producer_at place
    rw [length_chunk] at inside
    split
    next found =>
      have below := (List.getElem?_eq_some_iff.mp found).1
      exact ⟨by simp only [State.write, Producer.remaining]; omega, .inl ⟨_, _, rfl, rfl⟩⟩
    · exact ⟨by simp only [Producer.remaining]; omega, .inl ⟨_, _, rfl, rfl⟩⟩
  · exact ⟨by simp only [State.write, Producer.remaining]; omega, .inl ⟨_, _, rfl, rfl⟩⟩
  · refine ⟨?_, .inr (.inr rfl)⟩
    change (if p.next.rest = [] then Producer.idle else .checking p.next).remaining < 8 * p.next.rest.length + 1
    split
    · exact succ_pos _
    · exact lt_succ_self _

/-- Where the push of `message` stands that made its first check at `u`: inside, failed or done. -/
inductive Progress (size : Nat) (u : State) (message : Message) (t : State) : Prop where
  | inside (p : Sending) (sends : t.producer.sending = some p) (own : p.message = message)
    (accepted : t.accepted = u.accepted) (count : t.published.length + chunkCount p.rest.length =
      u.published.length + chunkCount message.2.length)
  | failed (idle : t.producer = .idle) (accepted : t.accepted = u.accepted)
    (full : u.popped.length + size ≤ t.published.length)
    (short : t.published.length < u.published.length + chunkCount message.2.length)
  | done (idle : t.producer = .idle) (accepted : t.accepted = u.accepted ++ [message])
    (count : t.published.length = u.published.length + chunkCount message.2.length)

variable {u t : State} {message : Message}

lemma Progress.produce (progress : Progress size u message t) (inv : Inv size t)
    (power : ∃ k, k ≤ 31 ∧ size = 2 ^ k) (grown : u.popped.length ≤ t.popped.length) :
    Progress size u message (produce size t) := by
  cases progress with
  | inside p sends own accepted count =>
    have split := chunkCount_next (inv.sent sends).2.1
    rcases (inv.produce_cases power sends).2 with ⟨producer, slots, moved, turn⟩ | ⟨moved, full⟩ | moved
    · rw [moved]
      exact .inside p turn own accepted count
    · rw [moved]
      refine .failed rfl accepted (le_trans (Nat.add_le_add_right grown size) full) ?_
      change t.published.length < _
      omega
    · have length : (t.advance p).published.length = t.published.length + 1 := List.length_append
      rw [moved]
      by_cases last : p.next.rest = []
      · refine .done (if_pos last) ?_ ?_
        · rw [← accepted, ← own]
          exact if_pos last
        · rw [last] at split
          change _ = 0 + 1 at split
          omega
      · refine .inside p.next ?_ own ((if_neg last).trans accepted) (by omega)
        change (if p.next.rest = [] then Producer.idle else .checking p.next).sending = _
        rw [if_neg last]
        rfl
  | failed idle accepted full short =>
    rw [Shm.produce, idle]
    exact .failed idle accepted full short
  | done idle accepted count =>
    rw [Shm.produce, idle]
    exact .done idle accepted count

structure Frame (s t : State) : Prop where
  producer : t.producer = s.producer
  published : t.published = s.published
  accepted : t.accepted = s.accepted
  popped : s.popped.length ≤ t.popped.length

lemma consumer_frame (size : Nat) (s : State) (own : action = .pop ∨ action = .consume) :
    Frame s (Shm.step size s action) := by
  rcases own with rfl | rfl
  · rw [Shm.step]
    split <;> exact ⟨rfl, rfl, rfl, le_refl _⟩
  · rw [Shm.step]
    unfold Shm.consume
    split <;> (try dsimp only) <;> (try split) <;>
      first | exact ⟨rfl, rfl, rfl, le_refl _⟩ | exact ⟨rfl, rfl, rfl, (List.prefix_append _ _).length_le⟩

lemma Frame.trans (first : Frame s t) (second : Frame t r) : Frame s r :=
  ⟨second.producer.trans first.producer, second.published.trans first.published,
    second.accepted.trans first.accepted, le_trans first.popped second.popped⟩

variable {actions : List Action}

lemma frame_run (s : State)
    (each : ∀ t, t.producer = s.producer → ∀ action ∈ actions, Frame t (Shm.step size t action)) :
    Frame s (actions.foldl (Shm.step size) s) := by
  induction actions generalizing s with
  | nil => exact ⟨rfl, rfl, rfl, le_refl _⟩
  | cons action rest ih =>
    have first := each s rfl action List.mem_cons_self
    apply first.trans (ih _ _)
    intro t same other later
    exact each t (same.trans first.producer) other (List.mem_cons_of_mem _ later)

lemma idle_run (idle : s.producer = .idle) (single : ∀ other, .push other ∉ actions) :
    Frame s (actions.foldl (Shm.step size) s) := by
  apply frame_run
  intro t same action listed
  cases action with
  | push other => exact absurd listed (single other)
  | produce =>
    rw [Shm.step, Shm.produce, same, idle]
    exact ⟨rfl, rfl, rfl, le_refl _⟩
  | pop => exact consumer_frame size t (.inl rfl)
  | consume => exact consumer_frame size t (.inr rfl)

lemma Progress.frame (progress : Progress size u message t) (frame : Frame t r) :
    Progress size u message r := by
  obtain ⟨producer, published, accepted, -⟩ := frame
  cases progress with
  | inside p sends own same count => exact .inside p (producer ▸ sends) own (accepted.trans same) (published ▸ count)
  | failed idle same full short =>
    exact .failed (producer.trans idle) (accepted.trans same) (published ▸ full) (published ▸ short)
  | done idle same count => exact .done (producer.trans idle) (accepted.trans same) (published ▸ count)

lemma produce_popped (size : Nat) (s : State) : (produce size s).popped = s.popped := by
  unfold Shm.produce
  split <;> (try split) <;> rfl

section

variable (power : ∃ k, k ≤ 31 ∧ size = 2 ^ k)

include power

lemma Progress.run (progress : Progress size u message t) (inv : Inv size t)
    (grown : u.popped.length ≤ t.popped.length) (actions : List Action)
    (single : ∀ other, .push other ∉ actions) : Progress size u message (actions.foldl (Shm.step size) t) := by
  induction actions generalizing t with
  | nil => exact progress
  | cons action rest ih =>
    have later : ∀ other, .push other ∉ rest := fun other listed => single other (List.mem_cons_of_mem _ listed)
    have side (own : action = .pop ∨ action = .consume) :
        Progress size u message (rest.foldl (Shm.step size) (Shm.step size t action)) := by
      have frame := consumer_frame size t own
      exact ih (progress.frame frame) (inv.step power action) (le_trans grown frame.popped) later
    cases action with
    | push other => exact absurd List.mem_cons_self (single other)
    | produce =>
      apply ih (progress.produce inv power grown) (inv.produce power) _ later
      rw [produce_popped]
      exact grown
    | pop => exact side (.inl rfl)
    | consume => exact side (.inr rfl)

/-- The producer alone comes to the end of its call. -/
lemma Inv.producer_returns (inv : Inv size s) : ∃ count,
    let t := (List.replicate count .produce).foldl (Shm.step size) s
    t.producer = .idle ∧ t.popped = s.popped := by
  induction bound : s.producer.remaining using Nat.strong_induction_on generalizing s with
  | _ left ih =>
    cases inside : s.producer.sending with
    | none =>
      refine ⟨0, ?_, rfl⟩
      cases place : s.producer with
      | idle => exact place
      | _ =>
        rw [place] at inside
        cases inside
    | some p =>
      have less := (inv.produce_cases power inside).1
      obtain ⟨count, idle, popped⟩ := ih _ (bound ▸ less) (inv.produce power) rfl
      refine ⟨count + 1, ?_⟩
      exact ⟨idle, popped.trans (produce_popped size s)⟩

end

def State.free (slotCount : Nat) (s : State) : Nat := slotCount - (s.prodPos + 2 ^ 64 - s.consPos) % 2 ^ 64

lemma Inv.free_eq (inv : Inv size s) (power : ∃ k, k ≤ 31 ∧ size = 2 ^ k) :
    s.free size = s.popped.length + size - s.published.length := by
  have small := slotCount_lt power
  have ordered := inv.order.length_le
  have space := inv.space
  rw [State.free, inv.prodPos, inv.consPos, word_distance ordered (by omega)]
  omega

/-- The call of `op_shm_ring_push` that makes its first check at `u` leaves the chunks for the consumer as they were if
it returns -1. -/
def Traceless (slotCount : Nat) (u : State) : Prop :=
  ∀ after : List Action, (∀ other, .push other ∉ after) →
    let t := after.foldl (Shm.step slotCount) (produce slotCount u)
    t.producer = .idle → t.accepted = u.accepted → t.published = u.published

lemma Inv.traceless_iff (inv : Inv size u) (power : ∃ k, k ≤ 31 ∧ size = 2 ^ k) (place : u.producer = .checking p)
    (start : p.rest = p.message.2) :
    Traceless size u ↔ u.free size = 0 ∨ chunkCount p.message.2.length ≤ u.free size := by
  have space := inv.space
  have progress : Progress size u p.message u := .inside p (place ▸ rfl) rfl rfl (start ▸ rfl)
  have next := progress.produce inv power le_rfl
  have popped := produce_popped size u
  rw [inv.free_eq power]
  constructor
  · intro traceless
    by_contra neither
    obtain ⟨count, idle, same⟩ := (inv.produce power).producer_returns power
    have single : ∀ other, Action.push other ∉ List.replicate count .produce := fun other => by simp
    have bounded := ((inv.produce power).run power (List.replicate count .produce)).space
    cases next.run power (inv.produce power) (ge_of_eq (congrArg _ popped)) _ single with
    | inside q sends =>
      rw [idle] at sends
      cases sends
    | failed _ accepted full _ =>
      rw [traceless _ single idle accepted] at full
      omega
    | done _ _ count =>
      rw [same, popped] at bounded
      omega
  · intro enough after single t idle accepted
    rcases enough with none | enough
    · have full : Shm.produce size u = { u with producer := .idle } := by
        rw [Shm.produce, place]
        dsimp only
        rw [if_pos _]
        have small := slotCount_lt power
        rw [(inv.producer_at place).1, inv.consPos, word_distance inv.order.length_le (by omega)]
        omega
      have frame := @idle_run size (Shm.produce size u) after (by rw [full]) single
      exact frame.published.trans (by rw [full])
    · cases next.run power (inv.produce power) (ge_of_eq (congrArg _ popped)) after single with
      | inside q sends =>
        rw [idle] at sends
        cases sends
      | failed _ _ full short =>
        omega
      | done _ done =>
        rw [accepted] at done
        exact absurd done.symm (by simp)

theorem failed_push_traceless_iff (slotCount : Nat) (power : ∃ k, k ≤ 31 ∧ slotCount = 2 ^ k)
    (earlier before : List Action) (message : Message) (consuming : ∀ action ∈ before, action = .pop ∨ action = .consume) :
    let s := earlier.foldl (Shm.step slotCount) State.init
    let u := before.foldl (Shm.step slotCount) (Shm.step slotCount s (.push message))
    s.producer = .idle → u.published = s.published ∧ u.accepted = s.accepted ∧
      (Traceless slotCount u ↔ u.free slotCount = 0 ∨ chunkCount message.2.length ≤ u.free slotCount) := by
  intro s u idle
  have called : Frame (Shm.step slotCount s (.push message)) u :=
    frame_run _ fun t _ action listed => consumer_frame slotCount t (consuming action listed)
  have inv : Inv slotCount u := (((init_inv slotCount).run power earlier).step power _).run power before
  have push : Shm.step slotCount s (.push message) = if message.2 = [] then s
      else { s with producer := .checking ⟨message, message.2, s.prodPos, true⟩ } := by
    rw [Shm.step, idle]
  rw [push] at called
  by_cases empty : message.2 = []
  · rw [if_pos empty] at called
    refine ⟨called.published, called.accepted, iff_of_true ?_ (.inr ?_)⟩
    · intro after single t _ _
      have still := called.producer.trans idle
      have same : produce slotCount u = u := by rw [Shm.produce, still]
      exact (idle_run (same.symm ▸ still) single).published.trans (by rw [same])
    · rw [empty]
      exact zero_le _
  · rw [if_neg empty] at called
    exact ⟨called.published, called.accepted, inv.traceless_iff power called.producer rfl⟩

theorem failed_push_traceless_full :
    let earlier := .push (7, [1, 2]) :: List.replicate 9 Action.produce
    let s := earlier.foldl (Shm.step 1) State.init
    let u := Shm.step 1 s (.push (8, List.replicate 4081 1))
    s.published = [⟨7, 1, [1, 2]⟩] ∧ u.free 1 = 0 ∧ Traceless 1 u := by
  intro earlier s u
  obtain ⟨-, -, traceless⟩ := failed_push_traceless_iff 1 ⟨0, by decide, rfl⟩ earlier [] (8, List.replicate 4081 1)
    (fun _ none => absurd none List.not_mem_nil) (by decide)
  exact ⟨by decide, by decide, traceless.mpr (.inl (by decide))⟩

/-- A ring of one slot takes the first chunk and is full for the second. -/
lemma long_push_traces (message : Message) (long : slotPayload < message.2.length) :
    ∃ actions : List Action, (∀ other, .push other ∉ actions) ∧
      let t := actions.foldl (Shm.step 1) (Shm.step 1 State.init (.push message))
      t.producer = .idle ∧ t.accepted = [] ∧ t.published ≠ [] := by
  have power : ∃ k, k ≤ 31 ∧ 1 = 2 ^ k := ⟨0, by decide, rfl⟩
  have inv := (init_inv 1).step power (.push message)
  have pushed : Shm.step 1 State.init (.push message) =
      { State.init with producer := .checking ⟨message, message.2, 0, true⟩ } :=
    if_neg fun empty => not_lt_zero _ (empty ▸ long)
  rw [pushed] at inv ⊢
  have free : State.free 1 { State.init with producer := .checking ⟨message, message.2, 0, true⟩ } = 1 := by
    simp [State.free, State.init]
  have visible := mt (inv.traceless_iff power rfl rfl).mp (by
    rw [free]
    unfold chunkCount slotPayload
    unfold slotPayload at long
    dsimp only
    omega)
  simp only [Traceless, not_forall] at visible
  obtain ⟨after, single, idle, failed, traced⟩ := visible
  refine ⟨.produce :: after, by simpa using single, ?_⟩
  rw [List.foldl_cons, Shm.step]
  exact ⟨idle, failed, traced⟩

theorem long_push_fails_visibly :
    ∃ actions : List Action, (∀ other, .push other ∉ actions) ∧
      let t := actions.foldl (Shm.step 1) (Shm.step 1 State.init (.push (7, List.replicate 4081 1)))
      t.producer = .idle ∧ t.accepted = [] ∧ t.published ≠ [] :=
  long_push_traces _ (by rw [List.length_replicate]; decide)

/-- A consumer's call, which loads `prod_pos` at `s` and `len` later, at `t`. -/
def opShmRingReadable (slotCount : Nat) (s t : State) : Bool :=
  s.prodPos != s.consPos && (t.slots (slotIndex slotCount s.consPos)).len != 0

lemma step_published (s : State) (action : Action) : s.published <+: (Shm.step size s action).published := by
  unfold Shm.step Shm.produce Shm.consume
  dsimp only
  split <;> (try split) <;> (try split) <;> first | exact List.prefix_append _ _ | exact List.prefix_rfl

/-- A consumer is told of a chunk exactly if one was there, however far the producer gets during the call. -/
theorem shm_readable_iff (slotCount : Nat) (power : ∃ k, k ≤ 31 ∧ slotCount = 2 ^ k) (actions later : List Action) :
    let s := actions.foldl (Shm.step slotCount) State.init
    let t := later.foldl (Shm.step slotCount) s
    t.popped = s.popped → t.consumer = .idle → (opShmRingReadable slotCount s t = true ↔ s.popped ≠ s.published) := by
  intro s t popped idle
  have inv : Inv slotCount s := (init_inv slotCount).run power actions
  have after : Inv slotCount t := inv.run power later
  obtain ⟨more, grown⟩ : s.published <+: t.published :=
    later.foldlRecOn (motive := fun u : State => s.published <+: u.published) _ List.prefix_rfl
      fun _ grown action _ => grown.trans (step_published _ action)
  have small := slotCount_lt power
  have space := inv.space
  rw [opShmRingReadable, inv.prodPos, inv.consPos, slotIndex_eq power]
  apply Iff.intro
  · intro readable same
    rw [same, bne_self_eq_false] at readable
    cases readable
  · intro differs
    have below := lt_of_le_of_ne inv.order.length_le fun same => differs (inv.order.eq_of_length same)
    have shown : t.published[s.popped.length]? = some s.published[s.popped.length] := by
      rw [← grown, List.getElem?_append_left below, List.getElem?_eq_getElem below]
    have filled := after.sized _ (List.mem_of_getElem? shown)
    have holds := after.held _ _ (Nat.le_of_eq (congrArg _ popped)) shown fun _ => by rw [idle]; rfl
    rw [holds.1]
    simp [filled]
    omega

theorem shm_readable_published :
    let actions := .push (7, [1, 2]) :: List.replicate 9 .produce
    let s := actions.foldl (Shm.step 1) State.init
    let t := [.push (8, [3])].foldl (Shm.step 1) s
    s.popped ≠ s.published ∧ opShmRingReadable 1 s t = true := by
  intro actions s t
  have waits : s.popped ≠ s.published := by decide
  exact ⟨waits, (shm_readable_iff 1 ⟨0, by decide, rfl⟩ actions _ (by decide) (by decide)).mpr waits⟩

end LibOp.Queues.Shm

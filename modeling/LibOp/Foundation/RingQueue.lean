import Mathlib

namespace LibOp.Foundation

open List Function

/-- A ring for one producer and one consumer: the next index, the test for a full ring, the cell of an index. -/
structure Indexing where
  next : Nat → Nat
  full : (head tail : Nat) → Bool
  cell : Nat → Nat

namespace RingQueue

variable {α : Type*}

/-- The producer outside of a push, with its index loaded, past the test, or with its cell written. -/
inductive Producer (α : Type*) where
  | idle
  | loaded (item : α) (head : Nat)
  | granted (item : α) (head : Nat)
  | written (item : α) (head : Nat)
deriving DecidableEq, Repr

/-- The consumer outside of a pop, with its index loaded, past the test, or with its cell read. -/
inductive Consumer (α : Type*) where
  | idle
  | loaded (tail : Nat)
  | granted (tail : Nat)
  | taken (tail : Nat) (item : α)
deriving DecidableEq, Repr

structure State (α : Type*) where
  head : Nat
  tail : Nat
  slots : Nat → α
  producer : Producer α
  consumer : Consumer α
  pushed : List α
  popped : List α

def State.init (null : α) : State α :=
  { head := 0, tail := 0, slots := fun _ => null, producer := .idle, consumer := .idle, pushed := [], popped := [] }

inductive Action (α : Type*) where
  | push (item : α)
  | produce
  | pop
  | consume
deriving DecidableEq, Repr

inductive Reply (α : Type*) where
  | running
  | pushed
  | full
  | popped (item : α)
  | empty
deriving DecidableEq, Repr

variable (ix : Indexing) (cells : Nat)

def produce (s : State α) : Option (State α × Reply α) :=
  match s.producer with
  | .idle => some (s, .running)
  | .loaded item head =>
    if ix.full head s.tail then some ({ s with producer := .idle }, .full)
    else some ({ s with producer := .granted item head }, .running)
  | .granted item head =>
    if ix.cell head < cells then
      some ({ s with slots := Function.update s.slots (ix.cell head) item, producer := .written item head }, .running)
    else none
  | .written item head =>
    some ({ s with head := ix.next head, producer := .idle, pushed := s.pushed ++ [item] }, .pushed)

def consume (s : State α) : Option (State α × Reply α) :=
  match s.consumer with
  | .idle => some (s, .running)
  | .loaded tail =>
    if tail = s.head then some ({ s with consumer := .idle }, .empty)
    else some ({ s with consumer := .granted tail }, .running)
  | .granted tail =>
    if ix.cell tail < cells then some ({ s with consumer := .taken tail (s.slots (ix.cell tail)) }, .running) else none
  | .taken tail item =>
    some ({ s with tail := ix.next tail, consumer := .idle, popped := s.popped ++ [item] }, .popped item)

def step (s : State α) : Action α → Option (State α × Reply α)
  | .push item =>
    match s.producer with
    | .idle => some ({ s with producer := .loaded item s.head }, .running)
    | _ => some (s, .running)
  | .produce => produce ix cells s
  | .pop =>
    match s.consumer with
    | .idle => some ({ s with consumer := .loaded s.tail }, .running)
    | _ => some (s, .running)
  | .consume => consume ix cells s

def run (s : State α) (actions : List (Action α)) : Option (State α) :=
  actions.foldlM (fun s action => (step ix cells s action).map Prod.fst) s

def position (i : Nat) : Nat := ix.next^[i] 0

lemma position_succ (i : Nat) : position ix (i + 1) = ix.next (position ix i) :=
  iterate_succ_apply' ix.next i 0

end RingQueue

open RingQueue

structure Indexing.Lawful (ix : Indexing) (cells room : Nat) : Prop where
  cell_lt : ∀ i, ix.cell (position ix i) < cells
  apart : ∀ i j, i < j → j < i + room → ix.cell (position ix i) ≠ ix.cell (position ix j)
  full_iff : ∀ tail head, tail ≤ head → head ≤ tail + room →
    (ix.full (position ix head) (position ix tail) = true ↔ head = tail + room)

namespace RingQueue

def ProducerOk (ix : Indexing) (room : Nat) (pushed popped : List α) (slots : Nat → α) : Producer α → Prop
  | .idle => True
  | .loaded _ head => head = position ix pushed.length
  | .granted _ head => head = position ix pushed.length ∧ pushed.length < popped.length + room
  | .written item head =>
    head = position ix pushed.length ∧ pushed.length < popped.length + room ∧ slots (ix.cell head) = item

def ConsumerOk (ix : Indexing) (pushed popped : List α) : Consumer α → Prop
  | .idle => True
  | .loaded tail => tail = position ix popped.length
  | .granted tail => tail = position ix popped.length ∧ popped.length < pushed.length
  | .taken tail item => tail = position ix popped.length ∧ pushed[popped.length]? = some item

def Stored (ix : Indexing) (pushed popped : List α) (slots : Nat → α) : Prop :=
  ∀ i, popped.length ≤ i → i < pushed.length → pushed[i]? = some (slots (ix.cell (position ix i)))

structure Inv (ix : Indexing) (room : Nat) (s : State α) : Prop where
  head : s.head = position ix s.pushed.length
  tail : s.tail = position ix s.popped.length
  order : s.popped <+: s.pushed
  space : s.pushed.length ≤ s.popped.length + room
  stored : Stored ix s.pushed s.popped s.slots
  producer : ProducerOk ix room s.pushed s.popped s.slots s.producer
  consumer : ConsumerOk ix s.pushed s.popped s.consumer

variable {ix : Indexing} {cells room : Nat} {s s' : State α} {item : α} {head tail : Nat}

lemma init_inv (ix : Indexing) (room : Nat) (null : α) : Inv ix room (State.init null) where
  head := rfl
  tail := rfl
  order := prefix_rfl
  space := Nat.zero_le _
  stored _ _ high := absurd high (Nat.not_lt_zero _)
  producer := trivial
  consumer := trivial

section

variable (inv : Inv ix room s)

include inv

variable {producer : Producer α}

lemma Inv.move_producer (ok : ProducerOk ix room s.pushed s.popped s.slots producer) :
    Inv ix room { s with producer := producer } :=
  { inv with producer := ok }

lemma Inv.producer_at (place : s.producer = producer) :
    ProducerOk ix room s.pushed s.popped s.slots producer := place ▸ inv.producer

lemma Inv.full_iff (lawful : ix.Lawful cells room) (place : s.producer = .loaded item head) :
    ix.full head s.tail = true ↔ s.pushed.length = s.popped.length + room := by
  have own := inv.producer_at place
  rw [own, inv.tail]
  exact lawful.full_iff _ _ inv.order.length_le inv.space

lemma Inv.write (lawful : ix.Lawful cells room) (place : s.producer = .granted item head) :
    Inv ix room { s with slots := update s.slots (ix.cell head) item, producer := .written item head } := by
  obtain ⟨own, free⟩ := inv.producer_at place
  have stored : Stored ix s.pushed s.popped (update s.slots (ix.cell head) item) := by
    intro i low high
    rw [update_of_ne]
    · exact inv.stored i low high
    · rw [own]
      exact lawful.apart i _ high (by omega)
  exact { inv with stored := stored, producer := ⟨own, free, update_self _ _ _⟩ }

lemma Inv.publish (place : s.producer = .written item head) :
    Inv ix room { s with head := ix.next head, producer := .idle, pushed := s.pushed ++ [item] } := by
  obtain ⟨own, free, here⟩ := inv.producer_at place
  have length : (s.pushed ++ [item]).length = s.pushed.length + 1 := length_append
  have stored : Stored ix (s.pushed ++ [item]) s.popped s.slots := by
    intro i low high
    by_cases last : i = s.pushed.length
    · rw [last, getElem?_concat_length, ← own, here]
    · have inside : i < s.pushed.length := by omega
      rw [getElem?_append_left inside]
      exact inv.stored i low inside
  have consumer : ConsumerOk ix (s.pushed ++ [item]) s.popped s.consumer := by
    have before := inv.consumer
    cases place : s.consumer with
    | idle => exact trivial
    | loaded tail =>
      rw [place] at before
      exact before
    | granted tail =>
      rw [place] at before
      exact ⟨before.1, by rw [length]; exact Nat.lt_succ_of_lt before.2⟩
    | taken tail taken =>
      rw [place] at before
      obtain ⟨inside, -⟩ := List.getElem?_eq_some_iff.mp before.2
      exact ⟨before.1, (getElem?_append_left inside).trans before.2⟩
  exact
    { head := by rw [length, position_succ, own]
      tail := inv.tail
      order := inv.order.trans (prefix_append _ _)
      space := by rw [length]; exact free
      stored := stored
      producer := trivial
      consumer := consumer }

lemma Inv.produce (lawful : ix.Lawful cells room) :
    ∃ s' reply, produce ix cells s = some (s', reply) ∧ Inv ix room s' := by
  unfold RingQueue.produce
  split
  · exact ⟨_, _, rfl, inv⟩
  next item head place =>
    have exact := inv.full_iff lawful place
    have own := inv.producer_at place
    split
    · exact ⟨_, _, rfl, inv.move_producer trivial⟩
    next free =>
      have space := inv.space
      have below : s.pushed.length < s.popped.length + room := by
        have other := mt exact.mpr free
        omega
      exact ⟨_, _, rfl, inv.move_producer ⟨own, below⟩⟩
  next item head place =>
    have own : head = position ix s.pushed.length := (inv.producer_at place).1
    rw [if_pos (own ▸ lawful.cell_lt _)]
    exact ⟨_, _, rfl, inv.write lawful place⟩
  next item head place => exact ⟨_, _, rfl, inv.publish place⟩

variable {consumer : Consumer α}

lemma Inv.move_consumer (ok : ConsumerOk ix s.pushed s.popped consumer) : Inv ix room { s with consumer := consumer } :=
  { inv with consumer := ok }

lemma Inv.consumer_at (place : s.consumer = consumer) : ConsumerOk ix s.pushed s.popped consumer := place ▸ inv.consumer

end

lemma concat_prefix {popped pushed : List α} (order : popped <+: pushed) (next : pushed[popped.length]? = some item) :
    popped ++ [item] <+: pushed := by
  obtain ⟨rest, rfl⟩ := order
  rw [getElem?_append_right le_rfl, Nat.sub_self] at next
  cases rest with
  | nil => cases next
  | cons first rest =>
    cases next
    exact ⟨rest, append_assoc _ _ _⟩

section

variable (inv : Inv ix room s)

include inv

lemma Inv.release (place : s.consumer = .taken tail item) :
    Inv ix room { s with tail := ix.next tail, consumer := .idle, popped := s.popped ++ [item] } := by
  obtain ⟨own, next⟩ := inv.consumer_at place
  have length : (s.popped ++ [item]).length = s.popped.length + 1 := length_append
  have wider : s.pushed.length ≤ (s.popped ++ [item]).length + room := by
    have space := inv.space
    omega
  have producer : ProducerOk ix room s.pushed (s.popped ++ [item]) s.slots s.producer := by
    have before := inv.producer
    cases place : s.producer with
    | idle => exact trivial
    | loaded item head =>
      rw [place] at before
      exact before
    | granted item head =>
      rw [place] at before
      exact ⟨before.1, by rw [length]; have := before.2; omega⟩
    | written item head =>
      rw [place] at before
      exact ⟨before.1, by rw [length]; have := before.2.1; omega, before.2.2⟩
  exact
    { head := inv.head
      tail := by rw [length, position_succ, own]
      order := concat_prefix inv.order next
      space := wider
      stored := fun i low high => inv.stored i (by rw [length] at low; omega) high
      producer := producer
      consumer := trivial }

variable (lawful : ix.Lawful cells room)

include lawful

lemma Inv.consume : ∃ s' reply, consume ix cells s = some (s', reply) ∧ Inv ix room s' := by
  unfold RingQueue.consume
  split
  · exact ⟨_, _, rfl, inv⟩
  next tail place =>
    have own := inv.consumer_at place
    split
    · exact ⟨_, _, rfl, inv.move_consumer trivial⟩
    next other =>
      have below : s.popped.length < s.pushed.length := by
        apply Nat.lt_of_le_of_ne inv.order.length_le
        intro same
        rw [own, inv.head, same] at other
        exact other rfl
      exact ⟨_, _, rfl, inv.move_consumer ⟨own, below⟩⟩
  next tail place =>
    obtain ⟨own, below⟩ := inv.consumer_at place
    rw [if_pos (own ▸ lawful.cell_lt _)]
    have next := inv.stored s.popped.length le_rfl below
    rw [← own] at next
    exact ⟨_, _, rfl, inv.move_consumer ⟨own, next⟩⟩
  next tail item place => exact ⟨_, _, rfl, inv.release place⟩

lemma Inv.step (action : Action α) : ∃ s' reply, step ix cells s action = some (s', reply) ∧ Inv ix room s' := by
  cases action with
  | push item =>
    rw [RingQueue.step]
    split
    · exact ⟨_, _, rfl, inv.move_producer inv.head⟩
    · exact ⟨_, _, rfl, inv⟩
  | produce => exact inv.produce lawful
  | pop =>
    rw [RingQueue.step]
    split
    · exact ⟨_, _, rfl, inv.move_consumer inv.tail⟩
    · exact ⟨_, _, rfl, inv⟩
  | consume => exact inv.consume lawful

lemma Inv.run (actions : List (Action α)) : ∃ s', run ix cells s actions = some s' ∧ Inv ix room s' := by
  induction actions generalizing s with
  | nil => exact ⟨s, rfl, inv⟩
  | cons action rest ih =>
    obtain ⟨next, reply, stepped, kept⟩ := inv.step lawful action
    obtain ⟨last, ran, final⟩ := ih kept
    apply Exists.intro last
    rw [RingQueue.run, foldlM_cons, stepped]
    exact ⟨ran, final⟩

lemma Inv.full_reply (failed : RingQueue.produce ix cells s = some (s', .full)) :
    s.pushed.length = s.popped.length + room := by
  unfold RingQueue.produce at failed
  split at failed
  · cases failed
  next item head place =>
    split at failed
    next full => exact (inv.full_iff lawful place).mp full
    · cases failed
  · split at failed <;> cases failed
  · cases failed

end

/-- The steps stay within the cells, items are popped in the order of the pushes, and the ring is full only with `room`
items. -/
def Fifo (α : Type*) (ix : Indexing) (cells room : Nat) : Prop :=
  ∀ (null : α) (actions : List (Action α)), ∃ s, RingQueue.run ix cells (State.init null) actions = some s ∧
    s.popped <+: s.pushed ∧ Stored ix s.pushed s.popped s.slots ∧
      ∀ s', RingQueue.step ix cells s .produce = some (s', .full) → s.pushed.length = s.popped.length + room

end RingQueue

lemma Indexing.Lawful.fifo {α : Type*} {ix : Indexing} {cells room : Nat} (lawful : ix.Lawful cells room) :
    Fifo α ix cells room := by
  intro null actions
  obtain ⟨s, ran, inv⟩ := (init_inv ix room null).run lawful actions
  exact ⟨s, ran, inv.order, inv.stored, fun s' failed => inv.full_reply lawful failed⟩

end LibOp.Foundation

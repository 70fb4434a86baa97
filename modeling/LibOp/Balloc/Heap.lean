import Mathlib

namespace LibOp.Balloc

open Function

/-- The number of the slab in `block_list` and the index there. -/
structure Elem where
  slab : Nat
  index : Nat
deriving DecidableEq, Repr

def magazineSize : Nat := 32

/-- A thread outside of the allocator, or in `op_bh_alloc` or `op_bh_free` before the lock or before the magazine. -/
inductive Pc where
  | idle
  | refilling
  | popping
  | flushing (ptr : Elem)
  | pushing (ptr : Elem)
deriving DecidableEq, Repr

/-- One heap and the magazines of the threads for it. The heap reads the first word of an element as a link, whoever
holds it writes it. `live` are the elements of the callers; no step reads it. -/
structure State (T : Type*) where
  next : Elem → Option Elem
  freeHead : Option Elem
  blocks : Nat
  nfree : Nat
  nused : Nat
  magazine : T → List Elem
  pc : T → Pc
  live : Elem → Bool

variable {T : Type*}

/-- The heap of `op_bh_alloc_struct`, before its first slab. -/
def State.empty : State T :=
  { next := fun _ => none, freeHead := none, blocks := 0, nfree := 0, nused := 0, magazine := fun _ => [],
    pc := fun _ => .idle, live := fun _ => false }

/-- `FREELIST_NEXT(elem) = bh->free_head; bh->free_head = elem;` -/
def State.pushFree (s : State T) (elem : Elem) : State T :=
  { s with next := update s.next elem s.freeHead, freeHead := some elem }

def growLoop (slab : Nat) : Nat → State T → State T
  | 0, s => s
  | i + 1, s => growLoop slab i (s.pushFree ⟨slab, i⟩)

def State.addSlab (s : State T) (elemsPerBlock : Nat) : State T :=
  { s with blocks := s.blocks + 1, nfree := s.nfree + elemsPerBlock }

def opBhGrow (elemsPerBlock : Nat) (s : State T) : State T :=
  growLoop s.blocks elemsPerBlock (s.addSlab elemsPerBlock)

variable [DecidableEq T]

def State.setMagazine (s : State T) (t : T) (items : List Elem) : State T :=
  { s with magazine := update s.magazine t items }

def State.goto (s : State T) (t : T) (pc : Pc) : State T := { s with pc := update s.pc t pc }

def State.popFree (s : State T) (t : T) (elem : Elem) : State T :=
  { s.setMagazine t (s.magazine t ++ [elem]) with
    freeHead := s.next elem
    nfree := s.nfree - 1
    nused := s.nused + 1 }

/-- The loop of `mag_refill_locked`: no result at a null link or behind the magazine. -/
def magRefillLocked (elemsPerBlock : Nat) (t : T) : (want : Nat) → State T → Option (State T)
  | 0, s => some s
  | want + 1, s =>
    let s := if s.freeHead = none then opBhGrow elemsPerBlock s else s
    match s.freeHead with
    | none => none
    | some elem =>
      if (s.magazine t).length < magazineSize then magRefillLocked elemsPerBlock t want (s.popFree t elem) else none

def State.flushOne (s : State T) (t : T) (elem : Elem) : State T :=
  { (s.setMagazine t (s.magazine t).dropLast).pushFree elem with
    nfree := s.nfree + 1
    nused := s.nused - 1 }

/-- The loop of `mag_flush_locked`: no result before the magazine. -/
def magFlushLocked (t : T) : (flushCount : Nat) → State T → Option (State T)
  | 0, s => some s
  | flushCount + 1, s =>
    match (s.magazine t).getLast? with
    | none => none
    | some elem => magFlushLocked t flushCount (s.flushOne t elem)

/-- `mag->items[--mag->count]`, cleared for the caller. -/
def State.hand (s : State T) (t : T) (elem : Elem) : State T :=
  { (s.setMagazine t (s.magazine t).dropLast).goto t .idle with
    next := update s.next elem none
    live := update s.live elem true }

/-- `mag->items[mag->count++] = ptr` -/
def State.putBack (s : State T) (t : T) (elem : Elem) : State T :=
  (s.setMagazine t (s.magazine t ++ [elem])).goto t .idle

/-- The caller's element goes to `op_bh_free`, which may fill it with a pattern. -/
def State.giveUp (s : State T) (t : T) (elem : Elem) (word : Option Elem) : State T :=
  { s.goto t (if (s.magazine t).length ≥ magazineSize then .flushing elem else .pushing elem) with
    next := update s.next elem word
    live := update s.live elem false }

/-- A call, the next step of a thread, or a write of a caller to its element. -/
inductive Action (T : Type*) where
  | alloc (t : T)
  | free (t : T) (ptr : Elem) (word : Option Elem)
  | advance (t : T)
  | write (ptr : Elem) (word : Option Elem)

def advance (elemsPerBlock : Nat) (s : State T) (t : T) : Option (State T × Option Elem) :=
  match s.pc t with
  | .idle => some (s, none)
  | .refilling => (magRefillLocked elemsPerBlock t (magazineSize / 2) s).map fun s => (s.goto t .popping, none)
  | .popping =>
    match (s.magazine t).getLast? with
    | none => none
    | some elem => some (s.hand t elem, some elem)
  | .flushing ptr => (magFlushLocked t (magazineSize / 2) s).map fun s => (s.goto t (.pushing ptr), none)
  | .pushing ptr => if (s.magazine t).length < magazineSize then some (s.putBack t ptr, none) else none

/-- Calls of a thread inside the allocator, and frees of or writes to elements that no caller holds, do not occur. -/
def step (elemsPerBlock : Nat) (s : State T) : Action T → Option (State T × Option Elem)
  | .alloc t =>
    if s.pc t = .idle then some (s.goto t (if s.magazine t = [] then .refilling else .popping), none) else some (s, none)
  | .free t ptr word => if s.pc t = .idle ∧ s.live ptr = true then some (s.giveUp t ptr word, none) else some (s, none)
  | .advance t => advance elemsPerBlock s t
  | .write ptr word =>
    if s.live ptr = true then some ({ s with next := update s.next ptr word }, none) else some (s, none)

def opBhCreate (elemsPerBlock : Nat) : State T := opBhGrow elemsPerBlock .empty

def run (elemsPerBlock : Nat) (s : State T) (actions : List (Action T)) : Option (State T) :=
  actions.foldlM (fun s action => (step elemsPerBlock s action).map Prod.fst) s

end LibOp.Balloc

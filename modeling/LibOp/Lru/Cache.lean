import LibOp.Foundation.DoublyLinked
import LibOp.HashTable.Table

namespace LibOp.Lru

open Foundation HashTable

def htabHashStr (s : List UInt8) : UInt64 :=
  fixHash (s.foldl (fun h c => (h ^^^ c.toUInt64) * 1099511628211) 14695981039346656037)

variable {K V : Type} [Inhabited K] [Inhabited V]

def htabEqStr (str : K → List UInt8) (a b : K) : Bool := decide (str a = str b)

/-- `op_htab_create_str`, where `str` reads a key. The outer `none` ends the process in `op_calloc`. The inner one is a
table without slots, as `next_pow2` wrapped to zero; each access is out of bounds. -/
def htabCreateStr (str : K → List UInt8) (initialCap : Nat) : Option (Option (Htab K V)) :=
  let cap := nextPow2 initialCap
  if 2 ^ 64 ≤ cap * 24 then none
  else if cap = 0 then some none
  else some (some (htabCreate (fun key => htabHashStr (str key)) (htabEqStr str) initialCap))

structure LruEntry (K V : Type) where
  key : K
  val : V
deriving DecidableEq

/-- `struct op_lru`. Entries are addresses; `list` has the ends and links, `unused` is the first address never
allocated. `evictCb` tells of a callback and `handed` what it was passed. -/
structure OpLru (K V : Type) where
  ht : Option (Htab K (Option Nat))
  list : DList Nat
  entry : Nat → LruEntry K V
  unused : Nat
  size : Nat
  capacity : Nat
  evictCb : Bool
  handed : List (LruEntry K V)

def lruCreateCommon (capacity : Nat) (evictCb : Bool) (ht : Option (Htab K (Option Nat))) : OpLru K V :=
  { ht := ht, list := { head := none, tail := none, prev := fun _ => none, next := fun _ => none },
    entry := fun _ => { key := default, val := default }, unused := 0, size := 0,
    capacity := if capacity > 0 then capacity else 1, evictCb := evictCb, handed := [] }

def lruCreate (str : K → List UInt8) (capacity : Nat) (evictCb : Bool) : Option (OpLru K V) := do
  let initial := if capacity < 16 then 16 else capacity
  let ht ← htabCreateStr str initial
  some (lruCreateCommon capacity evictCb ht)

def callEvict (lru : OpLru K V) (e : LruEntry K V) : OpLru K V :=
  { lru with handed := if lru.evictCb then lru.handed ++ [e] else lru.handed }

/-- What `lru_evict_tail` and `op_lru_delete` share once the entry is out of the table. -/
def dropEntry (lru : OpLru K V) (e : Nat) (ht : Htab K (Option Nat)) : OpLru K V :=
  callEvict { lru with list := lru.list.unlink e, ht := some ht, size := lru.size - 1 } (lru.entry e)

def lruEvictTail (lru : OpLru K V) : Option (OpLru K V) :=
  match lru.list.tail with
  | none => some lru
  | some e => do
    let ht ← lru.ht
    let (ht, _) ← htabDel ht (lru.entry e).key
    some (dropEntry lru e ht)

def lruGet (lru : OpLru K V) (key : K) : Option (OpLru K V × V) := do
  let ht ← lru.ht
  match ← htabGet ht key with
  | none => some (lru, default)
  | some e => some ({ lru with list := lru.list.promote e }, (lru.entry e).val)

/-- The branch of `op_lru_set` for a key that is there. -/
def updateEntry [DecidableEq V] (lru : OpLru K V) (e : Nat) (key : K) (val : V) : OpLru K V :=
  let told := if (lru.entry e).val ≠ val then callEvict lru (lru.entry e) else lru
  { told with entry := Function.update told.entry e { key := key, val := val }, list := told.list.promote e }

def evictIfFull (lru : OpLru K V) : Option (OpLru K V) :=
  if lru.capacity ≤ lru.size then lruEvictTail lru else some lru

/-- The rest of `op_lru_set` for a new key. -/
def insertEntry (lru : OpLru K V) (key : K) (val : V) : Option (OpLru K V) := do
  let e := lru.unused
  let ht ← lru.ht
  let (ht, _, _) ← htabSet ht key (some e)
  some { lru with ht := some ht, entry := Function.update lru.entry e { key := key, val := val },
                  unused := e + 1, list := lru.list.pushHead e, size := lru.size + 1 }

def lruSet [DecidableEq V] (lru : OpLru K V) (key : K) (val : V) : Option (OpLru K V) := do
  let ht ← lru.ht
  match ← htabGet ht key with
  | some e => some (updateEntry lru e key val)
  | none =>
    let lru ← evictIfFull lru
    insertEntry lru key val

def lruDelete (lru : OpLru K V) (key : K) : Option (OpLru K V × Bool) := do
  let ht ← lru.ht
  let (ht, found) ← htabDel ht key
  match found with
  | none => some ({ lru with ht := some ht }, false)
  | some e => some (dropEntry lru e ht, true)

/-- The loop of `op_lru_flush`; `none` if it is still running after so many rounds. -/
def flushLoop : Nat → OpLru K V → Option (OpLru K V)
  | 0, _ => none
  | rounds + 1, lru =>
    match lru.list.tail with
    | none => some lru
    | some _ => do
      let lru ← lruEvictTail lru
      flushLoop rounds lru

def lruFlush (lru : OpLru K V) : Option (OpLru K V) := flushLoop (lru.size + 1) lru

/-- The loop of `op_lru_foreach`; the callback tells whether to continue. -/
def foreachLoop {σ : Type} (lru : OpLru K V) (cb : σ → LruEntry K V → σ × Bool) : Nat → Option Nat → σ → Option σ
  | 0, _, _ => none
  | rounds + 1, e, userdata =>
    match e with
    | none => some userdata
    | some e =>
      let (userdata, go) := cb userdata (lru.entry e)
      if go then foreachLoop lru cb rounds (lru.list.next e) userdata else some userdata

def lruForeach {σ : Type} (lru : OpLru K V) (cb : σ → LruEntry K V → σ × Bool) (userdata : σ) : Option σ :=
  foreachLoop lru cb (lru.size + 1) lru.list.head userdata

inductive LruOp (K V : Type) where
  | set (key : K) (val : V)
  | get (key : K)
  | delete (key : K)
  | flush

inductive LruReply (V : Type) where
  | set
  | get (val : V)
  | delete (found : Bool)
  | flush
deriving DecidableEq

def lruStep [DecidableEq V] (lru : OpLru K V) : LruOp K V → Option (OpLru K V × LruReply V)
  | .set key val => do
    let lru ← lruSet lru key val
    some (lru, .set)
  | .get key => do
    let (lru, val) ← lruGet lru key
    some (lru, .get val)
  | .delete key => do
    let (lru, found) ← lruDelete lru key
    some (lru, .delete found)
  | .flush => do
    let lru ← lruFlush lru
    some (lru, .flush)

end LibOp.Lru

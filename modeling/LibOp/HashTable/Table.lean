import Mathlib

namespace LibOp.HashTable

/-- `op_htab_slot_t`. A zero hash marks the slot empty. -/
structure HtabSlot (K V : Type) where
  key : K
  val : V
  hash : UInt64

/-- `struct op_htab`, with the slots as a function of the index up to `mask`. -/
structure Htab (K V : Type) where
  hashFn : K → UInt64
  eqFn : K → K → Bool
  slots : Nat → HtabSlot K V
  mask : Nat
  count : Nat

def fixHash (h : UInt64) : UInt64 := if h ≠ 0 then h else 1

/-- The subtraction wraps modulo `2 ^ 64` before it is masked. -/
def dib (mask i : Nat) (h : UInt64) : Nat := ((i + 2 ^ 64 - (h.toNat &&& mask)) % 2 ^ 64) &&& mask

def nextPow2 (n : Nat) : Nat :=
  if n < 16 then 16
  else
    let n := n - 1
    let n := n ||| (n >>> 1)
    let n := n ||| (n >>> 2)
    let n := n ||| (n >>> 4)
    let n := n ||| (n >>> 8)
    let n := n ||| (n >>> 16)
    let n := n ||| (n >>> 32)
    (n + 1) % 2 ^ 64

variable {K V : Type}

/-- The loop of `htab_lookup` and `htab_find_idx`. The outer `none` is a loop still running, the inner one a missing
key. -/
def probe (ht : Htab K V) (key : K) (hash : UInt64) : Nat → Nat → Nat → Option (Option Nat)
  | 0, _, _ => none
  | rounds + 1, i, dist =>
    let s := ht.slots i
    if s.hash = 0 then some none
    else if dib ht.mask i s.hash < dist then some none
    else if s.hash = hash ∧ ht.eqFn s.key key then some (some i)
    else probe ht key hash rounds ((i + 1) &&& ht.mask) (dist + 1)

def htabFindIdx (ht : Htab K V) (key : K) (hash : UInt64) : Option (Option Nat) :=
  probe ht key hash (ht.mask + 1) (hash.toNat &&& ht.mask) 0

def htabLookup (ht : Htab K V) (key : K) (hash : UInt64) : Option (Option (HtabSlot K V)) :=
  (probe ht key hash (ht.mask + 1) (hash.toNat &&& ht.mask) 0).map (Option.map ht.slots)

def htabHas (ht : Htab K V) (key : K) : Option Bool := do
  let s ← htabLookup ht key (fixHash (ht.hashFn key))
  some s.isSome

def htabSize (ht : Htab K V) : Nat := ht.count

def htabGet [Inhabited V] (ht : Htab K V) (key : K) : Option V := do
  match ← htabLookup ht key (fixHash (ht.hashFn key)) with
  | some s => some s.val
  | none => some default

/-- The loop of `htab_insert_slot`; `carried` has no slot yet. -/
def insertLoop (mask : Nat) : Nat → (Nat → HtabSlot K V) → HtabSlot K V → Nat → Nat → Option (Nat → HtabSlot K V)
  | 0, _, _, _, _ => none
  | rounds + 1, slots, carried, i, dist =>
    let s := slots i
    if s.hash = 0 then some (Function.update slots i carried)
    else
      let sittingDist := dib mask i s.hash
      if sittingDist < dist then
        insertLoop mask rounds (Function.update slots i carried) s ((i + 1) &&& mask) (sittingDist + 1)
      else insertLoop mask rounds slots carried ((i + 1) &&& mask) (dist + 1)

def htabInsertSlot (slots : Nat → HtabSlot K V) (mask : Nat) (key : K) (val : V) (hash : UInt64) :
    Option (Nat → HtabSlot K V) :=
  insertLoop mask (mask + 1) slots ⟨key, val, hash⟩ (hash.toNat &&& mask) 0

variable [Inhabited K] [Inhabited V]

def emptySlot : HtabSlot K V := ⟨default, default, 0⟩

def shiftLoop (mask : Nat) : Nat → (Nat → HtabSlot K V) → Nat → Option (Nat → HtabSlot K V)
  | 0, _, _ => none
  | rounds + 1, slots, i =>
    let j := (i + 1) &&& mask
    let next := slots j
    if next.hash = 0 ∨ dib mask j next.hash = 0 then some (Function.update slots i emptySlot)
    else shiftLoop mask rounds (Function.update slots i next) j

def htabDelAt (ht : Htab K V) (i : Nat) : Option (Htab K V) := do
  let slots ← shiftLoop ht.mask (ht.mask + 1) ht.slots i
  some { ht with slots := slots, count := ht.count - 1 }

def rehash (old : Nat → HtabSlot K V) (newMask : Nat) (newSlots : Nat → HtabSlot K V) (i : Nat) :
    Option (Nat → HtabSlot K V) :=
  let s := old i
  if s.hash ≠ 0 then htabInsertSlot newSlots newMask s.key s.val s.hash else some newSlots

def htabResize (ht : Htab K V) (newCap : Nat) : Option (Htab K V) := do
  let newMask := newCap - 1
  let oldCap := ht.mask + 1
  let newSlots ← (List.range oldCap).foldlM (rehash ht.slots newMask) (fun _ => emptySlot)
  some { ht with slots := newSlots, mask := newMask }

def htabMaybeGrow (ht : Htab K V) : Option (Htab K V) :=
  let cap := ht.mask + 1
  if ht.count * 4 % 2 ^ 64 ≥ cap * 3 % 2 ^ 64 then htabResize ht (cap * 2 % 2 ^ 64) else some ht

def htabCreate (hashFn : K → UInt64) (eqFn : K → K → Bool) (initialCap : Nat) : Htab K V :=
  { hashFn := hashFn, eqFn := eqFn, slots := fun _ => emptySlot, mask := nextPow2 initialCap - 1, count := 0 }

/-- The insertion that `op_htab_set` and `op_htab_get_or_set` share. -/
def htabInsertNew (ht : Htab K V) (key : K) (val : V) (hash : UInt64) : Option (Htab K V) := do
  let grown ← htabMaybeGrow ht
  let slots ← htabInsertSlot grown.slots grown.mask key val hash
  some { grown with slots := slots, count := grown.count + 1 }

/-- The table, the result code and `*old_val`. -/
def htabSet (ht : Htab K V) (key : K) (val : V) : Option (Htab K V × Nat × V) := do
  let hash := fixHash (ht.hashFn key)
  match ← htabFindIdx ht key hash with
  | some i =>
    let s := ht.slots i
    some ({ ht with slots := Function.update ht.slots i { s with val := val } }, 0, s.val)
  | none =>
    let inserted ← htabInsertNew ht key val hash
    some (inserted, 1, default)

def htabDel (ht : Htab K V) (key : K) : Option (Htab K V × V) := do
  let hash := fixHash (ht.hashFn key)
  match ← htabFindIdx ht key hash with
  | none => some (ht, default)
  | some i =>
    let val := (ht.slots i).val
    let deleted ← htabDelAt ht i
    some (deleted, val)

/-- The table, the value and `*created`. -/
def htabGetOrSet (ht : Htab K V) (key : K) (val : V) : Option (Htab K V × V × Bool) := do
  let hash := fixHash (ht.hashFn key)
  match ← htabFindIdx ht key hash with
  | some i => some (ht, (ht.slots i).val, false)
  | none =>
    let inserted ← htabInsertNew ht key val hash
    some (inserted, val, true)

def htabCompact (ht : Htab K V) : Option (Htab K V) :=
  let newCap := nextPow2 ((ht.count * 2 + 1) % 2 ^ 64)
  if newCap < ht.mask + 1 then htabResize ht newCap else some ht

end LibOp.HashTable

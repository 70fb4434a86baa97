import LibOp.Foundation.Runs

namespace LibOp.Skiplist

def skiplistMaxLevel : Nat := 32

/-- A non-null `slnode_t *`: the sentinel or a node, by its address. -/
inductive Loc where
  | head
  | node (a : Nat)
deriving DecidableEq

/-- The default pointer `P` is null. The field `level` is the length of `forward`. -/
structure SlNode (P : Type) where
  key : P
  val : P
  prev : Option Loc
  forward : List (Option Nat)

/-- `head` are the forward links of the sentinel, `unused` the first address never allocated. -/
structure OpSkiplist (P : Type) where
  head : List (Option Nat)
  nodes : Nat → Option (SlNode P)
  unused : Nat
  tail : Option Nat
  cmp : P → P → Int
  size : Nat
  level : Nat

section

variable {P : Type}

def nodeNew (level : Nat) (key val : P) : SlNode P := ⟨key, val, none, List.replicate level none⟩

/-- `x->forward[i]`; `none` is an access outside of the allocated memory. -/
def OpSkiplist.forward (sl : OpSkiplist P) : Loc → Nat → Option (Option Nat)
  | .head, i => sl.head[i]?
  | .node a, i => (sl.nodes a).bind fun n => n.forward[i]?

def OpSkiplist.setForward (sl : OpSkiplist P) (i : Nat) (p : Option Nat) : Loc → Option (OpSkiplist P)
  | .head => if i < sl.head.length then some { sl with head := sl.head.set i p } else none
  | .node a => do
    let n ← sl.nodes a
    if i < n.forward.length then
      some { sl with nodes := Function.update sl.nodes a (some { n with forward := n.forward.set i p }) }
    else none

def OpSkiplist.setPrev (sl : OpSkiplist P) (a : Nat) (p : Option Loc) : Option (OpSkiplist P) := do
  let n ← sl.nodes a
  some { sl with nodes := Function.update sl.nodes a (some { n with prev := p }) }

end

variable {P : Type} {σ : Type}

/-- The loop of `random_level`, for at most 31 words. -/
def randomLevelLoop (bits : Nat → UInt32) : Nat → Nat → Nat
  | 0, lvl => lvl
  | rounds + 1, lvl => if bits lvl &&& 3 = 0 then randomLevelLoop bits rounds (lvl + 1) else lvl

def randomLevel (bits : Nat → UInt32) : Nat := randomLevelLoop bits (skiplistMaxLevel - 1) 1

def opSkiplistCreate (cmp : P → P → Int) : OpSkiplist P :=
  { head := List.replicate skiplistMaxLevel none, nodes := fun _ => none, unused := 0, tail := none, cmp := cmp,
    size := 0, level := 1 }

def advance (sl : OpSkiplist P) (before : P → Bool) (i : Nat) : Nat → Loc → Option Loc
  | 0, _ => none
  | rounds + 1, x => do
    match ← sl.forward x i with
    | none => some x
    | some a =>
      let n ← sl.nodes a
      if before n.key then advance sl before i rounds (.node a) else some x

/-- Where the search ends, and the array `update`. -/
def descend (sl : OpSkiplist P) (before : P → Bool) : Nat → Loc → Option (Loc × List Loc)
  | 0, x => some (x, [])
  | i + 1, x => do
    let y ← advance sl before i (sl.size + 1) x
    let (z, update) ← descend sl before i y
    some (z, update ++ [y])

def seek (sl : OpSkiplist P) (before : P → Bool) : Option (Option Nat × List Loc) := do
  let (x, update) ← descend sl before sl.level .head
  let next ← sl.forward x 0
  some (next, update)

/-- `x != NULL && sl->cmp(x->key, key) == 0` -/
def hit (sl : OpSkiplist P) (key : P) : Option Nat → Option (Option (Nat × SlNode P))
  | none => some none
  | some a => do
    let n ← sl.nodes a
    some (if sl.cmp n.key key = 0 then some (a, n) else none)

def spliceIn (a : Nat) (update : List Loc) (sl : OpSkiplist P) (i : Nat) : Option (OpSkiplist P) := do
  let u ← update[i]?
  let next ← sl.forward u i
  let sl ← sl.setForward i next (.node a)
  sl.setForward i (some a) u

/-- The deletion loop from level `i` on. -/
def spliceOut (a : Nat) (update : List Loc) : Nat → Nat → OpSkiplist P → Option (OpSkiplist P)
  | 0, _, sl => some sl
  | rounds + 1, i, sl => do
    let u ← update[i]?
    let next ← sl.forward u i
    if next ≠ some a then some sl
    else
      let after ← sl.forward (.node a) i
      let sl ← sl.setForward i after u
      spliceOut a update rounds (i + 1) sl

def joinBack (sl : OpSkiplist P) (a : Nat) (first : Loc) : Option (OpSkiplist P) := do
  let linked ← sl.setPrev a (some first)
  match ← linked.forward (.node a) 0 with
  | some b => linked.setPrev b (some (.node a))
  | none => some { linked with tail := some a }

/-- The backward links and the tail after a deletion. -/
def partBack (sl : OpSkiplist P) (next : Option Nat) (prev : Option Loc) : Option (OpSkiplist P) :=
  match next with
  | some b => sl.setPrev b prev
  | none =>
    some { sl with tail := match prev with
      | some (.node p) => some p
      | _ => none }

/-- The loop that lowers `sl->level`. -/
def shrink (head : List (Option Nat)) : Nat → Option Nat
  | lvl + 2 => do
    let top ← head[lvl + 1]?
    if top = none then shrink head (lvl + 1) else some (lvl + 2)
  | lvl => some lvl

variable [Inhabited P]

def opSkiplistSet (sl : OpSkiplist P) (key val : P) (bits : Nat → UInt32) : Option (OpSkiplist P × Nat × P) := do
  let (x, update) ← seek sl (fun k => sl.cmp k key < 0)
  match ← hit sl key x with
  | some (a, n) =>
    some ({ sl with nodes := Function.update sl.nodes a (some { n with key := key, val := val }) }, 0, n.val)
  | none =>
    let lvl := randomLevel bits
    let update := update ++ List.replicate (lvl - sl.level) .head
    let a := sl.unused
    let placed := { sl with
      level := if lvl > sl.level then lvl else sl.level
      unused := a + 1
      nodes := Function.update sl.nodes a (some (nodeNew lvl key val)) }
    let spliced ← (List.range lvl).foldlM (spliceIn a update) placed
    let first ← update[0]?
    let linked ← joinBack spliced a first
    some ({ linked with size := linked.size + 1 }, 1, default)

def opSkiplistDel (sl : OpSkiplist P) (key : P) : Option (OpSkiplist P × P) := do
  let (x, update) ← seek sl (fun k => sl.cmp k key < 0)
  match ← hit sl key x with
  | none => some (sl, default)
  | some (a, _) =>
    let spliced ← spliceOut a update sl.level 0 sl
    let n ← spliced.nodes a
    let next ← n.forward[0]?
    let linked ← partBack spliced next n.prev
    let level ← shrink linked.head linked.level
    some ({ linked with level := level, nodes := Function.update linked.nodes a none, size := linked.size - 1 }, n.val)

def opSkiplistGet (sl : OpSkiplist P) (key : P) : Option P := do
  let (x, _) ← seek sl (fun k => sl.cmp k key < 0)
  match ← hit sl key x with
  | some (_, n) => some n.val
  | none => some default

def opSkiplistHas (sl : OpSkiplist P) (key : P) : Option Bool := do
  let (x, _) ← seek sl (fun k => sl.cmp k key < 0)
  let found ← hit sl key x
  some found.isSome

/-- `x ? x->key : NULL` -/
def keyAt (sl : OpSkiplist P) : Option Nat → Option P
  | none => some default
  | some a => (sl.nodes a).map SlNode.key

def opSkiplistMinKey (sl : OpSkiplist P) : Option P := do
  let first ← sl.forward .head 0
  keyAt sl first

def opSkiplistMaxKey (sl : OpSkiplist P) : Option P := keyAt sl sl.tail

def opSkiplistLowerBound (sl : OpSkiplist P) (key : P) : Option P := do
  let (x, _) ← seek sl (fun k => sl.cmp k key < 0)
  keyAt sl x

def opSkiplistUpperBound (sl : OpSkiplist P) (key : P) : Option P := do
  let (x, _) ← seek sl (fun k => sl.cmp k key ≤ 0)
  keyAt sl x

/-- The loop of `op_skiplist_foreach`. -/
def foreachFrom (sl : OpSkiplist P) (fn : σ → P → P → σ × Bool) : Nat → Option Nat → σ → Option σ
  | 0, _, _ => none
  | _ + 1, none, s => some s
  | rounds + 1, some a, s => do
    let n ← sl.nodes a
    let (s, more) := fn s n.key n.val
    if more then
      let next ← n.forward[0]?
      foreachFrom sl fn rounds next s
    else some s

def opSkiplistForeach (sl : OpSkiplist P) (fn : σ → P → P → σ × Bool) (s : σ) : Option σ := do
  let first ← sl.forward .head 0
  foreachFrom sl fn (sl.size + 1) first s

/-- The loop of `op_skiplist_foreach_rev`, which ends at the sentinel. -/
def foreachRevFrom (sl : OpSkiplist P) (fn : σ → P → P → σ × Bool) : Nat → Option Loc → σ → Option σ
  | 0, _, _ => none
  | _ + 1, none, _ => none
  | _ + 1, some .head, s => some s
  | rounds + 1, some (.node a), s => do
    let n ← sl.nodes a
    let (s, more) := fn s n.key n.val
    if more then foreachRevFrom sl fn rounds n.prev s else some s

def opSkiplistForeachRev (sl : OpSkiplist P) (fn : σ → P → P → σ × Bool) (s : σ) : Option σ :=
  match sl.tail with
  | none => some s
  | some a => foreachRevFrom sl fn (sl.size + 1) (some (.node a)) s

def opSkiplistIterInit (sl : OpSkiplist P) : Option (Option Nat) := sl.forward .head 0

def opSkiplistIterLower (sl : OpSkiplist P) (lower : P) : Option (Option Nat) := do
  let (x, _) ← seek sl (fun k => sl.cmp k lower < 0)
  some x

/-- The inner `none` is the result `false`. -/
def opSkiplistIterNext (sl : OpSkiplist P) : Option Nat → Option (Option (P × P × Option Nat))
  | none => some none
  | some a => do
    let n ← sl.nodes a
    let next ← n.forward[0]?
    some (some (n.key, n.val, next))

def opSkiplistSize (sl : OpSkiplist P) : Nat := sl.size

def opSkiplistCmpPtr (a b : Nat) : Int := (if a > b then 1 else 0) - (if a < b then 1 else 0)

end LibOp.Skiplist

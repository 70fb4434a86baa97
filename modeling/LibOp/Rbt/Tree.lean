import LibOp.Foundation.LlrbDelete
import LibOp.Foundation.Runs

namespace LibOp.Rbt

open Foundation

/-- The default pointer `P` is null. -/
structure RbtEntry (P : Type) where
  key : P
  val : P
deriving DecidableEq

abbrev RbtNode (P : Type) := LlrbTree (RbtEntry P) Unit

structure OpRbt (P : Type) where
  root : RbtNode P
  cmp : P → P → Int
  size : Nat

variable {P : Type}

section

variable {σ : Type}

def noNote (_ : Option Unit) (_ : RbtEntry P) (_ : Option Unit) : Unit := ()

def insert (cmp : P → P → Int) (key val : P) : RbtNode P → Option (RbtNode P × Option (RbtEntry P)) :=
  LlrbTree.insert noNote (fun e => cmp key e.key) ⟨key, val⟩ () fun _ => ⟨key, val⟩

def del (cmp : P → P → Int) (key : P) : Nat → RbtNode P → Option (RbtNode P × Option (RbtEntry P)) :=
  LlrbTree.del noNote (fun e => cmp key e.key) (fun _ => none) id

def opRbtCreate (cmp : P → P → Int) : OpRbt P := ⟨.nil, cmp, 0⟩

variable [Inhabited P]

/-- What `*old_val` or `*found_val` is left with. -/
def foundVal (found : Option (RbtEntry P)) : P := (found.map RbtEntry.val).getD default

def foundKey (found : Option (RbtEntry P)) : P := (found.map RbtEntry.key).getD default

def opRbtSet (t : OpRbt P) (key val : P) : Option (OpRbt P × Nat × P) := do
  let (root, found) ← insert t.cmp key val t.root
  let inserted := if found.isNone then 1 else 0
  if root.isNil then none
  else some ({ t with root := root.blacken, size := t.size + inserted }, inserted, foundVal found)

/-- No path is longer than the tree has nodes. -/
def opRbtDel (t : OpRbt P) (key : P) : Option (OpRbt P × P) := do
  let (root, found) ← del t.cmp key (t.root.size + 1) t.root
  let size := if found.isSome then t.size - 1 else t.size
  some ({ t with root := root.blacken, size := size }, foundVal found)

/-- The loop of `op_rbt_get` and `op_rbt_has`. -/
def lookup (cmp : P → P → Int) (key : P) : RbtNode P → Option (RbtEntry P)
  | .nil => none
  | .node _ l e _ r =>
    if cmp key e.key < 0 then lookup cmp key l
    else if cmp key e.key > 0 then lookup cmp key r
    else some e

def opRbtGet (t : OpRbt P) (key : P) : P := foundVal (lookup t.cmp key t.root)

def opRbtHas (t : OpRbt P) (key : P) : Bool := (lookup t.cmp key t.root).isSome

def treeMax : RbtNode P → Option (RbtEntry P)
  | .nil => none
  | .node _ _ e _ r => if r.isNil then some e else treeMax r

def opRbtMinKey (t : OpRbt P) : P := foundKey t.root.treeMin

def opRbtMaxKey (t : OpRbt P) : P := foundKey (treeMax t.root)

/-- The loop of `op_rbt_lower_bound` and `op_rbt_upper_bound`. -/
def bestKey (accept : P → Bool) (best : P) : RbtNode P → P
  | .nil => best
  | .node _ l e _ r => if accept e.key then bestKey accept e.key l else bestKey accept best r

def opRbtLowerBound (t : OpRbt P) (key : P) : P := bestKey (fun k => t.cmp key k ≤ 0) default t.root

def opRbtUpperBound (t : OpRbt P) (key : P) : P := bestKey (fun k => t.cmp key k < 0) default t.root

def opRbtSize (t : OpRbt P) : Nat := t.size

def foreachR (fn : σ → P → P → σ × Bool) : RbtNode P → σ → σ × Bool
  | .nil, s => (s, true)
  | .node _ l e _ r, s =>
    let (s, more) := foreachR fn l s
    if !more then (s, false)
    else
      let (s, more) := fn s e.key e.val
      if !more then (s, false)
      else foreachR fn r s

def opRbtForeach (t : OpRbt P) (fn : σ → P → P → σ × Bool) (s : σ) : σ := (foreachR fn t.root s).1

def foreachRevR (fn : σ → P → P → σ × Bool) : RbtNode P → σ → σ × Bool
  | .nil, s => (s, true)
  | .node _ l e _ r, s =>
    let (s, more) := foreachRevR fn r s
    if !more then (s, false)
    else
      let (s, more) := fn s e.key e.val
      if !more then (s, false)
      else foreachRevR fn l s

def opRbtForeachRev (t : OpRbt P) (fn : σ → P → P → σ × Bool) (s : σ) : σ := (foreachRevR fn t.root s).1

def opRbtCmpPtr (a b : Nat) : Int := (if a > b then 1 else 0) - (if a < b then 1 else 0)

inductive RbtOp (P : Type) where
  | set (key val : P)
  | del (key : P)

inductive RbtReply (P : Type) where
  | set (inserted : Nat) (oldVal : P)
  | del (foundVal : P)
deriving DecidableEq

def rbtStep (t : OpRbt P) : RbtOp P → Option (OpRbt P × RbtReply P)
  | .set key val => do
    let (next, inserted, oldVal) ← opRbtSet t key val
    some (next, .set inserted oldVal)
  | .del key => do
    let (next, foundVal) ← opRbtDel t key
    some (next, .del foundVal)

end

structure TotalPreorder {P : Type} (cmp : P → P → Int) : Prop where
  swap : ∀ a b, cmp a b < 0 ↔ 0 < cmp b a
  trans : ∀ a b c, cmp a b ≤ 0 → cmp b c ≤ 0 → cmp a c ≤ 0

section

variable {cmp : P → P → Int} (laws : TotalPreorder cmp)

include laws

lemma TotalPreorder.lt_of_lt_of_le (first : cmp a b < 0) (second : cmp b c ≤ 0) : cmp a c < 0 := by
  have reversed := (laws.swap a b).mp first
  by_contra other
  have forth := laws.swap a c
  have around := laws.trans b c a second (by omega)
  omega

lemma TotalPreorder.lt_of_le_of_lt (first : cmp a b ≤ 0) (second : cmp b c < 0) : cmp a c < 0 := by
  have reversed := (laws.swap b c).mp second
  by_contra other
  have forth := laws.swap a c
  have around := laws.trans c a b (by omega) first
  omega

lemma TotalPreorder.eq_zero_symm (equal : cmp a b = 0) : cmp b a = 0 := by
  have back := laws.swap a b
  have forth := laws.swap b a
  omega

end

lemma opRbtCmpPtr_neg_iff (a b : Nat) : opRbtCmpPtr a b < 0 ↔ a < b := by
  unfold opRbtCmpPtr
  split <;> split <;> omega

lemma opRbtCmpPtr_pos_iff (a b : Nat) : 0 < opRbtCmpPtr a b ↔ b < a := by
  unfold opRbtCmpPtr
  split <;> split <;> omega

lemma opRbtCmpPtr_totalPreorder : TotalPreorder opRbtCmpPtr := by
  apply TotalPreorder.mk
  · intro a b
    rw [opRbtCmpPtr_neg_iff, opRbtCmpPtr_pos_iff]
  · intro a b c
    rw [← Int.not_lt, ← Int.not_lt, ← Int.not_lt, opRbtCmpPtr_pos_iff, opRbtCmpPtr_pos_iff, opRbtCmpPtr_pos_iff]
    omega

end LibOp.Rbt

import LibOp.Foundation.LlrbDelete
import LibOp.Foundation.LlrbNotes
import LibOp.Foundation.Runs

namespace LibOp.Itree

open Foundation

structure Segment (P : Type) where
  hi : Int64
  val : P
deriving DecidableEq

/-- The intervals that start at `lo`; `max_end` is the note of the node. -/
structure Chain (P : Type) where
  lo : Int64
  segs : List (Segment P)
deriving DecidableEq

abbrev INode (P : Type) := LlrbTree (Chain P) Int64

structure OpItree (P : Type) where
  root : INode P
  count : Nat

variable {P : Type}

section

variable {σ : Type}

def max3 (a b c : Int64) : Int64 :=
  let m := if a > b then a else b
  if m > c then m else c

/-- What `aug` computes from the children. -/
def maxEnd (left : Option Int64) (n : Chain P) (right : Option Int64) : Int64 :=
  let hi := n.segs.foldl (fun hi s => if s.hi > hi then s.hi else hi) Int64.minValue
  let leftMax := left.getD Int64.minValue
  let rightMax := right.getD Int64.minValue
  max3 hi leftMax rightMax

def orderLo (lo : Int64) (n : Chain P) : Int := if lo < n.lo then -1 else if lo > n.lo then 1 else 0

def insert (lo hi : Int64) (val : P) : INode P → Option (INode P × Option (Chain P)) :=
  LlrbTree.insert maxEnd (orderLo lo) ⟨lo, [⟨hi, val⟩]⟩ hi fun n => { n with segs := ⟨hi, val⟩ :: n.segs }

def stealSegs (succ : Chain P) : Chain P := ⟨succ.lo, succ.segs.foldl (fun segs s => s :: segs) []⟩

variable [DecidableEq P]

def unlinkSeg (hi : Int64) (val : P) (n : Chain P) : Option (Chain P) :=
  let segs := n.segs.erase ⟨hi, val⟩
  if segs.isEmpty then none else some { n with segs := segs }

def del (lo hi : Int64) (val : P) : Nat → INode P → Option (INode P × Option (Chain P)) :=
  LlrbTree.del maxEnd (orderLo lo) (unlinkSeg hi val) stealSegs

def opItreeCreate : OpItree P := ⟨.nil, 0⟩

def opItreeInsert (t : OpItree P) (lo hi : Int64) (val : P) : Option (OpItree P × Int) :=
  if hi < lo then some (t, -1)
  else do
    let (root, _) ← insert lo hi val t.root
    if root.isNil then none
    else some ({ t with root := root.blacken.aug maxEnd, count := t.count + 1 }, 1)

/-- `found` tells that the node with this `lo` holds the segment. -/
def opItreeDelete (t : OpItree P) (lo hi : Int64) (val : P) : Option (OpItree P × Int) :=
  if t.root.isNil then some (t, 0)
  else do
    let (root, chain) ← del lo hi val (t.root.size + 1) t.root
    let found := chain.any fun n => n.segs.contains ⟨hi, val⟩
    some ({ t with root := root.blacken, count := if found then t.count - 1 else t.count }, if found then 1 else 0)

def opItreeCount (t : OpItree P) : Nat := t.count

/-- The state of the callback and whether it stopped the query. -/
structure QCtx (σ : Type) where
  ud : σ
  stop : Bool

def visitSegs (a b : Int64) (fn : σ → Int64 → Int64 → P → σ × Bool) (lo : Int64) : List (Segment P) → QCtx σ → QCtx σ
  | [], ctx => ctx
  | s :: rest, ctx =>
    if ctx.stop then ctx
    else if s.hi ≥ a ∧ lo ≤ b then
      let (ud, more) := fn ctx.ud lo s.hi s.val
      visitSegs a b fn lo rest { ud := ud, stop := !more }
    else visitSegs a b fn lo rest ctx

def queryOverlap (a b : Int64) (fn : σ → Int64 → Int64 → P → σ × Bool) : INode P → QCtx σ → QCtx σ
  | .nil, ctx => ctx
  | .node _ l n maxEnd r, ctx =>
    if ctx.stop then ctx
    else if maxEnd < a then ctx
    else
      let ctx := queryOverlap a b fn l ctx
      if ctx.stop then ctx
      else if n.lo ≤ b then
        let ctx := visitSegs a b fn n.lo n.segs ctx
        if !ctx.stop then queryOverlap a b fn r ctx else ctx
      else ctx

def opItreeStab (t : OpItree P) (x : Int64) (fn : σ → Int64 → Int64 → P → σ × Bool) (ud : σ) : σ :=
  (queryOverlap x x fn t.root ⟨ud, false⟩).ud

def opItreeOverlap (t : OpItree P) (a b : Int64) (fn : σ → Int64 → Int64 → P → σ × Bool) (ud : σ) : σ :=
  if a > b then ud else (queryOverlap a b fn t.root ⟨ud, false⟩).ud

inductive ItreeOp (P : Type) where
  | insert (lo hi : Int64) (val : P)
  | delete (lo hi : Int64) (val : P)

def itreeStep (t : OpItree P) : ItreeOp P → Option (OpItree P × Int)
  | .insert lo hi val => opItreeInsert t lo hi val
  | .delete lo hi val => opItreeDelete t lo hi val

end

lemma orderLo_neg_iff (lo : Int64) (n : Chain P) : orderLo lo n < 0 ↔ lo < n.lo := by
  grind [orderLo]

lemma orderLo_pos_iff (lo : Int64) (n : Chain P) : 0 < orderLo lo n ↔ n.lo < lo := by
  grind [orderLo]

lemma orderLo_eq_zero_iff (lo : Int64) (n : Chain P) : orderLo lo n = 0 ↔ n.lo = lo := by
  grind [orderLo]

lemma stealSegs_segs (n : Chain P) : (stealSegs n).segs = n.segs.reverse := by
  rw [stealSegs, List.foldl_flip_cons_eq_append', List.append_nil]

lemma le_max3 (a b c : Int64) : a ≤ max3 a b c ∧ b ≤ max3 a b c ∧ c ≤ max3 a b c := by
  unfold max3
  grind

lemma le_foldl_hi (segs : List (Segment P)) (start : Int64) :
    start ≤ segs.foldl (fun hi s => if s.hi > hi then s.hi else hi) start ∧
      ∀ s ∈ segs, s.hi ≤ segs.foldl (fun hi s => if s.hi > hi then s.hi else hi) start := by
  induction segs generalizing start with
  | nil => simp
  | cons s segs ih => grind

lemma hi_le_maxEnd (left : Option Int64) (n : Chain P) (right : Option Int64) :
    ∀ s ∈ n.segs, s.hi ≤ maxEnd left n right :=
  fun s mem => Int64.le_trans ((le_foldl_hi n.segs Int64.minValue).2 s mem) (le_max3 _ _ _).1

lemma maxEnd_leaf (lo hi : Int64) (val : P) : hi = maxEnd none ⟨lo, [⟨hi, val⟩]⟩ none := by
  simp only [maxEnd, max3, List.foldl_cons, List.foldl_nil, Option.getD_none]
  grind

end LibOp.Itree

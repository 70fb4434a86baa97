import LibOp.Cidr.Address
import LibOp.Foundation.BitTrie
import LibOp.Foundation.Runs

namespace LibOp.Cidr

open Foundation

/-- The null pointer is the empty trie, a null datum `none`. -/
abbrev CidrNode (V : Type) := BitTrie V

structure CidrHalf (V : Type) where
  root : CidrNode V
  count : Nat

structure OpCidrTbl (V : Type) where
  v4 : CidrHalf V
  v6 : CidrHalf V

section Source

variable {V σ : Type} (af : Af)

/-- The loop from bit `i` on, with the number of bits left. A null child is allocated when stepped on. The result has
`is_new` and the old datum. -/
def trieSet (addr : Address af) (val : Option V) : Nat → Nat → CidrNode V → Option (CidrNode V × Bool × Option V)
  | 0, _, cur => some (cur.withData val, cur.data.isNone, cur.data)
  | left + 1, i, cur => do
    let bit ← addrBit af addr i
    let (child, isNew, old) ← trieSet addr val left (i + 1) (cur.child bit)
    some (cur.withChild bit child, isNew, old)

def trieDel (addr : Address af) : Nat → Nat → CidrNode V → Option (CidrNode V × Option V)
  | _, _, .nil => some (.nil, none)
  | 0, _, .node data zero one => some (.node none zero one, data)
  | left + 1, i, .node data zero one => do
    let bit ← addrBit af addr i
    let (child, old) ← trieDel addr left (i + 1) ((BitTrie.node data zero one).child bit)
    some ((BitTrie.node data zero one).withChild bit child, old)

def trieMatchAny (addr : Address af) : Nat → Nat → CidrNode V → Option (Option V)
  | _, _, .nil => some none
  | 0, _, .node data _ _ => some data
  | left + 1, i, .node data zero one =>
    if data.isSome then some data
    else do
      let bit ← addrBit af addr i
      trieMatchAny addr left (i + 1) ((BitTrie.node data zero one).child bit)

def trieLpm (addr : Address af) : Nat → Nat → Option V → CidrNode V → Option (Option V)
  | _, _, best, .nil => some best
  | 0, _, best, .node data _ _ => some (if data.isSome then data else best)
  | left + 1, i, best, .node data zero one => do
    let bit ← addrBit af addr i
    trieLpm addr left (i + 1) (if data.isSome then data else best) ((BitTrie.node data zero one).child bit)

structure EachCtx (σ : Type) where
  ud : σ
  ss : Address af
  stop : Bool

/-- The call of `fn` for the node's own datum. -/
def eachData (fn : σ → Address af → Nat → V → σ × Bool) (ctx : EachCtx af σ) (depth : Nat) : Option V → EachCtx af σ
  | none => ctx
  | some val =>
    let (ud, more) := fn ctx.ud ctx.ss depth val
    { ctx with ud := ud, stop := !more }

def eachChild (visit : EachCtx af σ → Option (EachCtx af σ)) (depth : Nat) (bit null : Bool) (ctx : EachCtx af σ) :
    Option (EachCtx af σ) :=
  if null then some ctx
  else do
    let ss ← setAddrBit af ctx.ss depth bit
    let ctx ← visit { ctx with ss := ss }
    let ss ← clrAddrBit af ctx.ss depth
    some { ctx with ss := ss }

def trieForeach (fn : σ → Address af → Nat → V → σ × Bool) : CidrNode V → Nat → EachCtx af σ → Option (EachCtx af σ)
  | .nil, _, ctx => some ctx
  | .node data zero one, depth, ctx =>
    if ctx.stop then some ctx
    else
      let ctx := eachData af fn ctx depth data
      if ctx.stop then some ctx
      else do
        let ctx ← eachChild af (trieForeach fn zero (depth + 1)) depth false zero.isNil ctx
        if ctx.stop then some ctx
        else eachChild af (trieForeach fn one (depth + 1)) depth true one.isNil ctx

def opCidrCreate : OpCidrTbl V := ⟨⟨.nil, 0⟩, ⟨.nil, 0⟩⟩

/-- `op_cidr_set4` and `op_cidr_set6`: the return value and `*old_val`, not written for a refused length. -/
def setPrefix (half : CidrHalf V) (addr : Address af) (plen : Int) (val : Option V) :
    Option (CidrHalf V × Int × Option V) :=
  if plen < 0 ∨ plen > af.width then some (half, -1, none)
  else do
    let (root, isNew, old) ← trieSet af addr val plen.toNat 0 half.root
    some (⟨root, if isNew then half.count + 1 else half.count⟩, if isNew then 1 else 0, old)

/-- `op_cidr_del4` and `op_cidr_del6`, where a negative length is no turn of the loop. -/
def delPrefix (half : CidrHalf V) (addr : Address af) (plen : Int) : Option (CidrHalf V × Option V) := do
  let (root, old) ← trieDel af addr plen.toNat 0 half.root
  some (⟨root, if old.isSome then half.count - 1 else half.count⟩, old)

def foreachPrefix (half : CidrHalf V) (fn : σ → Address af → Nat → V → σ × Bool) (ud : σ) : Option σ := do
  let ctx ← trieForeach af fn half.root 0 ⟨ud, fun _ => 0#8, false⟩
  some ctx.ud

end Source

section Interface

variable {V σ : Type} (t : OpCidrTbl V)

def opCidrSet4 (addr : InAddr) (plen : Int) (val : Option V) : Option (OpCidrTbl V × Int × Option V) := do
  let (half, r, old) ← setPrefix .inet t.v4 addr plen val
  some ({ t with v4 := half }, r, old)

def opCidrSet6 (addr : In6Addr) (plen : Int) (val : Option V) : Option (OpCidrTbl V × Int × Option V) := do
  let (half, r, old) ← setPrefix .inet6 t.v6 addr plen val
  some ({ t with v6 := half }, r, old)

def opCidrDel4 (addr : InAddr) (plen : Int) : Option (OpCidrTbl V × Option V) := do
  let (half, old) ← delPrefix .inet t.v4 addr plen
  some ({ t with v4 := half }, old)

def opCidrDel6 (addr : In6Addr) (plen : Int) : Option (OpCidrTbl V × Option V) := do
  let (half, old) ← delPrefix .inet6 t.v6 addr plen
  some ({ t with v6 := half }, old)

def opCidrMatchAny4 (addr : InAddr) : Option (Option V) := trieMatchAny .inet addr 32 0 t.v4.root

def opCidrMatchAny6 (addr : In6Addr) : Option (Option V) := trieMatchAny .inet6 addr 128 0 t.v6.root

def opCidrLpm4 (addr : InAddr) : Option (Option V) := trieLpm .inet addr 32 0 none t.v4.root

def opCidrLpm6 (addr : In6Addr) : Option (Option V) := trieLpm .inet6 addr 128 0 none t.v6.root

def opCidrCount4 : Nat := t.v4.count

def opCidrCount6 : Nat := t.v6.count

def opCidrForeach4 (fn : σ → InAddr → Nat → V → σ × Bool) (ud : σ) : Option σ := foreachPrefix .inet t.v4 fn ud

def opCidrForeach6 (fn : σ → In6Addr → Nat → V → σ × Bool) (ud : σ) : Option σ := foreachPrefix .inet6 t.v6 fn ud

end Interface

variable {V : Type}

inductive CidrOp (V : Type) where
  | set4 (addr : InAddr) (plen : Int) (val : Option V)
  | set6 (addr : In6Addr) (plen : Int) (val : Option V)
  | del4 (addr : InAddr) (plen : Int)
  | del6 (addr : In6Addr) (plen : Int)

inductive CidrReply (V : Type) where
  | set (r : Int) (oldVal : Option V)
  | del (old : Option V)
deriving DecidableEq

def cidrStep (t : OpCidrTbl V) : CidrOp V → Option (OpCidrTbl V × CidrReply V)
  | .set4 addr plen val => do
    let (next, r, old) ← opCidrSet4 t addr plen val
    some (next, .set r old)
  | .set6 addr plen val => do
    let (next, r, old) ← opCidrSet6 t addr plen val
    some (next, .set r old)
  | .del4 addr plen => do
    let (next, old) ← opCidrDel4 t addr plen
    some (next, .del old)
  | .del6 addr plen => do
    let (next, old) ← opCidrDel6 t addr plen
    some (next, .del old)

end LibOp.Cidr

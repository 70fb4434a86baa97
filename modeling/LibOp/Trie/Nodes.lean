import LibOp.Foundation.Bytes
import LibOp.Foundation.TernaryTree
import LibOp.Strings.CaseFolding

namespace LibOp.Trie

open Foundation Strings

/-- `tnode_t`. A null link is `nil`; `val` is there when `val_set` is. -/
abbrev TNode (P : Type) := TernaryTree UInt8 P

variable {P σ : Type}

def fold (icase : Bool) (c : UInt8) : UInt8 := if icase then tolower c else c

section Keys

variable [Inhabited P]

/-- `insert` for the key of `key` and `rest`: the node, `*old_val` and `*is_new`. -/
def insert (icase : Bool) (val : P) (n : TNode P) (key : UInt8) (rest : List UInt8) : TNode P × P × Bool :=
  match n with
  | .nil =>
    -- `node_new(c)`, whose symbol is that of the key
    match rest with
    | [] => (.node (fold icase key) (some val) .nil .nil .nil, default, true)
    | next :: rest =>
      let (eq, reply) := insert icase val .nil next rest
      (.node (fold icase key) none .nil eq .nil, reply)
  | .node c old lo eq hi =>
    if fold icase key < c then
      let (lo, reply) := insert icase val lo key rest
      (.node c old lo eq hi, reply)
    else if fold icase key > c then
      let (hi, reply) := insert icase val hi key rest
      (.node c old lo eq hi, reply)
    else
      match rest with
      | [] =>
        match old with
        | some old => (.node c (some val) lo eq hi, old, false)
        | none => (.node c (some val) lo eq hi, default, true)
      | next :: rest =>
        let (eq, reply) := insert icase val eq next rest
        (.node c old lo eq hi, reply)
termination_by (rest.length, sizeOf n)

def findNode (icase : Bool) : TNode P → UInt8 → List UInt8 → TNode P
  | .nil, _, _ => .nil
  | .node c val lo eq hi, key, rest =>
    if fold icase key < c then findNode icase lo key rest
    else if fold icase key > c then findNode icase hi key rest
    else
      match rest with
      | [] => .node c val lo eq hi
      | next :: rest => findNode icase eq next rest

/-- `do_del`: the node and, where the key is found, `*removed`. -/
def doDel (icase : Bool) : TNode P → UInt8 → List UInt8 → TNode P × Option P
  | .nil, _, _ => (.nil, none)
  | .node c val lo eq hi, key, rest =>
    let (n, removed) :=
      if fold icase key < c then
        let (lo, removed) := doDel icase lo key rest
        (.node c val lo eq hi, removed)
      else if fold icase key > c then
        let (hi, removed) := doDel icase hi key rest
        (.node c val lo eq hi, removed)
      else
        match rest with
        | [] => (.node c none lo eq hi, val)
        | next :: rest =>
          let (eq, removed) := doDel icase eq next rest
          (.node c val lo eq hi, removed)
    (TernaryTree.prune n, removed)

structure OpTrie (P : Type) where
  root : TNode P
  count : Nat
  icase : Bool

def opTrieCreate (icase : Bool) : OpTrie P := { root := .nil, count := 0, icase }

/-- The trie, the result and what `*old_val` receives, if anything. -/
def opTrieSet (t : OpTrie P) (key : CStr) (val : P) : OpTrie P × Int × Option P :=
  match key.bytes with
  | [] => (t, -1, none)
  | c :: rest =>
    let (root, old, isNew) := insert t.icase val t.root c rest
    ({ t with root, count := if isNew then t.count + 1 else t.count }, if isNew then 1 else 0, some old)

def opTrieDel (t : OpTrie P) (key : CStr) : OpTrie P × P :=
  match key.bytes with
  | [] => (t, default)
  | c :: rest =>
    match doDel t.icase t.root c rest with
    | (root, some removed) => ({ t with root, count := t.count - 1 }, removed)
    | (root, none) => ({ t with root }, default)

def opTrieGet (t : OpTrie P) (key : CStr) : P :=
  match key.bytes with
  | [] => default
  | c :: rest =>
    match findNode t.icase t.root c rest with
    | .node _ (some val) _ _ _ => val
    | _ => default

def opTrieHas (t : OpTrie P) (key : CStr) : Bool :=
  match key.bytes with
  | [] => false
  | c :: rest =>
    match findNode t.icase t.root c rest with
    | .node _ (some _) _ _ _ => true
    | _ => false

def opTrieCount (t : OpTrie P) : Nat := t.count

end Keys

/-- `each_ctx_t`. The cells of `buf` are the `bufcap` bytes it points to. -/
structure EachCtx (σ : Type) where
  ud : σ
  buf : List UInt8
  buflen : Nat
  stop : Bool

/-- `op_realloc` leaves the new cells with any content, here `junk`. -/
def ensureBuf (junk : Nat → UInt8) (buf : List UInt8) (needed : Nat) : List UInt8 :=
  if needed + 1 > buf.length then buf ++ (List.range' buf.length ((needed + 1) * 2 - buf.length)).map junk else buf

/-- `ensure_buf(ctx, ctx->buflen + 1); ctx->buf[ctx->buflen] = c; ctx->buflen++;` -/
def EachCtx.push (junk : Nat → UInt8) (ctx : EachCtx σ) (c : UInt8) : Option (EachCtx σ) :=
  (store (ensureBuf junk ctx.buf (ctx.buflen + 1)) ctx.buflen c).map fun buf =>
    { ctx with buf, buflen := ctx.buflen + 1 }

def EachCtx.pop (ctx : EachCtx σ) : EachCtx σ := { ctx with buflen := ctx.buflen - 1 }

def terminatedString (cells : List UInt8) : Option (List UInt8) := if 0 ∈ cells then some (cString cells) else none

/-- The terminator, and the call of `fn` where the key is accepted. -/
def EachCtx.report (fn : σ → List UInt8 → P → σ × Bool) (accept : List UInt8 → Bool) (ctx : EachCtx σ) (val : P) :
    Option (EachCtx σ) := do
  let buf ← store ctx.buf ctx.buflen 0
  let key ← terminatedString buf
  if accept key then
    let (ud, more) := fn ctx.ud key val
    some { ctx with ud, buf, stop := ctx.stop || !more }
  else some { ctx with buf }

/-- The append of `n->c`, the report of its value, the keys that continue it, and `ctx->buflen--`. -/
def EachCtx.enter (junk : Nat → UInt8) (fn : σ → List UInt8 → P → σ × Bool) (accept : List UInt8 → Bool) (c : UInt8)
    (val : Option P) (inner : EachCtx σ → Option (EachCtx σ)) (ctx : EachCtx σ) : Option (EachCtx σ) := do
  let ctx ← ctx.push junk c
  let ctx ← val.elim (some ctx) (ctx.report fn accept)
  if ctx.stop then some ctx.pop else (inner ctx).map EachCtx.pop

/-- The one walk of `tst_each` and `wildcard_each`. -/
def walkEach (junk : Nat → UInt8) (fn : σ → List UInt8 → P → σ × Bool) (accept : List UInt8 → Bool) :
    TNode P → EachCtx σ → Option (EachCtx σ)
  | .nil, ctx => some ctx
  | .node c val lo eq hi, ctx =>
    if ctx.stop then some ctx
    else do
      let ctx ← walkEach junk fn accept lo ctx
      if ctx.stop then some ctx
      else do
        let ctx ← ctx.enter junk fn accept c val (walkEach junk fn accept eq)
        if ctx.stop then some ctx else walkEach junk fn accept hi ctx

def tstEach (junk : Nat → UInt8) (fn : σ → List UInt8 → P → σ × Bool) (n : TNode P) (ctx : EachCtx σ) :
    Option (EachCtx σ) := walkEach junk fn (fun _ => true) n ctx

def prefixEach (junk : Nat → UInt8) (fn : σ → List UInt8 → P → σ × Bool) (icase : Bool) :
    TNode P → UInt8 → List UInt8 → EachCtx σ → Option (EachCtx σ)
  | .nil, _, _, ctx => some ctx
  | .node c val lo eq hi, first, rest, ctx =>
    if ctx.stop then some ctx
    else if fold icase first < c then prefixEach junk fn icase lo first rest ctx
    else if fold icase first > c then prefixEach junk fn icase hi first rest ctx
    else
      match rest with
      | [] => ctx.enter junk fn (fun _ => true) c val (tstEach junk fn eq)
      | next :: rest => ctx.enter junk fn (fun _ => true) c none (prefixEach junk fn icase eq next rest)

/-- `for (; *str != '\0'; str++)` with its test. -/
def anyStart (test : List UInt8 → Bool) : List UInt8 → Bool
  | [] => false
  | s :: str => test (s :: str) || anyStart test str

def star : UInt8 := 0x2A

def question : UInt8 := 0x3F

/-- `glob_match` on the bytes before the two NULs. -/
def globMatch (icase : Bool) : List UInt8 → List UInt8 → Bool
  | [], str => str.isEmpty
  | p :: pat, str =>
    if p = star then
      let after := pat.dropWhile (· = star)
      if after = [] then true else anyStart (globMatch icase after) str
    else
      match str with
      | [] => false
      | s :: str => if p ≠ question ∧ fold icase p ≠ fold icase s then false else globMatch icase pat str
termination_by pat => pat.length
decreasing_by
  · exact Nat.lt_succ_of_le (List.dropWhile_suffix _).length_le
  · exact Nat.lt_succ_self _

def wildcardEach (junk : Nat → UInt8) (fn : σ → List UInt8 → P → σ × Bool) (icase : Bool) (pat : List UInt8)
    (n : TNode P) (ctx : EachCtx σ) : Option (EachCtx σ) := walkEach junk fn (globMatch icase pat) n ctx

def startCtx (ud : σ) : EachCtx σ := { ud, buf := [], buflen := 0, stop := false }

def opTrieForeach (junk : Nat → UInt8) (t : OpTrie P) (fn : σ → List UInt8 → P → σ × Bool) (ud : σ) : Option σ :=
  (tstEach junk fn t.root (startCtx ud)).map EachCtx.ud

def opTriePrefix (junk : Nat → UInt8) (t : OpTrie P) (start : CStr) (fn : σ → List UInt8 → P → σ × Bool) (ud : σ) :
    Option σ :=
  match start.bytes with
  | [] => opTrieForeach junk t fn ud
  | c :: rest => (prefixEach junk fn t.icase t.root c rest (startCtx ud)).map EachCtx.ud

def opTrieWildcard (junk : Nat → UInt8) (t : OpTrie P) (pattern : CStr) (fn : σ → List UInt8 → P → σ × Bool)
    (ud : σ) : Option σ :=
  (wildcardEach junk fn t.icase pattern.bytes t.root (startCtx ud)).map EachCtx.ud

end LibOp.Trie

import LibOp.Foundation.KeyedList

namespace LibOp.Graph

open Foundation

structure GEdge where
  target : Nat
  weight : Int
deriving DecidableEq

/-- The array `edges[0..n_edges)` of the node is the list of its edges. -/
structure GNode (α : Type*) where
  val : α
  alive : Bool
  inDeg : UInt32
  edges : List GEdge
  edgesCap : UInt32

/-- The arrays `nodes[0..n_slots)` and `free_list[0..n_free)`. -/
structure OpGraph (α : Type*) where
  nodes : List (GNode α)
  slotsCap : UInt32
  freeList : List Nat
  nAlive : UInt32
  nEdges : UInt64

variable {α : Type*}

/-- A full array is doubled. A capacity that wraps to 0 makes `op_realloc` ask for 0 bytes, which ends the process. -/
def reserve (used : Nat) (cap initial : UInt32) : Option UInt32 :=
  if used = cap.toNat then
    let grown := if cap ≠ 0 then cap * 2 else initial
    if grown = 0 then none else some grown
  else some cap

def OpGraph.valid (g : OpGraph α) (id : Nat) : Bool := g.nodes[id]?.any GNode.alive

def edgePush (n : GNode α) (target : Nat) (w : Int) : Option (GNode α) :=
  (reserve n.edges.length n.edgesCap 4).map fun cap =>
    { n with edges := n.edges ++ [⟨target, w⟩], edgesCap := cap }

def edgeFind (n : GNode α) (target : Nat) : Option Nat := n.edges.findIdx? (fun e => decide (e.target = target))

def edgeRemove (n : GNode α) (target : Nat) : Option (GNode α) :=
  (edgeFind n target).map fun i => { n with edges := swapRemove n.edges i }

def graphCreate : OpGraph α := ⟨[], 0, [], 0, 0⟩

def graphAddNode (g : OpGraph α) (val : α) : Option (OpGraph α × Nat) :=
  let fresh : GNode α := ⟨val, true, 0, [], 0⟩
  match g.freeList.getLast? with
  | some id =>
    some ({ g with
      nodes := g.nodes.set id fresh
      freeList := g.freeList.dropLast
      nAlive := g.nAlive + 1 }, id)
  | none =>
    (reserve g.nodes.length g.slotsCap 8).map fun cap =>
      ({ g with nodes := g.nodes ++ [fresh], slotsCap := cap, nAlive := g.nAlive + 1 }, g.nodes.length)

def graphSetNode (g : OpGraph α) (id : Nat) (val : α) : OpGraph α :=
  if g.valid id then { g with nodes := g.nodes.modify id (fun n => { n with val := val }) } else g

/-- `if (valid(g, dst)) g->nodes[dst].in_deg--` -/
def releaseTarget (nodes : List (GNode α)) (e : GEdge) : List (GNode α) :=
  nodes.modify e.target fun n => if n.alive then { n with inDeg := n.inDeg - 1 } else n

/-- A round of the scan for incoming edges, on the nodes and `g->n_edges`. -/
def removeIncoming (id : Nat) (state : List (GNode α) × UInt64) (i : Nat) : List (GNode α) × UInt64 :=
  match state.1[i]? with
  | none => state
  | some n =>
    if !n.alive || i == id then state
    else
      match edgeRemove n id with
      | none => state
      | some n' => (state.1.set i n', state.2 - 1)

def graphDelNode (g : OpGraph α) (id : Nat) : OpGraph α :=
  if g.valid id then
    let edges := g.nodes[id]?.elim [] GNode.edges
    let released := edges.foldl releaseTarget g.nodes
    let scanned := (List.range g.nodes.length).foldl (removeIncoming id)
      (released, g.nEdges - UInt64.ofNat edges.length)
    { g with
      nodes := scanned.1.modify id (fun n => { n with alive := false, edges := [], edgesCap := 0 })
      nEdges := scanned.2
      nAlive := g.nAlive - 1
      freeList := g.freeList ++ [id] }
  else g

def graphAddEdge (g : OpGraph α) (src dst : Nat) (weight : Int) : Option (OpGraph α × Int) :=
  if g.valid src && g.valid dst then do
    let n ← g.nodes[src]?
    match edgeFind n dst with
    | some i =>
      let updated := { n with edges := n.edges.modify i (fun e => { e with weight := weight }) }
      some ({ g with nodes := g.nodes.set src updated }, 0)
    | none =>
      let pushed ← edgePush n dst weight
      some ({ g with
        nodes := (g.nodes.set src pushed).modify dst (fun n => { n with inDeg := n.inDeg + 1 })
        nEdges := g.nEdges + 1 }, 1)
  else some (g, -1)

def graphDelEdge (g : OpGraph α) (src dst : Nat) : OpGraph α × Int :=
  if g.valid src && g.valid dst then
    match g.nodes[src]?.bind (edgeRemove · dst) with
    | none => (g, 0)
    | some removed =>
      ({ g with
        nodes := (g.nodes.set src removed).modify dst (fun n => { n with inDeg := n.inDeg - 1 })
        nEdges := g.nEdges - 1 }, 1)
  else (g, 0)

inductive GraphAction (α : Type*) where
  | addNode (val : α)
  | setNode (id : Nat) (val : α)
  | delNode (id : Nat)
  | addEdge (src dst : Nat) (weight : Int)
  | delEdge (src dst : Nat)

def graphStep (g : OpGraph α) : GraphAction α → Option (OpGraph α)
  | .addNode val => (graphAddNode g val).map Prod.fst
  | .setNode id val => some (graphSetNode g id val)
  | .delNode id => some (graphDelNode g id)
  | .addEdge src dst weight => (graphAddEdge g src dst weight).map Prod.fst
  | .delEdge src dst => some (graphDelEdge g src dst).1

end LibOp.Graph

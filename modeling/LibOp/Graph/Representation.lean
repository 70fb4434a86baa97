import LibOp.Graph.Adjacency

namespace LibOp.Graph

open Foundation Finset Option

variable {α : Type*}

structure Represents (g : OpGraph α) (d : FiniteDigraph ℕ) : Prop where
  live : ∀ id, g.valid id = true ↔ id ∈ d.vertices
  adjoins : ∀ (id : ℕ) (n : GNode α), g.nodes[id]? = some n → n.alive = true → n.Adjoins d.arcs id
  degree : ∀ (id : ℕ) (n : GNode α), g.nodes[id]? = some n → n.alive = true → n.inDeg.toNat = d.inDegree id
  nEdges : g.nEdges.toNat = #d.arcs
  nAlive : g.nAlive.toNat = #d.vertices
  free : g.freeList.Nodup
  freed : ∀ id, id ∈ g.freeList ↔ id < g.nodes.length ∧ g.valid id = false
  slots : g.nodes.length ≤ g.slotsCap.toNat
  doubled : Doubled g.slotsCap

variable {g : OpGraph α} {id : ℕ}

lemma valid_iff : g.valid id = true ↔ ∃ n, g.nodes[id]? = some n ∧ n.alive = true := by
  unfold OpGraph.valid
  cases g.nodes[id]? with
  | none | some n => simp

variable {g' : OpGraph α}

lemma valid_of_skeleton
    (alive : g'.nodes.map GNode.alive = g.nodes.map GNode.alive) (id : ℕ) : g'.valid id = g.valid id := by
  have here := congrArg (fun l => l[id]?.any (fun alive => alive)) alive
  simpa [OpGraph.valid, any_map] using here

namespace Represents

variable {d d' : FiniteDigraph ℕ}

section

variable (r : Represents g d)

include r

lemma vertex_lt (vertex : id ∈ d.vertices) : id < g.nodes.length := by
  obtain ⟨n, stored, _⟩ := valid_iff.mp ((r.live id).mpr vertex)
  exact (List.getElem?_eq_some_iff.mp stored).1

lemma card_vertices_le : #d.vertices ≤ g.nodes.length := by
  rw [← card_range g.nodes.length]
  apply card_le_card
  intro id vertex
  exact mem_range.mpr (r.vertex_lt vertex)

lemma nodes_length_le : g.nodes.length ≤ 2 ^ 31 := r.slots.trans r.doubled.le

lemma rewire {nodes : List (GNode α)} {nEdges : UInt64}
    (vertices : d'.vertices = d.vertices) (alive : nodes.map GNode.alive = g.nodes.map GNode.alive)
    (adjoins : ∀ (id : ℕ) (n : GNode α), nodes[id]? = some n → n.alive = true → n.Adjoins d'.arcs id)
    (degree : ∀ (id : ℕ) (n : GNode α), nodes[id]? = some n → n.alive = true → n.inDeg.toNat = d'.inDegree id)
    (edges : nEdges.toNat = d'.arcs.card) : Represents { g with nodes := nodes, nEdges := nEdges } d' := by
  have valid (id : ℕ) : OpGraph.valid { g with nodes := nodes, nEdges := nEdges } id = g.valid id :=
    valid_of_skeleton alive id
  have length : nodes.length = g.nodes.length := by simpa using congrArg List.length alive
  refine ⟨?_, adjoins, degree, edges, ?_, r.free, ?_, ?_, r.doubled⟩
  · intro id
    rw [valid, vertices, r.live]
  · rw [vertices]
    exact r.nAlive
  · intro id
    rw [valid, r.freed, length]
  · rw [length]
    exact r.slots

end

lemma create : Represents (graphCreate : OpGraph α) FiniteDigraph.empty where
  live id := by simp [graphCreate, OpGraph.valid, FiniteDigraph.empty]
  adjoins id n stored := by simp [graphCreate] at stored
  degree id n stored := by simp [graphCreate] at stored
  nEdges := rfl
  nAlive := rfl
  free := List.nodup_nil
  freed id := by simp [graphCreate]
  slots := Nat.zero_le _
  doubled := .inl rfl

end Represents

def GNode.shape (n : GNode α) : Bool × UInt32 × List ℕ × UInt32 := (n.alive, n.inDeg, n.targets, n.edgesCap)

variable {d : FiniteDigraph ℕ}

lemma Represents.reshape (r : Represents g d) {nodes : List (GNode α)}
    (same : nodes.map GNode.shape = g.nodes.map GNode.shape) : Represents { g with nodes := nodes } d := by
  have origin (id : ℕ) (n : GNode α) (stored : nodes[id]? = some n) :
      ∃ old, g.nodes[id]? = some old ∧ old.shape = n.shape := by
    have here := congrArg (fun l => l[id]?) same
    simp only [List.getElem?_map, stored, map_some] at here
    exact map_eq_some_iff.mp here.symm
  apply r.rewire rfl
  · have flags := congrArg (List.map Prod.fst) same
    rw [List.map_map, List.map_map] at flags
    exact flags
  · intro id n stored alive
    obtain ⟨old, before, shape⟩ := origin id n stored
    simp only [GNode.shape, Prod.mk.injEq] at shape
    obtain ⟨aliveEq, _, targets, cap⟩ := shape
    have adjoins := r.adjoins id old before (aliveEq.trans alive)
    have lengths : n.edges.length = old.edges.length := by
      simpa [GNode.targets] using (congrArg List.length targets).symm
    refine ⟨targets ▸ adjoins.distinct, targets ▸ adjoins.listed, ?_, cap ▸ adjoins.doubled⟩
    rw [lengths, ← cap]
    exact adjoins.fits
  · intro id n stored alive
    obtain ⟨old, before, shape⟩ := origin id n stored
    simp only [GNode.shape, Prod.mk.injEq] at shape
    rw [← shape.2.1]
    exact r.degree id old before (shape.1.trans alive)
  · exact r.nEdges

lemma Represents.setNode (r : Represents g d) (id : ℕ) (val : α) : Represents (graphSetNode g id val) d := by
  unfold graphSetNode
  split
  · exact r.reshape (map_key_modify GNode.shape _ _ _ (fun _ => rfl))
  · exact r

lemma Represents.addVertex (r : Represents g d) (val : α)
    (dead : g.valid id = false) (nodes : ∀ i, g'.nodes[i]? = if i = id then some ⟨val, true, 0, [], 0⟩ else g.nodes[i]?)
    (nAlive : g'.nAlive = g.nAlive + 1) (nEdges : g'.nEdges = g.nEdges) (free : g'.freeList.Nodup)
    (freed : ∀ i, i ∈ g'.freeList ↔ i < g'.nodes.length ∧ i ≠ id ∧ g.valid i = false)
    (slots : g'.nodes.length ≤ g'.slotsCap.toNat) (doubled : Doubled g'.slotsCap) : Represents g' (d.addVertex id) := by
  have fresh : id ∉ d.vertices := by
    intro vertex
    rw [(r.live id).mpr vertex] at dead
    cases dead
  have valid : ∀ i, g'.valid i = true ↔ i = id ∨ g.valid i = true := by
    intro i
    unfold OpGraph.valid
    rw [nodes]
    by_cases same : i = id
    · simp [same]
    · simp [same]
  have live (i : ℕ) : g'.valid i = true ↔ i ∈ (d.addVertex id).vertices := by
    rw [valid, r.live]
    exact mem_insert.symm
  refine ⟨live, ?_, ?_, ?_, ?_, free, ?_, slots, doubled⟩
  · intro i n stored alive
    rw [nodes] at stored
    split at stored
    next same =>
      cases stored
      rw [same]
      exact GNode.Adjoins.fresh val d.arcs id fun target arc => fresh (d.closed _ arc).1
    · exact r.adjoins i n stored alive
  · intro i n stored alive
    rw [d.inDegree_addVertex fresh]
    rw [nodes] at stored
    split at stored
    next same =>
      cases stored
      rw [same, d.inDegree_outside fresh]
      rfl
    · exact r.degree i n stored alive
  · rw [nEdges]
    exact r.nEdges
  · have below : #d.vertices < g'.nodes.length := by
      have inside : insert id d.vertices ⊆ range g'.nodes.length := by
        intro i vertex
        obtain ⟨n, stored, _⟩ := valid_iff.mp ((live i).mpr vertex)
        exact mem_range.mpr (List.getElem?_eq_some_iff.mp stored).1
      have counted := card_le_card inside
      rw [card_insert_of_notMem fresh, card_range] at counted
      omega
    have bound := doubled.le
    rw [nAlive, UInt32.toNat_add, r.nAlive, FiniteDigraph.addVertex, card_insert_of_notMem fresh]
    apply Nat.mod_eq_of_lt
    have one : (1 : UInt32).toNat = 1 := rfl
    omega
  · intro i
    rw [freed, ← Bool.not_eq_true (g'.valid i), valid, not_or, Bool.not_eq_true]

lemma Represents.recycle (r : Represents g d) (val : α) (top : g.freeList.getLast? = some id) : Represents { g with
      nodes := g.nodes.set id ⟨val, true, 0, [], 0⟩
      freeList := g.freeList.dropLast
      nAlive := g.nAlive + 1 } (d.addVertex id) := by
  obtain ⟨rest, shape⟩ := List.getLast?_eq_some_iff.mp top
  have free := r.free
  rw [shape, List.nodup_append] at free
  obtain ⟨inside, dead⟩ := (r.freed id).mp (by simp [shape])
  apply r.addVertex val dead
  · intro i
    by_cases same : id = i
    · subst same
      simp [inside]
    · have apart : i ≠ id := fun h => same h.symm
      simp [same, apart]
  · rfl
  · rfl
  · simp only [shape, List.dropLast_concat]
    exact free.1
  · intro i
    have listed := r.freed i
    rw [shape, List.mem_append, List.mem_singleton] at listed
    simp only [shape, List.dropLast_concat, List.length_set]
    constructor
    · intro mem
      have both := listed.mp (.inl mem)
      exact ⟨both.1, free.2.2 i mem id (List.mem_singleton.mpr rfl), both.2⟩
    · intro both
      exact (listed.mpr ⟨both.1, both.2.2⟩).resolve_right both.2.1
  · rw [List.length_set]
    exact r.slots
  · exact r.doubled

lemma Represents.append (r : Represents g d) (val : α) (doubled : Doubled cap) (fits : g.nodes.length + 1 ≤ cap.toNat) :
    Represents { g with
      nodes := g.nodes ++ [⟨val, true, 0, [], 0⟩]
      slotsCap := cap
      nAlive := g.nAlive + 1 } (d.addVertex g.nodes.length) := by
  apply r.addVertex val
  · simp [OpGraph.valid]
  · intro i
    rw [List.getElem?_append]
    split
    next inside => rw [if_neg (by omega)]
    next outside =>
      rcases Nat.eq_or_lt_of_le (Nat.not_lt.mp outside) with same | above
      · simp [← same]
      · rw [if_neg (by omega), List.getElem?_eq_none (by simp; omega), List.getElem?_eq_none (by omega)]
  · rfl
  · rfl
  · exact r.free
  · intro i
    have listed := r.freed i
    rw [List.length_append, List.length_singleton]
    constructor
    · intro mem
      have both := listed.mp mem
      exact ⟨by omega, by omega, both.2⟩
    · intro both
      exact listed.mpr ⟨by omega, both.2.2⟩
  · rw [List.length_append, List.length_singleton]
    exact fits
  · exact doubled

lemma Represents.addNode (r : Represents g d) {val : α}
    (done : graphAddNode g val = some (g', id)) : Represents g' (d.addVertex id) := by
  unfold graphAddNode at done
  cases top : g.freeList.getLast? with
  | some recycled =>
    simp only [top, some.injEq, Prod.mk.injEq] at done
    obtain ⟨rfl, rfl⟩ := done
    exact r.recycle val top
  | none =>
    simp only [top, map_eq_some_iff, Prod.mk.injEq] at done
    obtain ⟨cap, room, rfl, rfl⟩ := done
    obtain ⟨doubled, fits⟩ := reserve_some r.slots r.doubled doubled_eight room
    exact r.append val doubled fits

lemma map_set_same {β γ : Type*} (f : β → γ) {l : List β} {i : ℕ} {a b : β} (stored : l[i]? = some b)
    (same : f a = f b) : (l.set i a).map f = l.map f := by
  obtain ⟨bound, here⟩ := List.getElem?_eq_some_iff.mp stored
  rw [List.map_set, same, ← here, ← List.getElem_map f, List.set_getElem_self]
  simpa using bound

lemma getElem?_set_modify {β : Type*} {l : List β} {src dst i : ℕ} {a b n : β} {f : β → β}
    (stored : l[src]? = some b) (read : ((l.set src a).modify dst f)[i]? = some n) :
    ∃ old, l[i]? = some old ∧
      n = (if i = dst then f (if i = src then a else old) else (if i = src then a else old)) := by
  have bound := (List.getElem?_eq_some_iff.mp stored).1
  rw [List.getElem?_modify, List.getElem?_set] at read
  by_cases here : src = i
  · subst here
    refine ⟨b, stored, ?_⟩
    by_cases changed : dst = src
    · simpa [bound, changed] using read.symm
    · have apart : ¬ src = dst := fun h => changed h.symm
      simpa [bound, changed, apart] using read.symm
  · have other : ¬ i = src := fun h => here h.symm
    simp only [here, ↓reduceIte] at read
    obtain ⟨old, before, after⟩ := map_eq_some_iff.mp read
    refine ⟨old, before, ?_⟩
    by_cases changed : dst = i
    · simpa [changed, other] using after.symm
    · have apart : ¬ i = dst := fun h => changed h.symm
      simpa [changed, apart, other] using after.symm

lemma Represents.rewireArc {d d' : FiniteDigraph ℕ} (r : Represents g d) {src dst : ℕ}
    {old new : GNode α} (count : UInt32 → UInt32) {nEdges : UInt64} (stored : g.nodes[src]? = some old)
    (alive : new.alive = old.alive) (inDeg : new.inDeg = old.inDeg) (vertices : d'.vertices = d.vertices)
    (adjoins : old.alive = true → new.Adjoins d'.arcs src)
    (others : ∀ i, i ≠ src → ∀ target, (i, target) ∈ d'.arcs ↔ (i, target) ∈ d.arcs)
    (counted : ∀ x : UInt32, x.toNat = d.inDegree dst → (count x).toNat = d'.inDegree dst)
    (degrees : ∀ i, i ≠ dst → d'.inDegree i = d.inDegree i) (edges : nEdges.toNat = d'.arcs.card) :
    Represents { g with
      nodes := (g.nodes.set src new).modify dst (fun n => { n with inDeg := count n.inDeg })
      nEdges := nEdges } d' := by
  apply r.rewire vertices
  · rw [map_key_modify GNode.alive]
    · exact map_set_same GNode.alive stored alive
    · intro n
      rfl
  · intro i n read live
    obtain ⟨before, here, rfl⟩ := getElem?_set_modify stored read
    by_cases same : i = src
    · subst same
      rw [stored] at here
      cases here
      have oldLive : old.alive = true := by
        rw [← alive]
        split at live <;> simpa using live
      have next := adjoins oldLive
      split
      · simpa using next.recount (count new.inDeg)
      · simpa using next
    · have beforeLive : before.alive = true := by split at live <;> exact live
      have kept := (r.adjoins i before here beforeLive).congr (others i same)
      split
      · exact kept.recount (count before.inDeg)
      · exact kept
  · intro i n read live
    obtain ⟨before, here, rfl⟩ := getElem?_set_modify stored read
    have base : (if i = src then new else before).inDeg = before.inDeg ∧
        (if i = src then new else before).alive = before.alive := by
      split
      next same =>
        rw [same, stored] at here
        cases here
        exact ⟨inDeg, alive⟩
      · exact ⟨rfl, rfl⟩
    have beforeLive : before.alive = true := by
      rw [← base.2]
      split at live <;> exact live
    have degree := r.degree i before here beforeLive
    split
    next last =>
      rw [base.1, last]
      exact counted _ (last ▸ degree)
    next apart =>
      rw [base.1, degrees i apart]
      exact degree
  · exact edges

end LibOp.Graph

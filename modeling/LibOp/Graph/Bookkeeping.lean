import LibOp.Graph.NodeDeletion

namespace LibOp.Graph

open Foundation Finset Option

variable {α : Type*}

def OpGraph.live (g : OpGraph α) : Finset ℕ := {id ∈ range g.nodes.length | g.valid id = true}

def OpGraph.targets (g : OpGraph α) (id : ℕ) : List ℕ := g.nodes[id]?.elim [] GNode.targets

structure OpGraph.Bookkept (g : OpGraph α) : Prop where
  distinct : ∀ id ∈ g.live, (g.targets id).Nodup
  targetsLive : ∀ id ∈ g.live, ∀ target ∈ g.targets id, target ∈ g.live
  inDegrees : ∀ (id : ℕ) (n : GNode α), g.nodes[id]? = some n → n.alive = true →
    n.inDeg.toNat = #{source ∈ g.live | id ∈ g.targets source}
  edgeCount : g.nEdges.toNat = ∑ id ∈ g.live, (g.targets id).length
  aliveCount : g.nAlive.toNat = #g.live
  freeDistinct : g.freeList.Nodup
  freeExact : ∀ id, id ∈ g.freeList ↔ id < g.nodes.length ∧ id ∉ g.live

namespace Represents

variable {g : OpGraph α} {d : FiniteDigraph ℕ}

variable (r : Represents g d)

include r

lemma live_eq : g.live = d.vertices := by
  ext id
  rw [OpGraph.live, mem_filter, mem_range, r.live]
  constructor
  · exact And.right
  · intro vertex
    exact ⟨r.vertex_lt vertex, vertex⟩

lemma node {id : ℕ} (vertex : id ∈ d.vertices) :
    ∃ n, g.nodes[id]? = some n ∧ n.alive = true ∧ g.targets id = n.targets ∧ n.Adjoins d.arcs id := by
  obtain ⟨n, stored, alive⟩ := valid_iff.mp ((r.live id).mpr vertex)
  exact ⟨n, stored, alive, by rw [OpGraph.targets, stored]; rfl, r.adjoins id n stored alive⟩

lemma mem_targets {id : ℕ} (vertex : id ∈ d.vertices) (target : ℕ) : target ∈ g.targets id ↔ (id, target) ∈ d.arcs := by
  obtain ⟨n, _, _, targets, adjoins⟩ := r.node vertex
  rw [targets, adjoins.listed]

lemma bookkept : g.Bookkept := by
  have live := r.live_eq
  refine ⟨?_, ?_, ?_, ?_, ?_, r.free, ?_⟩
  · intro id mem
    obtain ⟨n, _, _, targets, adjoins⟩ := r.node (live ▸ mem)
    rw [targets]
    exact adjoins.distinct
  · intro id mem target listed
    rw [live] at mem ⊢
    exact (d.closed _ ((r.mem_targets mem target).mp listed)).2
  · intro id n stored alive
    rw [r.degree id n stored alive, live]
    apply congrArg card
    apply filter_congr
    intro source vertex
    exact (r.mem_targets vertex id).symm
  · rw [r.nEdges, live, card_eq_sum_card_fiberwise (f := Prod.fst) (t := d.vertices)]
    · apply sum_congr rfl
      intro id vertex
      obtain ⟨n, _, _, targets, adjoins⟩ := r.node vertex
      rw [adjoins.card_out, targets]
      exact (List.length_map _).symm
    · intro e arc
      exact (d.closed e arc).1
  · rw [r.nAlive, live]
  · intro id
    rw [r.freed, live, ← r.live, Bool.not_eq_true]

variable {a : GraphAction α}

lemma step (done : graphStep g a = some g') : ∃ d', Represents g' d' := by
  cases a with
  | addNode val =>
    obtain ⟨⟨next, id⟩, added, rfl⟩ := map_eq_some_iff.mp done
    exact ⟨d.addVertex id, r.addNode added⟩
  | setNode id val =>
    cases done
    exact ⟨d, r.setNode id val⟩
  | delNode id =>
    cases done
    exact r.delNode id
  | addEdge src dst weight =>
    obtain ⟨⟨next, reply⟩, added, rfl⟩ := map_eq_some_iff.mp done
    exact r.addEdge added
  | delEdge src dst =>
    cases done
    exact r.delEdge src dst

lemma addNode_stops {val : α} (stops : graphAddNode g val = none) : #d.vertices = 2 ^ 31 := by
  unfold graphAddNode at stops
  cases top : g.freeList.getLast? with
  | some id => simp [top] at stops
  | none =>
    simp only [top, map_eq_none_iff] at stops
    have full : ¬ g.nodes.length < 2 ^ 31 := by
      intro small
      obtain ⟨cap, room⟩ := reserve_of_lt r.doubled (by decide : (8 : UInt32) ≠ 0) small
      rw [room] at stops
      cases stops
    have all : d.vertices = range g.nodes.length := by
      ext id
      rw [← r.live, mem_range]
      have listed := r.freed id
      rw [List.getLast?_eq_none_iff.mp top, ← Bool.not_eq_true] at listed
      constructor
      · intro valid
        exact r.vertex_lt ((r.live id).mp valid)
      · intro inside
        by_contra dead
        exact List.not_mem_nil (listed.mpr ⟨inside, dead⟩)
    have bound := r.nodes_length_le
    rw [all, card_range]
    omega

lemma addEdge_completes (src dst : ℕ) (weight : Int) : ∃ result, graphAddEdge g src dst weight = some result := by
  unfold graphAddEdge
  split
  next ends =>
    rw [Bool.and_eq_true] at ends
    obtain ⟨n, stored, alive⟩ := valid_iff.mp ends.1
    have adjoins := r.adjoins src n stored alive
    simp only [stored, bind_eq_bind, bind_some]
    cases found : edgeFind n dst with
    | some i => exact ⟨_, rfl⟩
    | none =>
      have fresh := edgeFind_none.mp found
      have inside : insert dst n.targets.toFinset ⊆ d.vertices := by
        intro target mem
        rcases mem_insert.mp mem with rfl | listed
        · exact (r.live _).mp ends.2
        · exact (d.closed _ ((adjoins.listed target).mp (List.mem_toFinset.mp listed))).2
      have counted := card_le_card inside
      rw [card_insert_of_notMem (fun mem => fresh (List.mem_toFinset.mp mem)),
        List.toFinset_card_of_nodup adjoins.distinct, GNode.targets, List.length_map] at counted
      have vertices := r.card_vertices_le
      have slots := r.nodes_length_le
      obtain ⟨cap, room⟩ := reserve_of_lt adjoins.doubled (by decide : (4 : UInt32) ≠ 0)
        (by omega : n.edges.length < 2 ^ 31)
      simp only [edgePush, room, map_some, bind_some]
      exact ⟨_, rfl⟩
  · exact ⟨_, rfl⟩

lemma step_stops (stops : graphStep g a = none) : ∃ val, a = .addNode val ∧ #d.vertices = 2 ^ 31 := by
  cases a with
  | addNode val => exact ⟨val, rfl, r.addNode_stops (map_eq_none_iff.mp stops)⟩
  | setNode id val | delNode id | delEdge src dst => cases stops
  | addEdge src dst weight =>
    obtain ⟨result, completes⟩ := r.addEdge_completes src dst weight
    rw [graphStep, completes] at stops
    cases stops

lemma run (actions : List (GraphAction α)) : (∃ g' d', actions.foldlM graphStep g = some g' ∧ Represents g' d') ∨
      ∃ before val after g', actions = before ++ .addNode val :: after ∧
        before.foldlM graphStep g = some g' ∧ g'.live.card = 2 ^ 31 := by
  induction actions generalizing g d with
  | nil => exact .inl ⟨g, d, rfl, r⟩
  | cons a rest ih =>
    cases stepped : graphStep g a with
    | none =>
      obtain ⟨val, rfl, full⟩ := r.step_stops stepped
      exact .inr ⟨[], val, rest, g, rfl, rfl, by rw [r.live_eq]; exact full⟩
    | some next =>
      obtain ⟨d', r'⟩ := r.step stepped
      have first (l : List (GraphAction α)) : (a :: l).foldlM graphStep g = l.foldlM graphStep next := by
        rw [List.foldlM_cons, stepped]
        rfl
      rcases ih r' with ⟨last, e, ran, final⟩ | ⟨before, val, after, last, shape, ran, full⟩
      · exact .inl ⟨last, e, (first rest).trans ran, final⟩
      · refine .inr ⟨a :: before, val, after, last, ?_, (first before).trans ran, full⟩
        rw [shape]
        rfl

end Represents

/-- The books balance after every sequence of operations. Only a node added to 2^31 live ones ends the process: the
capacity wraps to 0. -/
theorem graph_bookkeeping (actions : List (GraphAction α)) :
    (∃ g, actions.foldlM graphStep graphCreate = some g ∧ g.Bookkept) ∨
      ∃ before val after g, actions = before ++ .addNode val :: after ∧
        before.foldlM graphStep graphCreate = some g ∧ #g.live = 2 ^ 31 := by
  rcases Represents.create.run actions with ⟨g, d, ran, r⟩ | stopped
  · exact .inl ⟨g, ran, r.bookkept⟩
  · exact .inr stopped

end LibOp.Graph

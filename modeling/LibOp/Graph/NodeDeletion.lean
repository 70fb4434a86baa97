import LibOp.Graph.EdgeUpdates

namespace LibOp.Graph

open Foundation Finset GNode

variable {α : Type*}

def GNode.release (n : GNode α) : GNode α := if n.alive then { n with inDeg := n.inDeg - 1 } else n

def GNode.skeleton (n : GNode α) : Bool × UInt32 := (n.alive, n.inDeg)

lemma getElem?_released (edges : List GEdge) (nodup : (edges.map GEdge.target).Nodup)
    (nodes : List (GNode α)) (i : ℕ) : (edges.foldl releaseTarget nodes)[i]? =
      if i ∈ edges.map GEdge.target then nodes[i]?.map release else nodes[i]? := by
  induction edges generalizing nodes with
  | nil => simp
  | cons e rest ih =>
    rw [List.map_cons, List.nodup_cons] at nodup
    rw [List.foldl_cons, ih nodup.2, releaseTarget, List.getElem?_modify]
    by_cases here : e.target = i
    · subst here
      simp only [nodup.1, ↓reduceIte, List.map_cons, List.mem_cons, true_or]
      rfl
    · have apart : ¬ i = e.target := fun same => here same.symm
      simp [here, apart]

/-- The scan for edges into `id`: the arcs into it that are left, and the number of arcs from elsewhere. -/
structure Scanned (id : ℕ) (released : List (GNode α)) (arcs : Finset (ℕ × ℕ))
    (state : List (GNode α) × UInt64) : Prop where
  skeleton : state.1.map GNode.skeleton = released.map GNode.skeleton
  adjoins : ∀ (i : ℕ) (n : GNode α), state.1[i]? = some n → n.alive = true → n.Adjoins arcs i
  sources : ∀ e ∈ arcs, ∃ n, state.1[e.1]? = some n ∧ n.alive = true
  count : state.2.toNat = #{e ∈ arcs | e.1 ≠ id}

variable {released : List (GNode α)} {arcs : Finset (ℕ × ℕ)} {state : List (GNode α) × UInt64} {id i : ℕ}

lemma removeIncoming_idle (scanned : Scanned id released arcs state) (idle : i = id ∨ (i, id) ∉ arcs) :
    removeIncoming id state i = state := by
  unfold removeIncoming
  split
  · rfl
  next n stored =>
    split
    · rfl
    next open_ =>
      simp only [Bool.or_eq_true, Bool.not_eq_true', beq_iff_eq, not_or, Bool.not_eq_false] at open_
      have missing : id ∉ n.targets := by
        rw [(scanned.adjoins i n stored open_.1).listed]
        exact idle.resolve_left open_.2
      rw [edgeRemove_none.mpr missing]

lemma Scanned.remove (scanned : Scanned id released arcs state) (apart : i ≠ id) (arc : (i, id) ∈ arcs) :
    Scanned id released (arcs.erase (i, id)) (removeIncoming id state i) := by
  obtain ⟨n, stored, alive⟩ := scanned.sources _ arc
  have adjoins := scanned.adjoins i n stored alive
  obtain ⟨removed, taken⟩ : ∃ removed, edgeRemove n id = some removed := by
    apply Option.ne_none_iff_exists'.mp
    intro none
    exact edgeRemove_none.mp none ((adjoins.listed id).mpr arc)
  obtain ⟨_, sameAlive, sameDeg⟩ := edgeRemove_some taken
  have skeleton : removed.skeleton = n.skeleton := by
    rw [GNode.skeleton, sameAlive, sameDeg]
    rfl
  have next : removeIncoming id state i = (state.1.set i removed, state.2 - 1) := by
    unfold removeIncoming
    simp only [stored, taken, alive, apart, Bool.not_true, beq_iff_eq, Bool.or_eq_true, Bool.false_eq_true, or_self,
      ↓reduceIte]
  have bound := (List.getElem?_eq_some_iff.mp stored).1
  rw [next]
  refine ⟨?_, ?_, ?_, ?_⟩
  · rw [map_set_same GNode.skeleton stored skeleton]
    exact scanned.skeleton
  · intro j m read live
    rw [List.getElem?_set] at read
    split at read
    next same =>
      cases read
      rw [← same]
      exact adjoins.remove taken
    next other =>
      apply (scanned.adjoins j m read live).congr
      intro target
      have different : (j, target) ≠ (i, id) := fun same => other (congrArg Prod.fst same).symm
      simp [different]
  · intro e mem
    obtain ⟨m, read, live⟩ := scanned.sources e (mem_of_mem_erase mem)
    by_cases same : i = e.1
    · refine ⟨removed, ?_, sameAlive.trans alive⟩
      rw [← same]
      simp [bound]
    · exact ⟨m, by rw [List.getElem?_set, if_neg same]; exact read, live⟩
  · apply toNat_sub64
    rw [scanned.count, filter_erase]
    exact (card_erase_add_one (mem_filter.mpr ⟨arc, apart⟩)).symm

def clearArc (id : ℕ) (arcs : Finset (ℕ × ℕ)) (i : ℕ) : Finset (ℕ × ℕ) :=
  if i = id then arcs else arcs.erase (i, id)

variable {id : ℕ}

lemma Scanned.step (scanned : Scanned id released arcs state) (i : ℕ) :
    Scanned id released (clearArc id arcs i) (removeIncoming id state i) := by
  unfold clearArc
  by_cases same : i = id
  · rw [if_pos same, removeIncoming_idle scanned (.inl same)]
    exact scanned
  · rw [if_neg same]
    by_cases arc : (i, id) ∈ arcs
    · exact scanned.remove same arc
    · rw [erase_eq_of_notMem arc, removeIncoming_idle scanned (.inr arc)]
      exact scanned

lemma Scanned.run (scanned : Scanned id released arcs state) (indices : List ℕ) :
    Scanned id released (indices.foldl (clearArc id) arcs) (indices.foldl (removeIncoming id) state) := by
  induction indices generalizing arcs state with
  | nil => exact scanned
  | cons i rest ih => exact ih (scanned.step i)

lemma mem_clearArcs (id : ℕ) (arcs : Finset (ℕ × ℕ)) (indices : List ℕ) (e : ℕ × ℕ) :
    e ∈ indices.foldl (clearArc id) arcs ↔ e ∈ arcs ∧ ¬ (e.1 ∈ indices ∧ e.1 ≠ id ∧ e.2 = id) := by
  induction indices generalizing arcs with
  | nil => simp
  | cons i rest ih =>
    have one : e ∈ clearArc id arcs i ↔ e ∈ arcs ∧ ¬ (e.1 = i ∧ e.1 ≠ id ∧ e.2 = id) := by
      unfold clearArc
      split
      next same =>
        subst same
        tauto
      next apart =>
        rw [mem_erase, ne_eq, Prod.ext_iff]
        constructor
        · tauto
        · rintro ⟨mem, other⟩
          refine ⟨fun same => other ⟨same.1, ?_, same.2⟩, mem⟩
          rw [same.1]
          exact apart
    rw [List.foldl_cons, ih, one, List.mem_cons]
    tauto

variable {n : GNode α}

lemma GNode.Adjoins.card_out (adjoins : n.Adjoins arcs id) : #{e ∈ arcs | e.1 = id} = n.edges.length := by
  have listed : {e ∈ arcs | e.1 = id} = n.targets.toFinset.image (Prod.mk id) := by
    ext e
    simp only [mem_filter, mem_image, List.mem_toFinset, adjoins.listed]
    constructor
    · rintro ⟨mem, rfl⟩
      exact ⟨e.2, mem, rfl⟩
    · rintro ⟨target, mem, rfl⟩
      exact ⟨mem, rfl⟩
  rw [listed, card_image_of_injective _ (Prod.mk_right_injective id), List.toFinset_card_of_nodup adjoins.distinct]
  exact List.length_map _

lemma released_alive (edges : List GEdge) (nodes : List (GNode α)) :
    (edges.foldl releaseTarget nodes).map GNode.alive = nodes.map GNode.alive := by
  apply List.foldlRecOn (motive := fun l : List (GNode α) => l.map GNode.alive = nodes.map GNode.alive) _ _ rfl
  intro l same e _
  rw [releaseTarget, map_key_modify GNode.alive, same]
  intro n
  split <;> rfl

variable {g : OpGraph α} {d : FiniteDigraph ℕ}

lemma Represents.scan (r : Represents g d) (stored : g.nodes[id]? = some n) (alive : n.alive = true) :
    Scanned id (n.edges.foldl releaseTarget g.nodes) d.arcs
      (n.edges.foldl releaseTarget g.nodes, g.nEdges - UInt64.ofNat n.edges.length) := by
  have adjoins := r.adjoins id n stored alive
  have origin (i : ℕ) : (n.edges.foldl releaseTarget g.nodes)[i]? =
      if i ∈ n.targets then g.nodes[i]?.map release else g.nodes[i]? :=
    getElem?_released n.edges adjoins.distinct g.nodes i
  refine ⟨rfl, ?_, ?_, ?_⟩
  · intro i m read live
    rw [origin] at read
    split at read
    · obtain ⟨old, before, rfl⟩ := Option.map_eq_some_iff.mp read
      unfold release at live ⊢
      split at live
      next oldLive =>
        rw [if_pos oldLive]
        exact (r.adjoins i old before oldLive).recount (old.inDeg - 1)
      next dead => exact absurd live dead
    · exact r.adjoins i m read live
  · intro e mem
    obtain ⟨old, before, oldLive⟩ := valid_iff.mp ((r.live e.1).mpr (d.closed e mem).1)
    rw [origin, before]
    split
    · refine ⟨old.release, rfl, ?_⟩
      rw [release, if_pos oldLive]
      exact oldLive
    · exact ⟨old, rfl, oldLive⟩
  · have split := card_filter_add_card_filter_not (s := d.arcs) (fun e => e.1 = id)
    have small : n.edges.length < 2 ^ 64 := by
      have fits := adjoins.fits
      have cap := adjoins.doubled.le
      omega
    apply toNat_sub64
    rw [UInt64.toNat_ofNat_of_lt' small, r.nEdges, ← split, adjoins.card_out, add_comm]

variable {nodes : List (GNode α)}

lemma Represents.released_degree (r : Represents g d) (stored : g.nodes[id]? = some n) (alive : n.alive = true)
    (skeleton : nodes.map GNode.skeleton = (n.edges.foldl releaseTarget g.nodes).map GNode.skeleton) (apart : i ≠ id)
    (read : nodes[i]? = some m) (live : m.alive = true) : m.inDeg.toNat = (d.removeVertex id).inDegree i := by
  have adjoins := r.adjoins id n stored alive
  have here := congrArg (fun l => l[i]?) skeleton
  simp only [List.getElem?_map, read, Option.map_some, getElem?_released n.edges adjoins.distinct] at here
  have degrees := d.inDegree_removeVertex apart
  simp only [← adjoins.listed, targets] at degrees
  split at here
  next target =>
    rw [if_pos target] at degrees
    simp only [Option.map_map] at here
    obtain ⟨old, before, same⟩ := Option.map_eq_some_iff.mp here.symm
    simp only [Function.comp_apply, GNode.skeleton, release, Prod.mk.injEq] at same
    have oldLive : old.alive = true := by
      by_contra dead
      rw [if_neg dead] at same
      exact dead (same.1.trans live)
    rw [if_pos oldLive] at same
    rw [← same.2]
    exact toNat_pred32 ((r.degree i old before oldLive).trans degrees.symm)
  next other =>
    rw [if_neg other, add_zero] at degrees
    obtain ⟨old, before, same⟩ := Option.map_eq_some_iff.mp here.symm
    simp only [GNode.skeleton, Prod.mk.injEq] at same
    rw [← same.2, degrees]
    exact r.degree i old before (same.1.trans live)

def GNode.retire (n : GNode α) : GNode α := { n with alive := false, edges := [], edgesCap := 0 }

lemma valid_retired {g g' : OpGraph α} (flags : nodes.map GNode.alive = g.nodes.map GNode.alive)
    (retired : g'.nodes = nodes.modify id retire) (i : ℕ) : g'.valid i = true ↔ i ≠ id ∧ g.valid i = true := by
  have before : OpGraph.valid { g with nodes := nodes } i = g.valid i := valid_of_skeleton flags i
  rw [← before]
  unfold OpGraph.valid
  rw [retired, List.getElem?_modify]
  by_cases same : i = id
  · subst same
    cases nodes[i]? <;> simp [retire]
  · have other : ¬ id = i := fun h => same h.symm
    simp [same, other]

lemma Represents.removeVertex (r : Represents g d) (stored : g.nodes[id]? = some n) (alive : n.alive = true)
    (scanned : Scanned id (n.edges.foldl releaseTarget g.nodes) arcs state)
    (cleared : ∀ e, e ∈ arcs ↔ e ∈ d.arcs ∧ (e.2 = id → e.1 = id)) : Represents { g with
      nodes := state.1.modify id retire
      nEdges := state.2
      nAlive := g.nAlive - 1
      freeList := g.freeList ++ [id] } (d.removeVertex id) := by
  have vertex := (r.live id).mp (valid_iff.mpr ⟨n, stored, alive⟩)
  have flags : state.1.map GNode.alive = g.nodes.map GNode.alive := by
    have both := congrArg (List.map Prod.fst) scanned.skeleton
    rw [List.map_map, List.map_map] at both
    exact both.trans (released_alive n.edges g.nodes)
  have length : state.1.length = g.nodes.length := by simpa using congrArg List.length flags
  have others (i : ℕ) (apart : i ≠ id) : (state.1.modify id retire)[i]? = state.1[i]? := by
    have other : ¬ id = i := fun same => apart same.symm
    simp [other]
  have valid (i : ℕ) : OpGraph.valid { g with
      nodes := state.1.modify id retire
      nEdges := state.2
      nAlive := g.nAlive - 1
      freeList := g.freeList ++ [id] } i = true ↔ i ≠ id ∧ g.valid i = true := valid_retired flags rfl i
  refine ⟨?_, ?_, ?_, ?_, ?_, ?_, ?_, ?_, r.doubled⟩
  · intro i
    rw [valid, r.live]
    exact mem_erase.symm
  · intro i m read live
    have apart := ((valid i).mp (valid_iff.mpr ⟨m, read, live⟩)).1
    rw [others i apart] at read
    apply (scanned.adjoins i m read live).congr
    intro target
    simp only [FiniteDigraph.removeVertex, mem_filter, cleared]
    tauto
  · intro i m read live
    have apart := ((valid i).mp (valid_iff.mpr ⟨m, read, live⟩)).1
    rw [others i apart] at read
    exact r.released_degree stored alive scanned.skeleton apart read live
  · rw [scanned.count]
    apply congrArg card
    ext e
    simp only [FiniteDigraph.removeVertex, mem_filter, cleared]
    tauto
  · exact toNat_pred32 (r.nAlive.trans (card_erase_add_one vertex).symm)
  · rw [List.nodup_append]
    refine ⟨r.free, List.nodup_singleton id, ?_⟩
    intro i mem j single same
    have dead := ((r.freed i).mp mem).2
    rw [same, List.mem_singleton.mp single, (r.live id).mpr vertex] at dead
    cases dead
  · intro i
    have inside := r.vertex_lt vertex
    rw [← Bool.not_eq_true, valid, List.mem_append, List.mem_singleton, r.freed, List.length_modify, length,
      ← Bool.not_eq_true]
    by_cases same : i = id
    · simp [same, inside]
    · simp [same]
  · rw [List.length_modify, length]
    exact r.slots

lemma Represents.delNode (r : Represents g d) (id : ℕ) : ∃ d', Represents (graphDelNode g id) d' := by
  unfold graphDelNode
  split
  next valid =>
    obtain ⟨n, stored, alive⟩ := valid_iff.mp valid
    have scanned := (r.scan stored alive).run (List.range g.nodes.length)
    simp only [stored, Option.elim_some]
    refine ⟨d.removeVertex id, r.removeVertex stored alive scanned ?_⟩
    intro e
    rw [mem_clearArcs, List.mem_range]
    apply and_congr_right
    intro arc
    have inside := r.vertex_lt (d.closed e arc).1
    tauto
  · exact ⟨d, r⟩

end LibOp.Graph

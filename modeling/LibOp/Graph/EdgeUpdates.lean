import LibOp.Graph.Representation

namespace LibOp.Graph

open Foundation Finset Option

variable {α : Type*}

lemma toNat_pred32 {x : UInt32} {n : ℕ} (value : x.toNat = n + 1) : (x - 1).toNat = n := by
  have one : (1 : UInt32).toNat = 1 := rfl
  have below : (1 : UInt32) ≤ x := by
    rw [UInt32.le_iff_toNat_le]
    omega
  rw [UInt32.toNat_sub_of_le _ _ below]
  omega

lemma toNat_sub64 {x y : UInt64} {n : ℕ} (value : x.toNat = n + y.toNat) : (x - y).toNat = n := by
  have below : y ≤ x := by
    rw [UInt64.le_iff_toNat_le]
    omega
  rw [UInt64.toNat_sub_of_le _ _ below]
  omega

variable {d : FiniteDigraph ℕ}

lemma card_arcs_lt (few : #d.vertices ≤ 2 ^ 31) : #d.arcs < 2 ^ 64 := by
  have product := Nat.mul_le_mul few few
  have arcs := d.card_arcs_le
  omega

variable {g : OpGraph α} {src dst : ℕ}

variable (r : Represents g d)

include r

lemma Represents.linkArc {n pushed : GNode α} (stored : g.nodes[src]? = some n)
    (left : src ∈ d.vertices) (right : dst ∈ d.vertices) (adjoins : n.Adjoins d.arcs src) (fresh : dst ∉ n.targets)
    (push : edgePush n dst weight = some pushed) : Represents { g with
      nodes := (g.nodes.set src pushed).modify dst (fun n => { n with inDeg := n.inDeg + 1 })
      nEdges := g.nEdges + 1 } (d.addArc src dst left right) := by
  have noArc : (src, dst) ∉ d.arcs := fun arc => fresh ((adjoins.listed dst).mpr arc)
  have few : #(d.addArc src dst left right).vertices ≤ 2 ^ 31 := r.card_vertices_le.trans r.nodes_length_le
  have same := edgePush_some push
  apply r.rewireArc (fun x => x + 1) stored same.1 same.2
  · rfl
  · intro _
    exact adjoins.push fresh push
  · intro i apart target
    simp [FiniteDigraph.addArc, apart]
  · intro x degree
    have bound := (d.addArc src dst left right).inDegree_le dst
    have next := d.inDegree_addArc left right noArc dst
    rw [if_pos rfl] at next
    rw [next, UInt32.toNat_add, degree]
    apply Nat.mod_eq_of_lt
    have one : (1 : UInt32).toNat = 1 := rfl
    omega
  · intro i apart
    rw [d.inDegree_addArc left right noArc, if_neg apart, Nat.add_zero]
  · have arcs : #(d.addArc src dst left right).arcs = #d.arcs + 1 := card_insert_of_notMem noArc
    have bound := card_arcs_lt few
    rw [UInt64.toNat_add, r.nEdges, arcs]
    apply Nat.mod_eq_of_lt
    have one : (1 : UInt64).toNat = 1 := rfl
    omega

lemma Represents.unlinkArc {n removed : GNode α} (stored : g.nodes[src]? = some n)
    (adjoins : n.Adjoins d.arcs src) (taken : edgeRemove n dst = some removed) : Represents { g with
      nodes := (g.nodes.set src removed).modify dst (fun n => { n with inDeg := n.inDeg - 1 })
      nEdges := g.nEdges - 1 } (d.removeArc src dst) := by
  obtain ⟨mem, same⟩ := edgeRemove_some taken
  have arc := (adjoins.listed dst).mp mem
  have degrees := d.inDegree_removeArc arc
  apply r.rewireArc (fun x => x - 1) stored same.1 same.2
  · rfl
  · intro _
    exact adjoins.remove taken
  · intro i apart target
    simp [FiniteDigraph.removeArc, apart]
  · intro x degree
    have before := degrees dst
    rw [if_pos rfl] at before
    exact toNat_pred32 (degree.trans before.symm)
  · intro i apart
    have before := degrees i
    rw [if_neg apart] at before
    exact before
  · apply toNat_sub64
    rw [r.nEdges]
    exact (card_erase_add_one arc).symm

lemma Represents.addEdge (done : graphAddEdge g src dst weight = some (g', reply)) : ∃ d', Represents g' d' := by
  unfold graphAddEdge at done
  split at done
  next ends =>
    rw [Bool.and_eq_true] at ends
    obtain ⟨n, stored, alive⟩ := valid_iff.mp ends.1
    have adjoins := r.adjoins src n stored alive
    simp only [stored, bind_eq_bind, bind_some] at done
    cases found : edgeFind n dst with
    | some i =>
      simp only [found, some.injEq, Prod.mk.injEq] at done
      obtain ⟨rfl, _⟩ := done
      refine ⟨d, r.reshape (map_set_same GNode.shape stored ?_)⟩
      have targets : (n.edges.modify i fun e => { e with weight := weight }).map GEdge.target = n.targets :=
        map_key_modify GEdge.target _ i _ (fun _ => rfl)
      simp only [GNode.shape, GNode.targets] at targets ⊢
      rw [targets]
    | none =>
      simp only [found, bind_eq_some_iff, some.injEq, Prod.mk.injEq] at done
      obtain ⟨pushed, push, rfl, _⟩ := done
      have left := (r.live src).mp ends.1
      have right := (r.live dst).mp ends.2
      exact ⟨d.addArc src dst left right, r.linkArc stored left right adjoins (edgeFind_none.mp found) push⟩
  · cases done
    exact ⟨d, r⟩

lemma Represents.delEdge (src dst : ℕ) : ∃ d', Represents (graphDelEdge g src dst).1 d' := by
  unfold graphDelEdge
  split
  next ends =>
    rw [Bool.and_eq_true] at ends
    obtain ⟨n, stored, alive⟩ := valid_iff.mp ends.1
    have adjoins := r.adjoins src n stored alive
    simp only [stored, bind_some]
    cases taken : edgeRemove n dst with
    | none => exact ⟨d, r⟩
    | some removed => exact ⟨d.removeArc src dst, r.unlinkArc stored adjoins taken⟩
  · exact ⟨d, r⟩

end LibOp.Graph

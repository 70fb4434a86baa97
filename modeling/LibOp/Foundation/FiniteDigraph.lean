import Mathlib

namespace LibOp.Foundation

open Finset

variable {V : Type*} [DecidableEq V]

/-- Finitely many vertices, no parallel arcs, loops allowed. -/
structure FiniteDigraph (V : Type*) where
  vertices : Finset V
  arcs : Finset (V × V)
  closed : ∀ e ∈ arcs, e.1 ∈ vertices ∧ e.2 ∈ vertices

namespace FiniteDigraph

def inDegree (d : FiniteDigraph V) (v : V) : Nat := #{u ∈ d.vertices | (u, v) ∈ d.arcs}

def empty : FiniteDigraph V := ⟨∅, ∅, by simp⟩

def addVertex (d : FiniteDigraph V) (v : V) : FiniteDigraph V where
  vertices := insert v d.vertices
  arcs := d.arcs
  closed e member := ⟨mem_insert_of_mem (d.closed e member).1, mem_insert_of_mem (d.closed e member).2⟩

def removeVertex (d : FiniteDigraph V) (v : V) : FiniteDigraph V where
  vertices := d.vertices.erase v
  arcs := {e ∈ d.arcs | e.1 ≠ v ∧ e.2 ≠ v}
  closed e member := by
    obtain ⟨old, apart⟩ := mem_filter.mp member
    exact ⟨mem_erase.mpr ⟨apart.1, (d.closed e old).1⟩, mem_erase.mpr ⟨apart.2, (d.closed e old).2⟩⟩

def addArc (d : FiniteDigraph V) (u v : V) (left : u ∈ d.vertices) (right : v ∈ d.vertices) : FiniteDigraph V where
  vertices := d.vertices
  arcs := insert (u, v) d.arcs
  closed e member := by
    rcases mem_insert.mp member with rfl | old
    · exact ⟨left, right⟩
    · exact d.closed e old

def removeArc (d : FiniteDigraph V) (u v : V) : FiniteDigraph V where
  vertices := d.vertices
  arcs := d.arcs.erase (u, v)
  closed e member := d.closed e (mem_of_mem_erase member)

lemma inDegree_le (d : FiniteDigraph V) (v : V) : d.inDegree v ≤ #d.vertices := card_filter_le _ _

omit [DecidableEq V] in
lemma card_arcs_le (d : FiniteDigraph V) : #d.arcs ≤ #d.vertices * #d.vertices := by
  rw [← card_product]
  apply card_le_card
  intro e mem
  exact mem_product.mpr (d.closed e mem)

variable (d : FiniteDigraph V)

include d

lemma inDegree_outside (outside : v ∉ d.vertices) : d.inDegree v = 0 := by
  apply card_eq_zero.mpr
  apply filter_eq_empty_iff.mpr
  intro u _ arc
  exact outside (d.closed (u, v) arc).2

lemma inDegree_addVertex (fresh : v ∉ d.vertices) (w : V) : (d.addVertex v).inDegree w = d.inDegree w := by
  have noArc : (v, w) ∉ d.arcs := fun arc => fresh (d.closed (v, w) arc).1
  unfold inDegree addVertex
  rw [filter_insert, if_neg noArc]

lemma inDegree_removeVertex (apart : w ≠ v) :
    (d.removeVertex v).inDegree w + (if (v, w) ∈ d.arcs then 1 else 0) = d.inDegree w := by
  have rest : {u ∈ (d.removeVertex v).vertices | (u, w) ∈ (d.removeVertex v).arcs} =
      erase {u ∈ d.vertices | (u, w) ∈ d.arcs} v := by
    ext u
    simp only [removeVertex, mem_filter, mem_erase]
    tauto
  unfold inDegree
  rw [rest]
  split
  next arc => exact card_erase_add_one (mem_filter.mpr ⟨(d.closed _ arc).1, arc⟩)
  next missing =>
    have absent : v ∉ ({u ∈ d.vertices | (u, w) ∈ d.arcs} : Finset V) :=
      fun mem => missing (mem_filter.mp mem).2
    rw [erase_eq_of_notMem absent, Nat.add_zero]

lemma inDegree_addArc (left : u ∈ d.vertices) (right : v ∈ d.vertices) (fresh : (u, v) ∉ d.arcs) (w : V) :
    (d.addArc u v left right).inDegree w = d.inDegree w + if w = v then 1 else 0 := by
  unfold inDegree
  split
  next same =>
    subst same
    have grown : {x ∈ (d.addArc u w left right).vertices | (x, w) ∈ (d.addArc u w left right).arcs} =
        insert u {x ∈ d.vertices | (x, w) ∈ d.arcs} := by
      ext x
      simp only [addArc, mem_filter, mem_insert, Prod.mk.injEq, and_true]
      constructor
      · tauto
      · rintro (rfl | old)
        · exact ⟨left, .inl rfl⟩
        · exact ⟨old.1, .inr old.2⟩
    rw [grown]
    exact card_insert_of_notMem fun mem => fresh (mem_filter.mp mem).2
  next apart =>
    apply congrArg card
    apply filter_congr
    intro x _
    simp [addArc, apart]

lemma inDegree_removeArc (arc : (u, v) ∈ d.arcs) (w : V) :
    (d.removeArc u v).inDegree w + (if w = v then 1 else 0) = d.inDegree w := by
  obtain ⟨left, right⟩ := d.closed _ arc
  have back : (d.removeArc u v).addArc u v left right = d := by
    cases d
    simp only [removeArc, addArc, mk.injEq, true_and]
    exact insert_erase arc
  rw [← inDegree_addArc (d.removeArc u v) left right (notMem_erase _ _) w, back]

end FiniteDigraph

end LibOp.Foundation

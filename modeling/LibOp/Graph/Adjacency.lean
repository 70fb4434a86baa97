import LibOp.Foundation.FiniteDigraph
import LibOp.Foundation.KeyedList
import LibOp.Graph.Table

namespace LibOp.Graph

open Foundation Finset Option

variable {α : Type*}

def Doubled (cap : UInt32) : Prop := cap = 0 ∨ ∃ k < 32, cap.toNat = 2 ^ k

lemma doubled_four : Doubled 4 := .inr ⟨2, by decide, by decide⟩

lemma doubled_eight : Doubled 8 := .inr ⟨3, by decide, by decide⟩

lemma Doubled.le (doubled : Doubled cap) : cap.toNat ≤ 2 ^ 31 := by
  rcases doubled with rfl | ⟨k, bound, power⟩
  · decide
  · rw [power]
    exact Nat.pow_le_pow_right (by decide) (by omega)

lemma Doubled.twice (doubled : Doubled cap) (some_ : cap ≠ 0) :
    (cap * 2 = 0 ∧ cap.toNat = 2 ^ 31) ∨ (Doubled (cap * 2) ∧ (cap * 2).toNat = cap.toNat + cap.toNat) := by
  obtain ⟨k, bound, power⟩ := doubled.resolve_left some_
  have product : (cap * 2).toNat = 2 ^ (k + 1) % 2 ^ 32 := by
    rw [UInt32.toNat_mul, power, Nat.pow_succ]
    rfl
  rcases Nat.lt_or_ge k 31 with small | large
  · right
    have fits : 2 ^ (k + 1) < 2 ^ 32 := Nat.pow_lt_pow_right (by decide) (by omega)
    rw [Nat.mod_eq_of_lt fits] at product
    refine ⟨.inr ⟨k + 1, by omega, product⟩, ?_⟩
    rw [product, power, Nat.pow_succ]
    omega
  · left
    obtain rfl : k = 31 := by omega
    exact ⟨UInt32.toNat_inj.mp product, power⟩

lemma reserve_some (fits : used ≤ cap.toNat) (doubled : Doubled cap)
    (start : Doubled initial) (room : reserve used cap initial = some grown) : Doubled grown ∧ used < grown.toNat := by
  unfold reserve at room
  split at room
  next full =>
    by_cases empty : cap = 0
    · subst empty
      simp only [ne_eq, not_true_eq_false, ↓reduceIte, ite_none_left_eq_some, some.injEq] at room
      obtain ⟨pos, rfl⟩ := room
      have nonzero : initial.toNat ≠ 0 := fun zero => pos (UInt32.toNat_inj.mp zero)
      refine ⟨start, ?_⟩
      rw [full]
      exact Nat.pos_of_ne_zero nonzero
    · simp only [ne_eq, empty, not_false_eq_true, ↓reduceIte, ite_none_left_eq_some, some.injEq] at room
      obtain ⟨pos, rfl⟩ := room
      rcases doubled.twice empty with wraps | ⟨next, value⟩
      · exact absurd wraps.1 pos
      · have nonzero : cap.toNat ≠ 0 := fun zero => empty (UInt32.toNat_inj.mp zero)
        exact ⟨next, by omega⟩
  · cases room
    exact ⟨doubled, by omega⟩

lemma reserve_of_lt (doubled : Doubled cap) (start : initial ≠ 0)
    (small : used < 2 ^ 31) : ∃ grown, reserve used cap initial = some grown := by
  unfold reserve
  split
  next full =>
    by_cases empty : cap = 0
    · exact ⟨initial, by simp [empty, start]⟩
    · rcases doubled.twice empty with ⟨_, top⟩ | ⟨_, value⟩
      · omega
      · have nonzero : cap.toNat ≠ 0 := fun zero => empty (UInt32.toNat_inj.mp zero)
        have pos : cap * 2 ≠ 0 := by
          intro zero
          rw [zero] at value
          have none : (0 : UInt32).toNat = 0 := rfl
          omega
        exact ⟨cap * 2, by simp [empty, pos]⟩
  · exact ⟨cap, rfl⟩

def GNode.targets (n : GNode α) : List Nat := n.edges.map GEdge.target

structure GNode.Adjoins (n : GNode α) (arcs : Finset (ℕ × ℕ)) (id : ℕ) : Prop where
  distinct : n.targets.Nodup
  listed : ∀ target, target ∈ n.targets ↔ (id, target) ∈ arcs
  fits : n.edges.length ≤ n.edgesCap.toNat
  doubled : Doubled n.edgesCap

variable {n : GNode α}

lemma GNode.Adjoins.congr {arcs arcs' : Finset (ℕ × ℕ)} {id : ℕ} (adjoins : n.Adjoins arcs id)
    (same : ∀ target, (id, target) ∈ arcs' ↔ (id, target) ∈ arcs) : n.Adjoins arcs' id :=
  ⟨adjoins.distinct, fun target => (adjoins.listed target).trans (same target).symm, adjoins.fits, adjoins.doubled⟩

variable {arcs : Finset (ℕ × ℕ)}

lemma GNode.Adjoins.recount {id : ℕ} (adjoins : n.Adjoins arcs id) (degree : UInt32) :
    GNode.Adjoins { n with inDeg := degree } arcs id :=
  ⟨adjoins.distinct, adjoins.listed, adjoins.fits, adjoins.doubled⟩

lemma GNode.Adjoins.fresh (val : α) (arcs : Finset (ℕ × ℕ)) (id : ℕ) (none : ∀ target, (id, target) ∉ arcs) :
    (⟨val, true, 0, [], 0⟩ : GNode α).Adjoins arcs id where
  distinct := List.nodup_nil
  listed target := by simp [GNode.targets, none]
  fits := Nat.zero_le _
  doubled := .inl rfl

variable {target : ℕ}

lemma edgeFind_none : edgeFind n target = none ↔ target ∉ n.targets := by
  unfold edgeFind
  rw [findIdx_eq_none GEdge.target, lookup_eq_none]
  rfl

lemma edgeFind_some (found : edgeFind n target = some i) :
    i < n.edges.length ∧ n.targets.Perm (target :: (swapRemove n.edges i).map GEdge.target) := by
  obtain ⟨bound, _, here⟩ := findIdx_eq_some GEdge.target found
  have moved := (swapRemove_perm n.edges i bound).map GEdge.target
  rw [List.map_cons, here] at moved
  exact ⟨bound, moved⟩

variable {pushed : GNode α}

lemma edgePush_some (done : edgePush n target w = some pushed) : pushed.alive = n.alive ∧ pushed.inDeg = n.inDeg := by
  obtain ⟨cap, _, rfl⟩ := map_eq_some_iff.mp done
  exact ⟨rfl, rfl⟩

lemma GNode.Adjoins.push {id target : ℕ} {w : Int} (adjoins : n.Adjoins arcs id)
    (fresh : target ∉ n.targets) (done : edgePush n target w = some pushed) :
    pushed.Adjoins (insert (id, target) arcs) id := by
  obtain ⟨cap, room, rfl⟩ := map_eq_some_iff.mp done
  obtain ⟨doubled, fits⟩ := reserve_some adjoins.fits adjoins.doubled doubled_four room
  have listed : GNode.targets { n with edges := n.edges ++ [⟨target, w⟩], edgesCap := cap } =
      n.targets ++ [target] := by
    simp [GNode.targets]
  refine ⟨?_, ?_, ?_, doubled⟩
  · rw [listed]
    exact List.nodup_append.mpr ⟨adjoins.distinct, List.nodup_singleton target, by
      intro t mem u single
      rw [List.mem_singleton.mp single]
      intro same
      exact fresh (same ▸ mem)⟩
  · intro t
    rw [listed, List.mem_append, List.mem_singleton, adjoins.listed, mem_insert, Prod.mk.injEq]
    simp [or_comm]
  · rw [List.length_append, List.length_singleton]
    exact fits

lemma edgeRemove_none : edgeRemove n target = none ↔ target ∉ n.targets := by
  unfold edgeRemove
  rw [map_eq_none_iff, edgeFind_none]

variable {n removed : GNode α}

lemma edgeRemove_some (done : edgeRemove n target = some removed) :
    target ∈ n.targets ∧ removed.alive = n.alive ∧ removed.inDeg = n.inDeg := by
  obtain ⟨i, found, rfl⟩ := map_eq_some_iff.mp done
  refine ⟨?_, rfl, rfl⟩
  by_contra missing
  rw [edgeFind_none.mpr missing] at found
  cases found

lemma GNode.Adjoins.remove {id target : ℕ} (adjoins : n.Adjoins arcs id)
    (done : edgeRemove n target = some removed) : removed.Adjoins (arcs.erase (id, target)) id := by
  obtain ⟨i, found, rfl⟩ := map_eq_some_iff.mp done
  obtain ⟨bound, moved⟩ := edgeFind_some found
  have distinct := List.nodup_cons.mp (moved.nodup_iff.mp adjoins.distinct)
  have shorter := length_swapRemove n.edges i bound
  refine ⟨distinct.2, ?_, ?_, adjoins.doubled⟩
  · intro t
    have before := moved.mem_iff (a := t)
    rw [adjoins.listed, List.mem_cons] at before
    rw [mem_erase, before, ne_eq, Prod.mk.injEq]
    constructor
    · intro mem
      exact ⟨fun same => distinct.1 (same.2 ▸ mem), Or.inr mem⟩
    · intro both
      exact both.2.resolve_left fun same => both.1 ⟨rfl, same⟩
  · have fits := adjoins.fits
    simp only
    omega

end LibOp.Graph

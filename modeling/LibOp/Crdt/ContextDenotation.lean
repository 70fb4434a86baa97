import LibOp.Crdt.Convergence

namespace LibOp.Crdt

open Foundation Finset

/-- How a context was built, with one merged twice occurring twice. -/
inductive CcHistory where
  | empty
  | add (cc : CcHistory) (dot : Dot)
  | merge (dst src : CcHistory)

namespace CcHistory

def context : CcHistory → Cc
  | .empty => Cc.empty
  | .add cc dot => ccAdd cc.context dot
  | .merge dst src => ccMerge dst.context src.context

def dots : CcHistory → Finset Dot
  | .empty => ∅
  | .add cc dot => insert dot cc.dots
  | .merge dst src => dst.dots ∪ src.dots

/-- `overflow_count` is below its limit before every add, also before those of a merge. -/
def OverflowSpare : CcHistory → Prop
  | .empty => True
  | .add cc _ => cc.OverflowSpare ∧ cc.context.overflow.length < ccMaxOverflow
  | .merge dst src => dst.OverflowSpare ∧ src.OverflowSpare ∧
    Permitted (fun cc dot => ccContains cc dot = true ∨ cc.overflow.length < ccMaxOverflow) ccMergeDot
      (src.context.entries.foldl ccMergeEntry dst.context) src.context.overflow

end CcHistory

lemma ccMergeEntry_overflow (dst : Cc) (entry : CcEntry) : (ccMergeEntry dst entry).overflow = dst.overflow := by
  unfold ccMergeEntry
  split <;> split <;> rfl

lemma ccMerge_overflow {P : Dot → Prop} {dst src : Cc} (left : ∀ d ∈ dst.overflow, P d)
    (right : ∀ d ∈ src.overflow, P d) : ∀ d ∈ (ccMerge dst src).overflow, P d := by
  apply List.foldlRecOn (motive := fun cc : Cc => ∀ d ∈ cc.overflow, P d)
  · apply List.foldlRecOn (motive := fun cc : Cc => ∀ d ∈ cc.overflow, P d) _ _ left
    intro cc inner entry _
    rw [ccMergeEntry_overflow]
    exact inner
  · intro cc inner dot mem d stored
    unfold ccMergeDot at stored
    split at stored
    · exact inner d stored
    · rcases List.mem_append.mp ((ccAdd_overflow cc dot).subset stored) with old | new
      · exact inner d old
      · rw [List.mem_singleton.mp new]
        exact right dot mem

structure CcHistory.Denotes (h : CcHistory) (mesh : Finset Replica) : Prop where
  keyed : h.context.Keyed
  replicas : ∀ r ∈ h.context.replicas, r ∈ mesh
  overflow : ∀ d ∈ h.context.overflow, d.replica ∈ mesh
  contains : ∀ d, 0 < d.counter → (ccContains h.context d = true ↔ d ∈ h.dots)

variable {mesh : Finset Replica} (few : mesh.card ≤ ccMaxReplicas)

include few

lemma CcHistory.Denotes.add {h : CcHistory} (denotes : h.Denotes mesh) {dot : Dot} (member : dot.replica ∈ mesh)
    (spare : h.context.overflow.length < ccMaxOverflow) : (h.add dot).Denotes mesh where
  keyed := (ccAdd_replicas h.context dot).nodup denotes.keyed
  replicas r known := by
    rcases (ccAdd_replicas h.context dot).mem known with old | rfl
    · exact denotes.replicas r old
    · exact member
  overflow d stored := by
    rcases List.mem_append.mp ((ccAdd_overflow h.context dot).subset stored) with old | new
    · exact denotes.overflow d old
    · rw [List.mem_singleton.mp new]
      exact member
  contains d pos := by
    have fits : CcFits h.context dot :=
      ⟨entry_room _ denotes.keyed mesh few denotes.replicas _ member, Or.inr spare⟩
    simp only [CcHistory.context, CcHistory.dots, ccAdd_contains _ _ _ pos, denotes.contains d pos, fits,
      and_true, mem_insert, or_comm]

lemma CcHistory.Denotes.merge {dst src : CcHistory} (left : dst.Denotes mesh) (right : src.Denotes mesh)
    (spare : Permitted (fun cc dot => ccContains cc dot = true ∨ cc.overflow.length < ccMaxOverflow) ccMergeDot
      (src.context.entries.foldl ccMergeEntry dst.context) src.context.overflow) : (dst.merge src).Denotes mesh where
  keyed := ccMerge_keyed dst.context src.context left.keyed
  replicas := ccMerge_replicas dst.context src.context left.replicas right.replicas right.overflow
  overflow := ccMerge_overflow left.overflow right.overflow
  contains d pos := by
    have overflow : OverflowMergeFits dst.context src.context := by
      apply @Permitted.strengthen _ _ _ _ _ (fun _ => True) _ _ trivial _ spare
      intro cc dot _ _ allowed
      exact ⟨allowed.imp_right Or.inr, trivial⟩
    have fits := overflow.mergeFits left.keyed mesh few left.replicas right.replicas right.overflow
    simp only [CcHistory.context, CcHistory.dots, ccMerge_contains _ _ _ pos right.keyed fits,
      left.contains d pos, right.contains d pos, mem_union]

lemma CcHistory.denotes {h : CcHistory} (within : ∀ d ∈ h.dots, d.replica ∈ mesh) (spare : h.OverflowSpare) :
    h.Denotes mesh := by
  induction h with
  | empty =>
    refine ⟨List.nodup_nil, by simp [context, Cc.empty, Cc.replicas], by simp [context, Cc.empty], ?_⟩
    intro d _
    simp [context, dots, empty_contains]
  | add h dot ih =>
    have before := ih (fun d mem => within d (mem_insert_of_mem mem)) spare.1
    exact before.add few (within dot (mem_insert_self dot h.dots)) spare.2
  | merge dst src ihDst ihSrc =>
    have left := ihDst (fun d mem => within d (mem_union_left _ mem)) spare.1
    have right := ihSrc (fun d mem => within d (mem_union_right _ mem)) spare.2.1
    exact left.merge few right spare.2.2

omit few

/-- The counters of the model do not wrap; with the bound, nor does `max_contiguous + 1`. -/
theorem context_denotes_dots (h : CcHistory) (_counters : ∀ d ∈ h.dots, 1 ≤ d.counter ∧ d.counter ≤ 2 ^ 64 - 2)
    (few : (h.dots.image Dot.replica).card ≤ 32) (spare : h.OverflowSpare) (d : Dot)
    (counter : 1 ≤ d.counter ∧ d.counter ≤ 2 ^ 64 - 2) : ccContains h.context d = true ↔ d ∈ h.dots :=
  (CcHistory.denotes few (fun _ => mem_image_of_mem Dot.replica) spare).contains d counter.1

/-- The frontier of the first context is raised past a dot in its overflow array. -/
def staleHistory : CcHistory :=
  .merge (.add .empty ⟨Vector.replicate 8 1, 2⟩)
    (.add (.add (.add .empty ⟨Vector.replicate 8 1, 1⟩) ⟨Vector.replicate 8 1, 2⟩) ⟨Vector.replicate 8 1, 3⟩)

theorem context_denotes_stale : staleHistory.context.overflow = [⟨Vector.replicate 8 1, 2⟩] ∧
    (ccContains staleHistory.context ⟨Vector.replicate 8 1, 3⟩ = true ↔
      ⟨Vector.replicate 8 1, 3⟩ ∈ staleHistory.dots) :=
  ⟨by decide, context_denotes_dots staleHistory (by decide) (by decide)
    ⟨⟨trivial, by decide⟩, ⟨⟨⟨trivial, by decide⟩, by decide⟩, by decide⟩, by decide⟩ _ (by decide)⟩

end LibOp.Crdt

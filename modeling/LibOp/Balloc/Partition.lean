import LibOp.Balloc.Heap
import LibOp.Foundation.Chains
import LibOp.Foundation.Ownership

open LibOp.Foundation List Option Nat

namespace LibOp.Balloc

open Function

variable {T : Type*}

def Pc.freeing : Pc → Option Elem
  | .flushing ptr => some ptr
  | .pushing ptr => some ptr
  | _ => none

inductive Holder (T : Type*) where
  | heap
  | magazine (t : T)
  | caller
  | freeing (t : T)

def holds (s : State T) (free : List Elem) : Holder T → Elem → Prop
  | .heap, e => e ∈ free
  | .magazine t, e => e ∈ s.magazine t
  | .caller, e => s.live e = true
  | .freeing t, e => (s.pc t).freeing = some e

def IsMagazine (items : List Elem) : Prop := items.Nodup ∧ items.length ≤ magazineSize

/-- The free list is the chain from the head, the counters count it, and every element has one holder. -/
structure Consistent (elemsPerBlock : Nat) (s : State T) (free : List Elem) (owner : Elem → Option (Holder T)) :
    Prop where
  linked : LinkedFrom s.next s.freeHead free
  nodup : free.Nodup
  nfree : s.nfree = free.length
  total : s.nfree + s.nused = elemsPerBlock * s.blocks
  magazines : ∀ t, IsMagazine (s.magazine t)
  owns : Owns owner (holds s free)
  slabs : ∀ e, owner e ≠ none ↔ e.slab < s.blocks ∧ e.index < elemsPerBlock

variable {elems : Nat} {s : State T} {free : List Elem} {owner : Elem → Option (Holder T)} {e : Elem}

lemma Consistent.write (c : Consistent elems s free owner) (outside : e ∉ free) (word : Option Elem) :
    LinkedFrom (update s.next e word) s.freeHead free := c.linked.frame word outside

lemma empty_consistent (elemsPerBlock : Nat) : Consistent elemsPerBlock (State.empty : State T) [] fun _ => none where
  linked := rfl
  nodup := nodup_nil
  nfree := rfl
  total := rfl
  magazines t := ⟨nodup_nil, Nat.zero_le _⟩
  owns p e := by
    cases p with
    | heap | magazine t => exact iff_of_false not_mem_nil (Option.some_ne_none _).symm
    | caller => exact iff_of_false Bool.false_ne_true (Option.some_ne_none _).symm
    | freeing t => exact iff_of_false (Option.some_ne_none _).symm (Option.some_ne_none _).symm
  slabs e := iff_of_false (fun same => same rfl) fun inside => Nat.not_lt_zero _ inside.1

variable (slab k : Nat)

lemma growLoop_fields (s : State T) :
    (growLoop slab k s).blocks = s.blocks ∧ (growLoop slab k s).nfree = s.nfree ∧ (growLoop slab k s).nused = s.nused ∧
      (growLoop slab k s).magazine = s.magazine ∧ (growLoop slab k s).pc = s.pc ∧ (growLoop slab k s).live = s.live := by
  induction k generalizing s with
  | zero => exact ⟨rfl, rfl, rfl, rfl, rfl, rfl⟩
  | succ k ih => exact ih (s.pushFree ⟨slab, k⟩)

def slabElems (slab k : Nat) : List Elem := (List.range k).map (Elem.mk slab)

lemma mem_slabElems {slab k : Nat} : e ∈ slabElems slab k ↔ e.slab = slab ∧ e.index < k := by
  unfold slabElems
  rw [List.mem_map]
  constructor
  · rintro ⟨i, inside, rfl⟩
    exact ⟨rfl, List.mem_range.mp inside⟩
  · rintro ⟨rfl, inside⟩
    exact ⟨e.index, List.mem_range.mpr inside, rfl⟩

lemma growLoop_linked (s : State T) (free : List Elem) (linked : LinkedFrom s.next s.freeHead free)
    (fresh : ∀ e ∈ free, e.slab ≠ slab ∨ k ≤ e.index) :
    LinkedFrom (growLoop slab k s).next (growLoop slab k s).freeHead (slabElems slab k ++ free) := by
  induction k generalizing s free with
  | zero => exact linked
  | succ k ih =>
    have outside : Elem.mk slab k ∉ free := by
      intro mem
      rcases fresh _ mem with other | high
      · exact other rfl
      · exact not_succ_le_self k high
    have pushed := ih (s.pushFree ⟨slab, k⟩) (⟨slab, k⟩ :: free) (linked.push outside)
      (List.forall_mem_cons.mpr ⟨Or.inr (Nat.le_refl k), fun e old => (fresh e old).imp_right le_of_succ_le⟩)
    have elems : slabElems slab (k + 1) ++ free = slabElems slab k ++ ⟨slab, k⟩ :: free := by
      rw [slabElems, range_succ, map_append, append_assoc]
      rfl
    rw [elems]
    exact pushed

lemma nodup_slabElems : (slabElems slab k).Nodup :=
  List.nodup_range.map fun _ _ same => (Elem.mk.injEq _ _ _ _ ▸ same).2

def grownOwner (s : State T) (elemsPerBlock : Nat) (owner : Elem → Option (Holder T)) (e : Elem) : Option (Holder T) :=
  if e.slab = s.blocks ∧ e.index < elemsPerBlock then some .heap else owner e

variable {p : Holder T}

section

variable (c : Consistent elems s free owner)

include c

lemma Consistent.slab_lt (held : holds s free p e) : e.slab < s.blocks ∧ e.index < elems := by
  apply (c.slabs e).mp
  rw [(c.owns p e).mp held]
  exact some_ne_none p

lemma Consistent.grow_owns {grown : State T} (magazine : grown.magazine = s.magazine) (pc : grown.pc = s.pc)
    (live : grown.live = s.live) :
    Owns (grownOwner s elems owner) (holds grown (slabElems s.blocks elems ++ free)) := by
  intro p e
  have kept : ∀ q ≠ Holder.heap, holds grown (slabElems s.blocks elems ++ free) q e ↔ holds s free q e := by
    intro q other
    cases q with
    | heap => exact absurd rfl other
    | magazine t => rw [holds, holds, magazine]
    | caller => rw [holds, holds, live]
    | freeing t => rw [holds, holds, pc]
  unfold grownOwner
  split_ifs with fresh
  · have unheld (q : Holder T) : ¬holds s free q e := fun held => Nat.ne_of_lt (c.slab_lt held).1 fresh.1
    by_cases heap : p = .heap
    · rw [heap]
      exact iff_of_true (mem_append_left _ (mem_slabElems.mpr fresh)) rfl
    · apply iff_of_false
      · intro held
        exact unheld p ((kept p heap).mp held)
      · intro same
        exact heap (Option.some.inj same).symm
  · rw [← c.owns p e]
    by_cases heap : p = .heap
    · rw [heap, holds, holds, mem_append, mem_slabElems]
      exact or_iff_right fresh
    · exact kept p heap

lemma Consistent.grow : Consistent elems (opBhGrow elems s) (slabElems s.blocks elems ++ free)
      (grownOwner s elems owner) := by
  obtain ⟨blocks, nfree, nused, magazine, pc, live⟩ :=
    growLoop_fields s.blocks elems (s.addSlab elems)
  have old : ∀ e ∈ free, e.slab ≠ s.blocks := fun e mem => Nat.ne_of_lt (c.slab_lt (p := .heap) mem).1
  have size : (slabElems s.blocks elems ++ free).length = s.nfree + elems := by
    rw [length_append, slabElems, length_map, length_range, c.nfree, Nat.add_comm]
  constructor
  case linked => exact growLoop_linked _ _ _ _ c.linked fun e mem => Or.inl (old e mem)
  case nodup =>
    apply (nodup_slabElems _ _).append c.nodup
    intro e new mem
    exact old e mem (mem_slabElems.mp new).1
  case nfree => exact nfree.trans size.symm
  case total =>
    have before := c.total
    change (growLoop _ _ _).nfree + (growLoop _ _ _).nused = _ * (growLoop _ _ _).blocks
    rw [nfree, nused, blocks]
    change s.nfree + elems + s.nused = elems * (s.blocks + 1)
    rw [Nat.mul_add, Nat.mul_one, ← before]
    omega
  case magazines =>
    intro t
    change IsMagazine ((growLoop _ _ _).magazine t)
    rw [magazine]
    exact c.magazines t
  case owns => exact c.grow_owns magazine pc live
  case slabs =>
    intro e
    have before := c.slabs e
    change _ ↔ e.slab < (growLoop _ _ _).blocks ∧ _
    rw [blocks]
    change _ ↔ e.slab < s.blocks + 1 ∧ _
    unfold grownOwner
    split_ifs with fresh
    · exact iff_of_true (some_ne_none _) ⟨by omega, fresh.2⟩
    · rw [before]
      omega

lemma Consistent.not_held {p q : Holder T} (here : holds s free p e) (apart : p ≠ q) :
    ¬holds s free q e := fun there => apart (c.owns.unique here there)

lemma Consistent.slabs_moved (here : holds s free p e) (q : Holder T) (b : Elem) :
    update owner e (some q) b ≠ none ↔ b.slab < s.blocks ∧ b.index < elems := by
  have owned := c.slab_lt here
  grind [Function.update_apply, c.slabs b]

end

lemma length_allElems (blocks elems : Nat) :
    ((List.range blocks).flatMap fun slab => slabElems slab elems).length = elems * blocks := by
  induction blocks with
  | zero => rfl
  | succ blocks ih =>
    rw [range_succ, flatMap_append, length_append, ih, flatMap_singleton, slabElems, length_map, length_range, mul_succ]

lemma Consistent.nused_pos (c : Consistent elems s free owner) (here : holds s free p e) (apart : p ≠ .heap) :
    0 < s.nused := by
  have nodup := List.nodup_cons.mpr ⟨c.not_held here apart, c.nodup⟩
  have inside : (e :: free) ⊆ (List.range s.blocks).flatMap fun slab => slabElems slab elems := by
    intro b mem
    have place : b.slab < s.blocks ∧ b.index < elems := by
      rcases List.mem_cons.mp mem with rfl | old
      · exact c.slab_lt here
      · exact c.slab_lt (p := Holder.heap) old
    exact List.mem_flatMap.mpr ⟨b.slab, List.mem_range.mpr place.1, mem_slabElems.mpr ⟨rfl, place.2⟩⟩
  have size := (subperm_of_subset nodup inside).length_le
  have count := c.nfree
  have total := c.total
  rw [length_allElems, length_cons] at size
  omega

lemma mem_tail_iff (nodup : (e :: rest).Nodup) (b : Elem) : b ∈ rest ↔ b ∈ e :: rest ∧ b ≠ e := by
  constructor
  · intro mem
    refine ⟨mem_cons_of_mem _ mem, ?_⟩
    rintro rfl
    exact (List.nodup_cons.mp nodup).1 mem
  · rintro ⟨mem, other⟩
    exact (List.mem_cons.mp mem).resolve_left other

lemma mem_append_singleton (items : List Elem) (e b : Elem) : b ∈ items ++ [e] ↔ b ∈ items ∨ b = e := by
  rw [mem_append, mem_singleton]

variable {items : List Elem}

lemma mem_dropLast_iff (nodup : (items ++ [e]).Nodup) (b : Elem) : b ∈ items ↔ b ∈ items ++ [e] ∧ b ≠ e := by
  constructor
  · intro mem
    refine ⟨mem_append_left _ mem, ?_⟩
    rintro rfl
    exact (List.nodup_append.mp nodup).2.2 b mem b mem_cons_self rfl
  · rintro ⟨mem, other⟩
    exact ((mem_append_singleton _ _ _).mp mem).resolve_right other

lemma isMagazine_push (old : IsMagazine items) (fresh : e ∉ items) (room : items.length < magazineSize) :
    IsMagazine (items ++ [e]) := by
  refine ⟨?_, ?_⟩
  · rw [nodup_append_comm]
    exact List.nodup_cons.mpr ⟨fresh, old.1⟩
  · rw [length_append, length_singleton]
    exact room

lemma isMagazine_pop (old : IsMagazine (items ++ [e])) : IsMagazine items := by
  refine ⟨(List.nodup_append.mp old.1).1, ?_⟩
  have size := old.2
  rw [length_append, length_singleton] at size
  exact le_of_succ_le size

structure Local (t : T) (s s' : State T) : Prop where
  pc : s'.pc = s.pc
  others : ∀ u ≠ t, s'.magazine u = s.magazine u

lemma Local.trans {t : T} {s₁ s₂ s₃ : State T} (first : Local t s₁ s₂) (second : Local t s₂ s₃) : Local t s₁ s₃ :=
  ⟨second.pc.trans first.pc, fun u other => (second.others u other).trans (first.others u other)⟩

variable [DecidableEq T] {t : T} {magazine : T → List Elem} {items : List Elem}

lemma magazines_updated (all : ∀ u, IsMagazine (magazine u)) (new : IsMagazine items) :
    ∀ u, IsMagazine (update magazine t items u) :=
  (Function.forall_update_iff magazine fun _ items => IsMagazine items).mpr ⟨new, fun u _ => all u⟩

lemma mem_update_self : b ∈ update magazine t items t ↔ b ∈ items := by rw [update_self]

lemma mem_update_of_ne (other : Holder.magazine u ≠ Holder.magazine t) :
    b ∈ update magazine t items u ↔ b ∈ magazine u := by
  rw [update_of_ne (fun same => other (congrArg _ same))]

variable {pc : Pc} {pcs : T → Pc}

lemma freeing_of_ne (other : Holder.freeing u ≠ Holder.freeing t) : (update pcs t pc u).freeing = (pcs u).freeing := by
  rw [update_of_ne (fun same => other (congrArg _ same))]

lemma freeing_goto (same : pc.freeing = (pcs t).freeing) (u : T) : (update pcs t pc u).freeing = (pcs u).freeing := by
  grind [Function.update_apply]

variable {e : Elem}

lemma Consistent.popFree (c : Consistent elems s (e :: rest) owner) (room : (s.magazine t).length < magazineSize) :
    Consistent elems (s.popFree t e) rest (update owner e (some (.magazine t))) := by
  have here : holds s (e :: rest) .heap e := mem_cons_self
  have apart : Holder.heap ≠ Holder.magazine t := fun same => by cases same
  have count := c.nfree
  rw [length_cons] at count
  constructor
  case linked => exact c.linked.2
  case nodup => exact (List.nodup_cons.mp c.nodup).2
  case nfree => exact Nat.sub_eq_of_eq_add count
  case total =>
    have before := c.total
    change s.nfree - 1 + (s.nused + 1) = elems * s.blocks
    omega
  case magazines => exact magazines_updated c.magazines (isMagazine_push (c.magazines t) (c.not_held here apart) room)
  case owns =>
    apply c.owns.move here apart
    · exact mem_tail_iff c.nodup
    · intro b
      exact mem_update_self.trans (mem_append_singleton _ _ _)
    · intro r notHeap notMagazine b
      cases r with
      | heap => exact absurd rfl notHeap
      | magazine u => exact mem_update_of_ne notMagazine
      | caller | freeing u => exact Iff.rfl
  case slabs => exact c.slabs_moved here _

section

variable (c : Consistent elems s free owner)

include c

section

variable (full : s.magazine t = items ++ [e])

include full

lemma Consistent.top : holds s free (.magazine t) e ∧
    (∀ u, IsMagazine (update s.magazine t (s.magazine t).dropLast u)) ∧
    ∀ b, b ∈ update s.magazine t (s.magazine t).dropLast t ↔ b ∈ s.magazine t ∧ b ≠ e := by
  have shape := c.magazines t
  rw [full] at shape
  rw [holds, full, dropLast_concat]
  refine ⟨mem_append_right _ mem_cons_self, magazines_updated c.magazines (isMagazine_pop shape), ?_⟩
  exact fun b => mem_update_self.trans (mem_dropLast_iff shape.1 b)

lemma Consistent.flushOne : Consistent elems (s.flushOne t e) (e :: free) (update owner e (some .heap)) := by
  obtain ⟨here, magazines, others⟩ := c.top full
  have apart : Holder.magazine t ≠ Holder.heap := fun same => by cases same
  have outside : e ∉ free := c.not_held here apart
  constructor
  case linked => exact c.linked.push outside
  case nodup => exact List.nodup_cons.mpr ⟨outside, c.nodup⟩
  case nfree => exact congrArg succ c.nfree
  case total =>
    have before := c.total
    have pos := c.nused_pos here apart
    change s.nfree + 1 + (s.nused - 1) = elems * s.blocks
    omega
  case magazines => exact magazines
  case owns =>
    apply c.owns.move here apart
    · exact others
    · intro b
      change b ∈ e :: free ↔ b ∈ free ∨ b = e
      rw [mem_cons, or_comm]
    · intro r notMagazine notHeap b
      cases r with
      | heap => exact absurd rfl notHeap
      | magazine u => exact mem_update_of_ne notMagazine
      | caller | freeing u => exact Iff.rfl
  case slabs => exact c.slabs_moved here _

lemma Consistent.hand (taking : s.pc t = .popping) :
    Consistent elems (s.hand t e) free (update owner e (some .caller)) := by
  obtain ⟨here, magazines, others⟩ := c.top full
  have apart : Holder.magazine t ≠ Holder.caller := fun same => by cases same
  have quiet : Pc.idle.freeing = (s.pc t).freeing := by rw [taking]; rfl
  have outside : e ∉ free := c.not_held (q := Holder.heap) here fun same => by cases same
  constructor
  case linked => exact c.write outside none
  case nodup => exact c.nodup
  case nfree => exact c.nfree
  case total => exact c.total
  case magazines => exact magazines
  case owns =>
    apply c.owns.move here apart
    · exact others
    · intro b
      change update s.live e true b = true ↔ s.live b = true ∨ b = e
      grind [Function.update_apply]
    · intro r notMagazine notCaller b
      cases r with
      | heap => exact Iff.rfl
      | magazine u => exact mem_update_of_ne notMagazine
      | caller => exact absurd rfl notCaller
      | freeing u => exact Eq.congr_left (freeing_goto quiet u)
  case slabs => exact c.slabs_moved here _

end

lemma Consistent.giveUp (held : s.live e = true) (outside : s.pc t = .idle) (word : Option Elem) :
    Consistent elems (s.giveUp t e word) free (update owner e (some (.freeing t))) := by
  have here : holds s free .caller e := held
  have apart : Holder.caller ≠ Holder.freeing t := fun same => by cases same
  constructor
  case linked => exact c.write (c.not_held (q := Holder.heap) here fun same => by cases same) word
  case nodup => exact c.nodup
  case nfree => exact c.nfree
  case total => exact c.total
  case magazines => exact c.magazines
  case owns =>
    have entering :
    (if (s.magazine t).length ≥ magazineSize then Pc.flushing e else Pc.pushing e).freeing = some e := by
      split_ifs <;> rfl
    apply c.owns.move here apart
    · intro b
      change update s.live e false b = true ↔ s.live b = true ∧ b ≠ e
      grind [Function.update_apply]
    · intro b
      change (update s.pc t _ t).freeing = some b ↔ (s.pc t).freeing = some b ∨ b = e
      rw [update_self, entering, outside, some_inj]
      exact eq_comm.trans (or_iff_right (fun none => some_ne_none b none.symm)).symm
    · intro r notCaller notFreeing b
      cases r with
      | heap | magazine u => exact Iff.rfl
      | caller => exact absurd rfl notCaller
      | freeing u => exact Eq.congr_left (freeing_of_ne notFreeing)
  case slabs => exact c.slabs_moved here _

lemma Consistent.putBack (freed : s.pc t = .pushing e) (room : (s.magazine t).length < magazineSize) :
    Consistent elems (s.putBack t e) free (update owner e (some (.magazine t))) := by
  have here : holds s free (.freeing t) e := by rw [holds, freed]; rfl
  have apart : Holder.freeing t ≠ Holder.magazine t := fun same => by cases same
  constructor
  case linked => exact c.linked
  case nodup => exact c.nodup
  case nfree => exact c.nfree
  case total => exact c.total
  case magazines => exact magazines_updated c.magazines (isMagazine_push (c.magazines t) (c.not_held here apart) room)
  case owns =>
    apply c.owns.move here apart
    · intro b
      change (update s.pc t Pc.idle t).freeing = some b ↔ (s.pc t).freeing = some b ∧ b ≠ e
      rw [update_self, freed]
      apply iff_of_false (fun none => some_ne_none b none.symm)
      rintro ⟨same, other⟩
      exact other (Option.some.inj same).symm
    · intro b
      exact mem_update_self.trans (mem_append_singleton _ _ _)
    · intro r notFreeing notMagazine b
      cases r with
      | heap | caller => exact Iff.rfl
      | magazine u => exact mem_update_of_ne notMagazine
      | freeing u => exact Eq.congr_left (freeing_of_ne notFreeing)
  case slabs => exact c.slabs_moved here _

lemma Consistent.goto (same : pc.freeing = (s.pc t).freeing) : Consistent elems (s.goto t pc) free owner := by
  refine { c with owns := c.owns.congr ?_ }
  intro p b
  cases p with
  | heap | magazine u | caller => exact Iff.rfl
  | freeing u => exact Eq.congr_left (freeing_goto same u)

end

end LibOp.Balloc

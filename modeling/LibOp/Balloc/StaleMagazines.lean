import LibOp.Balloc.Partition

namespace LibOp.Balloc.Reuse

open List Function Foundation

/-- An element, by its heap and its number in that heap. Heaps are numbered in the order of creation, so two heaps at
one address differ. -/
structure Item where
  heap : Nat
  number : Nat
deriving DecidableEq, Repr

/-- `struct op_bh`, where `made` elements are in the slabs. -/
structure Bh where
  heap : Nat
  elemsPerBlock : Nat
  free : List Item
  made : Nat
  generation : Nat
deriving DecidableEq, Repr

structure Magazine where
  items : List Item
  generation : Nat
deriving DecidableEq, Repr

/-- The heaps by address, the magazines of each thread, and what the callers hold. -/
structure State (T : Type*) where
  heaps : Nat → Option Bh
  magazines : T → Nat → Option Magazine
  live : Item → Bool
  created : Nat

variable {T : Type*}

def State.init : State T :=
  { heaps := fun _ => none, magazines := fun _ _ => none, live := fun _ => false, created := 0 }

def opBhGrow (bh : Bh) : Bh :=
  { bh with
    free := (List.range bh.elemsPerBlock).map (fun i => ⟨bh.heap, bh.made + i⟩) ++ bh.free
    made := bh.made + bh.elemsPerBlock }

def opBhAllocStruct (heap elemsPerBlock : Nat) : Bh :=
  { heap := heap, elemsPerBlock := elemsPerBlock, free := [], made := 0, generation := 0 }

def magFindOrCreate (found : Option Magazine) (bh : Bh) : Magazine :=
  match found with
  | some m => if m.generation ≠ bh.generation then { items := [], generation := bh.generation } else m
  | none => { items := [], generation := bh.generation }

def magRefillLocked : (want : Nat) → Bh → List Item → Bh × List Item
  | 0, bh, items => (bh, items)
  | want + 1, bh, items =>
    let bh := if bh.free = [] then opBhGrow bh else bh
    match bh.free with
    | [] => (bh, items)
    | item :: rest => magRefillLocked want { bh with free := rest } (items ++ [item])

def magFlushLocked : (flushCount : Nat) → Bh → List Item → Bh × List Item
  | 0, bh, items => (bh, items)
  | flushCount + 1, bh, items =>
    match items.getLast? with
    | none => (bh, items)
    | some item => magFlushLocked flushCount { bh with free := item :: bh.free } items.dropLast

section

variable {s s' : Balloc.State T} {t : T} {bh : Bh} {items : List Item} {free : List Elem}

def itemOf (bh : Bh) (e : Elem) : Item := ⟨bh.heap, bh.elemsPerBlock * e.slab + e.index⟩

/-- A heap and the magazine of a thread for it, without the links and the counters. -/
structure Abstracts (s : Balloc.State T) (t : T) (free : List Elem) (bh : Bh) (items : List Item) : Prop where
  consistent : ∃ owner, Consistent bh.elemsPerBlock s free owner
  listed : bh.free = free.map (itemOf bh)
  made : bh.made = bh.elemsPerBlock * s.blocks
  cached : items = (s.magazine t).map (itemOf bh)

lemma Abstracts.grow (abstracts : Abstracts s t free bh items) :
    Abstracts (Balloc.opBhGrow bh.elemsPerBlock s) t (slabElems s.blocks bh.elemsPerBlock ++ free) (opBhGrow bh)
      items := by
  obtain ⟨⟨owner, c⟩, listed, made, cached⟩ := abstracts
  obtain ⟨blocks, -, -, magazine, -, -⟩ := growLoop_fields s.blocks bh.elemsPerBlock (s.addSlab bh.elemsPerBlock)
  refine ⟨⟨_, c.grow⟩, ?_, ?_, ?_⟩
  · simp only [opBhGrow, listed, made, slabElems, map_append, map_map]
    rfl
  · change bh.made + bh.elemsPerBlock = bh.elemsPerBlock * (growLoop _ _ _).blocks
    rw [blocks, made]
    rfl
  · change items = ((growLoop _ _ _).magazine t).map _
    rw [magazine]
    exact cached

lemma create_abstracts (t : T) (heap elemsPerBlock : Nat) : Abstracts (Balloc.opBhCreate elemsPerBlock) t
    (slabElems 0 elemsPerBlock ++ []) (opBhGrow (opBhAllocStruct heap elemsPerBlock)) [] := by
  have empty : Abstracts .empty t [] (opBhAllocStruct heap elemsPerBlock) [] :=
    ⟨⟨_, empty_consistent elemsPerBlock⟩, rfl, rfl, rfl⟩
  exact empty.grow

lemma Abstracts.refill [DecidableEq T] (abstracts : Abstracts s t free bh items) (want : Nat)
    (done : Balloc.magRefillLocked bh.elemsPerBlock t want s = some s') :
    ∃ free', Abstracts s' t free' (magRefillLocked want bh items).1 (magRefillLocked want bh items).2 := by
  induction want generalizing s free bh items with
  | zero =>
    cases done
    exact ⟨free, abstracts⟩
  | succ want ih =>
    have ready : ∃ free', Abstracts (if s.freeHead = none then Balloc.opBhGrow bh.elemsPerBlock s else s) t free'
        (if bh.free = [] then opBhGrow bh else bh) items := by
      obtain ⟨owner, c⟩ := abstracts.consistent
      have same : s.freeHead = none ↔ bh.free = [] := by
        rw [abstracts.listed, map_eq_nil_iff, c.linked.start_eq, head?_eq_none_iff]
      by_cases empty : s.freeHead = none
      · rw [if_pos empty, if_pos (same.mp empty)]
        exact ⟨_, abstracts.grow⟩
      · rw [if_neg empty, if_neg (mt same.mpr empty)]
        exact ⟨_, abstracts⟩
    obtain ⟨free', ready⟩ := ready
    rw [Balloc.magRefillLocked] at done
    rw [magRefillLocked]
    have elems : (if bh.free = [] then opBhGrow bh else bh).elemsPerBlock = bh.elemsPerBlock := by
      split_ifs <;> rfl
    generalize (if s.freeHead = none then Balloc.opBhGrow bh.elemsPerBlock s else s) = u at done ready
    generalize (if bh.free = [] then opBhGrow bh else bh) = grown at ready elems ⊢
    obtain ⟨⟨owner, c⟩, listed, made, cached⟩ := ready
    cases head : u.freeHead with
    | none => simp [head] at done
    | some e =>
      have linked := c.linked
      rw [head] at linked
      obtain ⟨rest, rfl, -⟩ := linked.eq_cons
      simp only [head] at done
      split at done
      next room =>
        have next : Abstracts (u.popFree t e) t rest { grown with free := rest.map (itemOf grown) }
            (items ++ [itemOf grown e]) := by
          refine ⟨⟨_, c.popFree room⟩, rfl, made, ?_⟩
          change _ = (update u.magazine t _ t).map (itemOf grown)
          rw [update_self, map_append, cached, map_singleton]
        rw [listed, map_cons]
        exact ih next (elems ▸ done)
      · cases done

lemma Abstracts.flush [DecidableEq T] (abstracts : Abstracts s t free bh items) (flushCount : Nat)
    (done : Balloc.magFlushLocked t flushCount s = some s') :
    ∃ free', Abstracts s' t free' (magFlushLocked flushCount bh items).1 (magFlushLocked flushCount bh items).2 := by
  induction flushCount generalizing s free bh items with
  | zero =>
    cases done
    exact ⟨free, abstracts⟩
  | succ flushCount ih =>
    obtain ⟨⟨owner, c⟩, listed, made, cached⟩ := abstracts
    rw [Balloc.magFlushLocked] at done
    rw [magFlushLocked]
    rcases eq_nil_or_concat (s.magazine t) with none | ⟨front, e, full⟩
    · simp [none] at done
    · rw [concat_eq_append] at full
      rw [full, getLast?_concat] at done
      rw [cached, full, map_append, map_singleton, getLast?_concat, dropLast_concat]
      have next : Abstracts (s.flushOne t e) t (e :: free) { bh with free := itemOf bh e :: bh.free }
          (front.map (itemOf bh)) := by
        refine ⟨⟨_, c.flushOne full⟩, congrArg _ listed, made, ?_⟩
        change _ = (update s.magazine t (s.magazine t).dropLast t).map (itemOf bh)
        rw [update_self, full, dropLast_concat]
      exact ih next done

end

variable [DecidableEq T]

def State.setMagazine (s : State T) (t : T) (addr : Nat) (m : Option Magazine) : State T :=
  { s with magazines := update s.magazines t (update (s.magazines t) addr m) }

def State.setHeap (s : State T) (addr : Nat) (bh : Option Bh) : State T :=
  { s with heaps := update s.heaps addr bh }

/-- `malloc` may return any address that holds no heap. -/
def opBhCreate (s : State T) (addr elemsPerBlock : Nat) : State T :=
  { s.setHeap addr (some (opBhGrow (opBhAllocStruct s.created elemsPerBlock))) with created := s.created + 1 }

def opBhAlloc (s : State T) (t : T) (addr : Nat) (bh : Bh) : State T × Option Item :=
  let m := magFindOrCreate (s.magazines t addr) bh
  let filled := if m.items = [] then magRefillLocked (magazineSize / 2) bh m.items else (bh, m.items)
  let s := s.setHeap addr (some filled.1)
  let s := s.setMagazine t addr (some { m with items := filled.2.dropLast })
  match filled.2.getLast? with
  | none => (s, none)
  | some item => ({ s with live := update s.live item true }, some item)

def opBhFree (s : State T) (t : T) (addr : Nat) (bh : Bh) (ptr : Item) : State T :=
  let m := magFindOrCreate (s.magazines t addr) bh
  let flushed := if m.items.length ≥ magazineSize then magFlushLocked (magazineSize / 2) bh m.items else (bh, m.items)
  let s := s.setHeap addr (some flushed.1)
  let s := s.setMagazine t addr (some { m with items := flushed.2 ++ [ptr] })
  { s with live := update s.live ptr false }

def opBhDestroy (s : State T) (t : T) (addr : Nat) (bh : Bh) : State T :=
  let s := s.setHeap addr (some { bh with generation := (bh.generation + 1) % 2 ^ 32 })
  let s := s.setMagazine t addr none
  s.setHeap addr none

inductive Action (T : Type*) where
  | create (addr elemsPerBlock : Nat)
  | alloc (t : T) (addr : Nat)
  | free (t : T) (addr : Nat) (ptr : Item)
  | destroy (t : T) (addr : Nat)

def NoneLive (s : State T) (bh : Bh) : Prop := ∀ number, number < bh.made → s.live ⟨bh.heap, number⟩ = false

instance (s : State T) (bh : Bh) : Decidable (NoneLive s bh) := Nat.decidableBallLT _ _

/-- A call and the element that it returns; the lock makes calls take turns. Calls without a heap, frees of elements
that no caller holds, heaps of no elements and the destruction of a heap with live elements do not occur. -/
def step (s : State T) : Action T → State T × Option Item
  | .create addr elemsPerBlock =>
    if s.heaps addr = none ∧ 0 < elemsPerBlock then (opBhCreate s addr elemsPerBlock, none) else (s, none)
  | .alloc t addr =>
    match s.heaps addr with
    | none => (s, none)
    | some bh => opBhAlloc s t addr bh
  | .free t addr ptr =>
    match s.heaps addr with
    | none => (s, none)
    | some bh =>
      if s.live ptr = true ∧ ptr.heap = bh.heap then (opBhFree s t addr bh ptr, none) else (s, none)
  | .destroy t addr =>
    match s.heaps addr with
    | none => (s, none)
    | some bh => if NoneLive s bh then (opBhDestroy s t addr bh, none) else (s, none)

def Destroyed (s : State T) (item : Item) : Prop := ∀ addr bh, s.heaps addr = some bh → bh.heap ≠ item.heap

def NeverStale : State T → List (Action T) → Prop
  | _, [] => True
  | s, action :: rest =>
    (∀ item, (step s action).2 = some item → ¬Destroyed (step s action).1 item) ∧ NeverStale (step s action).1 rest

def cached (s : State T) (t : T) (addr : Nat) : List Item :=
  match s.magazines t addr with
  | none => []
  | some m => m.items

def Tidy : State T → List (Action T) → Prop
  | _, [] => True
  | s, action :: rest =>
    (∀ t addr, action = .destroy t addr → ∀ u, u ≠ t → cached s u addr = []) ∧ Tidy (step s action).1 rest

def run (s : State T) (actions : List (Action T)) : State T := actions.foldl (fun s action => (step s action).1) s

structure Inv (s : State T) : Prop where
  heapGeneration : ∀ addr bh, s.heaps addr = some bh → bh.generation = 0
  magazineGeneration : ∀ t addr m, s.magazines t addr = some m → m.generation = 0
  old : ∀ addr bh, s.heaps addr = some bh → bh.heap < s.created
  distinct : ∀ addr bh other bh', s.heaps addr = some bh → s.heaps other = some bh' → bh.heap = bh'.heap → addr = other
  own : ∀ addr bh, s.heaps addr = some bh → ∀ item ∈ bh.free, item.heap = bh.heap
  clean : ∀ t addr m, s.magazines t addr = some m → ∀ item ∈ m.items, ∃ bh, s.heaps addr = some bh ∧ item.heap = bh.heap

variable {s : State T} {t u : T} {addr elems : Nat} {bh bh' : Bh} {ptr item : Item}

omit [DecidableEq T] in
lemma init_inv : Inv (State.init : State T) where
  heapGeneration _ _ bad := by cases bad
  magazineGeneration _ _ _ bad := by cases bad
  old _ _ bad := by cases bad
  distinct _ _ _ _ bad := by cases bad
  own _ _ bad := by cases bad
  clean _ _ _ bad := by cases bad

structure SameHeap (bh bh' : Bh) : Prop where
  heap : bh'.heap = bh.heap
  generation : bh'.generation = bh.generation
  own : (∀ item ∈ bh.free, item.heap = bh.heap) → ∀ item ∈ bh'.free, item.heap = bh.heap

lemma SameHeap.trans (first : SameHeap bh bh') (second : SameHeap bh' bh'') : SameHeap bh bh'' where
  heap := second.heap.trans first.heap
  generation := second.generation.trans first.generation
  own before item mem := by
    rw [← first.heap]
    apply second.own _ item mem
    rw [first.heap]
    exact first.own before

lemma opBhGrow_same (bh : Bh) : SameHeap bh (opBhGrow bh) where
  heap := rfl
  generation := rfl
  own before := List.forall_mem_append.mpr ⟨List.forall_mem_map.mpr fun _ _ => rfl, before⟩

structure Moved (bh : Bh) (items : List Item) (result : Bh × List Item) : Prop where
  same : SameHeap bh result.1
  own : (∀ item ∈ bh.free, item.heap = bh.heap) → (∀ item ∈ items, item.heap = bh.heap) →
    ∀ item ∈ result.2, item.heap = bh.heap

lemma Moved.refl (bh : Bh) (items : List Item) : Moved bh items (bh, items) where
  same := ⟨rfl, rfl, fun own => own⟩
  own _ own := own

lemma magRefillLocked_moved (want : Nat) (bh : Bh) (items : List Item) :
    Moved bh items (magRefillLocked want bh items) := by
  induction want generalizing bh items with
  | zero => exact Moved.refl bh items
  | succ want ih =>
    have grown : SameHeap bh (if bh.free = [] then opBhGrow bh else bh) := by
      split
      · exact opBhGrow_same bh
      · exact (Moved.refl bh items).same
    rw [magRefillLocked]
    generalize (if bh.free = [] then opBhGrow bh else bh) = bh' at grown
    split
    · exact ⟨grown, fun _ own => own⟩
    next first rest free =>
      have popped : SameHeap bh' { bh' with free := rest } :=
        ⟨rfl, rfl, fun own item mem => own item (by rw [free]; exact mem_cons_of_mem _ mem)⟩
      have moved := ih { bh' with free := rest } (items ++ [first])
      apply Moved.mk (grown.trans (popped.trans moved.same))
      intro freeOwn itemsOwn
      have heap := grown.heap
      have own := grown.own freeOwn
      rw [free] at own
      rw [← heap] at own itemsOwn ⊢
      apply moved.own
      · exact (forall_mem_cons.mp own).2
      · exact List.forall_mem_append.mpr ⟨itemsOwn, List.forall_mem_singleton.mpr (own first mem_cons_self)⟩

lemma magFlushLocked_moved (flushCount : Nat) (bh : Bh) (items : List Item)
    (itemsOwn : ∀ item ∈ items, item.heap = bh.heap) : Moved bh items (magFlushLocked flushCount bh items) := by
  induction flushCount generalizing bh items with
  | zero => exact Moved.refl bh items
  | succ flushCount ih =>
    rw [magFlushLocked]
    split
    · exact Moved.refl bh items
    next last found =>
      have mem := mem_of_getLast? found
      have pushed : SameHeap bh { bh with free := last :: bh.free } :=
        ⟨rfl, rfl, fun own => List.forall_mem_cons.mpr ⟨itemsOwn last mem, own⟩⟩
      have shorter : ∀ item ∈ items.dropLast, item.heap = bh.heap :=
        fun item inside => itemsOwn item (dropLast_subset items inside)
      have moved := ih { bh with free := last :: bh.free } items.dropLast shorter
      apply Moved.mk (pushed.trans moved.same)
      intro own _
      exact moved.own (pushed.own own) shorter

omit [DecidableEq T] in
lemma Inv.find (inv : Inv s) (here : s.heaps addr = some bh) :
    (magFindOrCreate (s.magazines t addr) bh).items = cached s t addr ∧
      (magFindOrCreate (s.magazines t addr) bh).generation = 0 := by
  have generation := inv.heapGeneration addr bh here
  unfold magFindOrCreate cached
  cases kept : s.magazines t addr with
  | none => exact ⟨rfl, generation⟩
  | some m =>
    have same := inv.magazineGeneration t addr m kept
    dsimp only
    rw [if_neg (by rw [same, generation]; exact fun differs => differs rfl)]
    exact ⟨rfl, same⟩

omit [DecidableEq T] in
lemma Inv.cached_own (inv : Inv s) (here : s.heaps addr = some bh) : ∀ item ∈ cached s t addr, item.heap = bh.heap := by
  intro item mem
  unfold cached at mem
  split at mem
  · cases mem
  next m kept =>
    obtain ⟨found, atAddr, own⟩ := inv.clean t addr m kept item mem
    rw [here] at atAddr
    cases atAddr
    exact own

omit [DecidableEq T] in
lemma Inv.setLive (inv : Inv s) (live : Item → Bool) : Inv { s with live := live } := { inv with }

lemma Inv.exchange (inv : Inv s) (here : s.heaps addr = some bh) (same : SameHeap bh bh') (m : Magazine)
    (generation : m.generation = 0) (own : ∀ item ∈ m.items, item.heap = bh.heap) :
    Inv ((s.setHeap addr (some bh')).setMagazine t addr (some m)) := by
  have lookup {a : Nat} {found : Bh} (atA : update s.heaps addr (some bh') a = some found) :
      ∃ before, s.heaps a = some before ∧ SameHeap before found := by
    have unmoved := (Moved.refl found []).same
    grind [Function.update_apply]
  have magazine {v : T} {a : Nat} {found : Magazine}
      (kept : update s.magazines t (update (s.magazines t) addr (some m)) v a = some found) :
      v = t ∧ a = addr ∧ found = m ∨ s.magazines v a = some found := by
    by_cases thread : v = t
    · rw [thread, update_self] at kept
      grind [Function.update_apply]
    · rw [update_of_ne thread] at kept
      exact .inr kept
  exact
    { heapGeneration := by
        intro a found atA
        obtain ⟨before, atBefore, kept⟩ := lookup atA
        exact kept.generation.trans (inv.heapGeneration a before atBefore)
      magazineGeneration := by
        intro v a found kept
        rcases magazine kept with ⟨-, -, rfl⟩ | kept
        · exact generation
        · exact inv.magazineGeneration v a found kept
      old := by
        intro a found atA
        obtain ⟨before, atBefore, kept⟩ := lookup atA
        rw [kept.heap]
        exact inv.old a before atBefore
      distinct := by
        intro a found other found' atA atOther equal
        obtain ⟨before, atBefore, kept⟩ := lookup atA
        obtain ⟨before', atBefore', kept'⟩ := lookup atOther
        rw [kept.heap, kept'.heap] at equal
        exact inv.distinct a before other before' atBefore atBefore' equal
      own := by
        intro a found atA
        obtain ⟨before, atBefore, kept⟩ := lookup atA
        rw [kept.heap]
        exact kept.own (inv.own a before atBefore)
      clean := by
        intro v a found kept item mem
        change ∃ atA, update s.heaps addr (some bh') a = some atA ∧ item.heap = atA.heap
        rcases magazine kept with ⟨-, rfl, rfl⟩ | kept
        · exact ⟨bh', update_self _ _ _, (own item mem).trans same.heap.symm⟩
        · obtain ⟨before, atBefore, own⟩ := inv.clean v a found kept item mem
          grind [Function.update_apply, same.heap] }

omit [DecidableEq T] in
lemma Inv.create (inv : Inv s) (absent : s.heaps addr = none) (elems : Nat) : Inv (opBhCreate s addr elems) := by
  have new : SameHeap (opBhAllocStruct s.created elems) (opBhGrow (opBhAllocStruct s.created elems)) :=
    opBhGrow_same _
  generalize shape : opBhGrow (opBhAllocStruct s.created elems) = bh at new
  have lookup {a : Nat} {found : Bh} (atA : (opBhCreate s addr elems).heaps a = some found) :
      a = addr ∧ found = bh ∨ a ≠ addr ∧ s.heaps a = some found := by
    change update s.heaps addr (some (opBhGrow (opBhAllocStruct s.created elems))) a = some found at atA
    grind [Function.update_apply]
  exact
    { heapGeneration := by
        intro a found atA
        rcases lookup atA with ⟨-, rfl⟩ | ⟨-, before⟩
        · exact new.generation
        · exact inv.heapGeneration a found before
      magazineGeneration := inv.magazineGeneration
      old := by
        intro a found atA
        rcases lookup atA with ⟨-, rfl⟩ | ⟨-, before⟩
        · exact Nat.lt_succ_of_le (Nat.le_of_eq new.heap)
        · exact Nat.lt_succ_of_lt (inv.old a found before)
      distinct := by
        intro a found other found' atA atOther equal
        rcases lookup atA with ⟨rfl, rfl⟩ | ⟨apart, before⟩
        · rcases lookup atOther with ⟨rfl, -⟩ | ⟨-, before'⟩
          · rfl
          · exact absurd (equal.symm.trans new.heap) (Nat.ne_of_lt (inv.old other found' before'))
        · rcases lookup atOther with ⟨rfl, rfl⟩ | ⟨-, before'⟩
          · exact absurd (equal.trans new.heap) (Nat.ne_of_lt (inv.old a found before))
          · exact inv.distinct a found other found' before before' equal
      own := by
        intro a found atA
        rcases lookup atA with ⟨-, rfl⟩ | ⟨-, before⟩
        · rw [new.heap]
          exact new.own fun item bad => absurd bad not_mem_nil
        · exact inv.own a found before
      clean := by
        intro v a m kept item mem
        obtain ⟨before, atBefore, own⟩ := inv.clean v a m kept item mem
        have apart : a ≠ addr := by
          intro self
          rw [self, absent] at atBefore
          cases atBefore
        exact ⟨before, (update_of_ne apart _ _).trans atBefore, own⟩ }

lemma opBhDestroy_heaps (s : State T) (t : T) (addr : Nat) (bh : Bh) :
    (opBhDestroy s t addr bh).heaps = update s.heaps addr none := by
  exact Function.update_idem _ _ _

lemma opBhDestroy_magazines (s : State T) (t : T) (addr : Nat) (bh : Bh) : (opBhDestroy s t addr bh).magazines =
      update s.magazines t (update (s.magazines t) addr none) := rfl

variable {actions : List (Action T)}

section

variable (inv : Inv s)

include inv

lemma Inv.destroy (alone : ∀ u, u ≠ t → cached s u addr = []) : Inv (opBhDestroy s t addr bh) := by
  have lookup {a : Nat} {found : Bh} (atA : (opBhDestroy s t addr bh).heaps a = some found) :
      a ≠ addr ∧ s.heaps a = some found := by
    rw [opBhDestroy_heaps] at atA
    grind [Function.update_apply]
  have magazine {v : T} {a : Nat} {m : Magazine} (kept : (opBhDestroy s t addr bh).magazines v a = some m) :
      s.magazines v a = some m ∧ (v = t → a ≠ addr) := by
    rw [opBhDestroy_magazines] at kept
    by_cases thread : v = t
    · rw [thread, update_self] at kept
      grind [Function.update_apply]
    · rw [update_of_ne thread] at kept
      exact ⟨kept, fun same => absurd same thread⟩
  exact
    { heapGeneration := fun a found atA => inv.heapGeneration a found (lookup atA).2
      magazineGeneration := fun v a m kept => inv.magazineGeneration v a m (magazine kept).1
      old := fun a found atA => inv.old a found (lookup atA).2
      distinct := fun a found other found' atA atOther =>
        inv.distinct a found other found' (lookup atA).2 (lookup atOther).2
      own := fun a found atA => inv.own a found (lookup atA).2
      clean := by
        intro v a m kept item mem
        obtain ⟨before, mine⟩ := magazine kept
        have apart : a ≠ addr := by
          intro self
          have other : v ≠ t := fun same => mine same self
          have empty := alone v other
          rw [cached, ← self, before] at empty
          change m.items = [] at empty
          rw [empty] at mem
          cases mem
        obtain ⟨found, atA, own⟩ := inv.clean v a m before item mem
        rw [opBhDestroy_heaps, update_of_ne apart]
        exact ⟨found, atA, own⟩ }

lemma Inv.alloc (here : s.heaps addr = some bh) (t : T) : Inv (opBhAlloc s t addr bh).1 ∧
      ∀ item, (opBhAlloc s t addr bh).2 = some item → ¬Destroyed (opBhAlloc s t addr bh).1 item := by
  obtain ⟨items, generation⟩ := inv.find (t := t) here
  have itemsOwn := inv.cached_own (t := t) here
  unfold opBhAlloc
  dsimp only
  rw [items]
  have moved : Moved bh (cached s t addr) (if cached s t addr = [] then
      magRefillLocked (magazineSize / 2) bh (cached s t addr) else (bh, cached s t addr)) := by
    split
    · exact magRefillLocked_moved _ _ _
    · exact Moved.refl _ _
  generalize (if cached s t addr = [] then
      magRefillLocked (magazineSize / 2) bh (cached s t addr) else (bh, cached s t addr)) = filled at moved
  have own := moved.own (inv.own addr bh here) itemsOwn
  have shorter : ∀ item ∈ filled.2.dropLast, item.heap = bh.heap :=
    fun item mem => own item (dropLast_subset _ mem)
  have kept := inv.exchange (t := t) here moved.same ⟨filled.2.dropLast, _⟩ generation shorter
  split
  · apply And.intro kept
    intro item bad
    cases bad
  next last found =>
    apply And.intro (kept.setLive _)
    intro item returned destroyed
    cases returned
    apply destroyed addr filled.1 (update_self _ _ _)
    rw [moved.same.heap, own last (mem_of_getLast? found)]

lemma Inv.free (here : s.heaps addr = some bh) (t : T) (own : ptr.heap = bh.heap) : Inv (opBhFree s t addr bh ptr) := by
  obtain ⟨items, generation⟩ := inv.find (t := t) here
  have itemsOwn := inv.cached_own (t := t) here
  unfold opBhFree
  dsimp only
  rw [items]
  have moved : Moved bh (cached s t addr) (if (cached s t addr).length ≥ magazineSize then
      magFlushLocked (magazineSize / 2) bh (cached s t addr) else (bh, cached s t addr)) := by
    split
    · exact magFlushLocked_moved _ _ _ itemsOwn
    · exact Moved.refl _ _
  generalize (if (cached s t addr).length ≥ magazineSize then
      magFlushLocked (magazineSize / 2) bh (cached s t addr) else (bh, cached s t addr)) = flushed at moved
  have longer : ∀ item ∈ flushed.2 ++ [ptr], item.heap = bh.heap := by
    exact List.forall_mem_append.mpr ⟨moved.own (inv.own addr bh here) itemsOwn, List.forall_mem_singleton.mpr own⟩
  exact (inv.exchange here moved.same ⟨flushed.2 ++ [ptr], _⟩ generation longer).setLive _

lemma Inv.step (action : Action T) (tidy : ∀ t addr, action = .destroy t addr → ∀ u, u ≠ t → cached s u addr = []) :
    Inv (step s action).1 ∧ ∀ item, (step s action).2 = some item → ¬Destroyed (step s action).1 item := by
  have quiet {s' : State T} (kept : Inv s') : Inv (s', (none : Option Item)).1 ∧
      ∀ item, (s', (none : Option Item)).2 = some item → ¬Destroyed (s', (none : Option Item)).1 item :=
    ⟨kept, fun item bad => by cases bad⟩
  cases action with
  | create addr elems =>
    rw [Reuse.step]
    split
    next allowed => exact quiet (inv.create allowed.1 elems)
    · exact quiet inv
  | alloc t addr =>
    rw [Reuse.step]
    split
    · exact quiet inv
    next bh here => exact inv.alloc here t
  | free t addr ptr =>
    rw [Reuse.step]
    split
    · exact quiet inv
    next bh here =>
      split
      next allowed => exact quiet (inv.free here t allowed.2)
      · exact quiet inv
  | destroy t addr =>
    rw [Reuse.step]
    split
    · exact quiet inv
    · split
      · exact quiet (inv.destroy (tidy t addr rfl))
      · exact quiet inv

lemma Inv.neverStale (tidy : Tidy s actions) : NeverStale s actions := by
  induction actions generalizing s with
  | nil => exact trivial
  | cons action rest ih =>
    obtain ⟨kept, fresh⟩ := inv.step action tidy.1
    exact ⟨fresh, ih kept tidy.2⟩

lemma Inv.run (tidy : Tidy s actions) : Inv (run s actions) := by
  induction actions generalizing s with
  | nil => exact inv
  | cons action rest ih => exact ih (inv.step action tidy.1).1 tidy.2

lemma Inv.stale (here : s.heaps addr = some bh) (other : u ≠ t) (kept : cached s u addr ≠ []) :
    ¬NeverStale (opBhDestroy s t addr bh) [.create addr 1, .alloc u addr] := by
  intro fresh
  let destroyed := opBhDestroy s t addr bh
  have gone : destroyed.heaps addr = none := by rw [opBhDestroy_heaps, update_self]
  have created : (Reuse.step destroyed (.create addr 1)).1 = opBhCreate destroyed addr 1 := by
    rw [Reuse.step, if_pos ⟨gone, Nat.one_pos⟩]
  let new := opBhGrow (opBhAllocStruct s.created 1)
  have there : (opBhCreate destroyed addr 1).heaps addr = some new := update_self _ _ _
  obtain ⟨m, magazine, items⟩ : ∃ m, s.magazines u addr = some m ∧ m.items ≠ [] := by
    unfold cached at kept
    split at kept
    · exact absurd rfl kept
    next m magazine => exact ⟨m, magazine, kept⟩
  have found : (opBhCreate destroyed addr 1).magazines u addr = some m := by
    change (opBhDestroy s t addr bh).magazines u addr = some m
    rw [opBhDestroy_magazines, update_of_ne other]
    exact magazine
  have current : magFindOrCreate ((opBhCreate destroyed addr 1).magazines u addr) new = m := by
    have same := inv.magazineGeneration u addr m magazine
    rw [found, magFindOrCreate]
    exact if_neg fun differs => differs same
  have last := getLast?_eq_some_getLast items
  have old : (m.items.getLast items).heap = bh.heap := by
    obtain ⟨before, atBefore, own⟩ := inv.clean u addr m magazine _ (getLast_mem items)
    rw [here] at atBefore
    cases atBefore
    exact own
  have next := fresh.2.1
  rw [created, Reuse.step, there] at next
  dsimp only at next
  rw [opBhAlloc, current] at next
  rw [if_neg items, last] at next
  apply next _ rfl
  intro a found atA
  rw [old]
  change update (opBhCreate destroyed addr 1).heaps addr (some new) a = some found at atA
  by_cases self : a = addr
  · rw [self, update_self] at atA
    cases atA
    exact (Nat.ne_of_lt (inv.old addr bh here)).symm
  · rw [update_of_ne self] at atA
    change update destroyed.heaps addr _ a = some found at atA
    rw [update_of_ne self] at atA
    rw [opBhDestroy_heaps, update_of_ne self] at atA
    exact fun equal => self (inv.distinct a found addr bh atA here equal)

end

theorem stale_magazines_iff (T : Type) [DecidableEq T] :
    (∀ actions : List (Action T), Tidy State.init actions → NeverStale State.init actions) ∧
      ∀ (before : List (Action T)) (t : T) (addr : Nat) (bh : Bh), Tidy State.init before →
        (run State.init before).heaps addr = some bh → NoneLive (run State.init before) bh →
          ((∀ after, Tidy (step (run State.init before) (.destroy t addr)).1 after →
            NeverStale (step (run State.init before) (.destroy t addr)).1 after) ↔
              ∀ u, u ≠ t → cached (run State.init before) u addr = []) := by
  apply And.intro (fun actions tidy => init_inv.neverStale tidy)
  intro before t addr bh tidy here none
  have inv := init_inv.run tidy
  have destroy : (step (run State.init before) (.destroy t addr)).1 = opBhDestroy (run State.init before) t addr bh := by
    rw [step, here]
    dsimp only
    rw [if_pos none]
  rw [destroy]
  constructor
  · intro safe u other
    by_contra kept
    apply inv.stale here other kept
    apply safe
    refine ⟨?_, ?_, trivial⟩
    · intro v a bad
      cases bad
    · intro v a bad
      cases bad
  · intro alone after tidyAfter
    exact (inv.destroy alone).neverStale tidyAfter

theorem stale_magazines_own :
    let before : List (Action Bool) := [.create 0 16, .alloc false 0, .free false 0 ⟨0, 15⟩]
    let s := run State.init before
    cached s false 0 ≠ [] ∧ ∀ after, Tidy (step s (.destroy false 0)).1 after →
      NeverStale (step s (.destroy false 0)).1 after := by
  intro before s
  refine ⟨by decide, ((stale_magazines_iff Bool).2 before false 0 _ ?_ rfl (by decide)).mpr ?_⟩
  · refine ⟨?_, ?_, ?_, trivial⟩ <;> (intro _ _ bad; cases bad)
  · intro u other
    cases u with
    | false => exact absurd rfl other
    | true => rfl

/-- The second thread allocates and frees, the first destroys the heap and creates another in its place. -/
theorem reused_address_returns_stale :
    let before : List (Action Bool) := [.create 0 16, .alloc true 0, .free true 0 ⟨0, 15⟩]
    let s := run State.init (before ++ [.destroy false 0, .create 0 16])
    (∃ bh, (run State.init before).heaps 0 = some bh ∧ NoneLive (run State.init before) bh) ∧
      (step s (.alloc true 0)).2 = some ⟨0, 15⟩ ∧ (s.heaps 0).map Bh.heap = some 1 ∧
      Destroyed (step s (.alloc true 0)).1 ⟨0, 15⟩ := by
  intro before s
  refine ⟨⟨_, rfl, by decide⟩, by decide, by decide, ?_⟩
  intro addr bh here
  cases addr with
  | zero =>
    have heap : (((step s (.alloc true 0)).1.heaps 0).map Bh.heap) = some 1 := by decide
    rw [here, Option.map_some, Option.some_inj] at heap
    rw [heap]
    exact Nat.one_ne_zero
  | succ addr =>
    cases here

end LibOp.Balloc.Reuse

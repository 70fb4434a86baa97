import LibOp.Lru.Reference

namespace LibOp.Lru

open Foundation HashTable List Option Layout

variable {K V : Type} {hashFn : K → UInt64} {eqFn : K → K → Bool} {laws : KeyLaws hashFn eqFn} {capacity : Nat}
  {evictCb : Bool} {lru : OpLru K V} {t : Layout K V} {op : LruOp K V}

section

variable [Inhabited K] [Inhabited V] [DecidableEq V]

/-- The cache and the key pointers that its owner has passed to `op_lru_set`. -/
structure Owner (K V : Type) where
  cache : Option (OpLru K V)
  given : List K

def setKey : LruOp K V → Option K
  | .set key _ => some key
  | _ => none

def newOwner (str : K → List UInt8) (capacity : Nat) (evictCb : Bool) : Owner K V :=
  { cache := lruCreate str capacity evictCb, given := [] }

def ownerStep (s : Owner K V) (op : LruOp K V) : Owner K V :=
  { cache := s.cache.bind fun lru => (lruStep lru op).map Prod.fst, given := (setKey op).toList ++ s.given }

def holdsKey (lru : OpLru K V) (key : K) : Bool := (lru.ht.bind fun ht => htabGet ht key).join.isSome

def setsHeldKey (s : Owner K V) (op : LruOp K V) : Bool :=
  (s.cache.bind fun lru => (setKey op).map (holdsKey lru)).getD false

def occupied (lru : OpLru K V) : List (HtabSlot K (Option Nat)) :=
  (lru.ht.map fun ht => ((List.range (ht.mask + 1)).map ht.slots).filter fun slot => slot.hash ≠ 0).getD []

def KeysReleased (s : Owner K V) : Prop :=
  ∀ lru, s.cache = some lru → ∀ slot ∈ occupied lru,
    (∀ e ∈ lru.handed, e.key ≠ slot.key) ∧ slot.val.map (fun a => (lru.entry a).key) = some slot.key

end

section

namespace Layout

def Released (evictCb : Bool) (t : Layout K V) : Prop :=
  ∀ h ∈ t.entries, (∀ e ∈ if evictCb then t.dropped else [], e.key ≠ h.slotKey) ∧ h.key = h.slotKey

structure Known (t : Layout K V) (given : List K) : Prop where
  keys : ∀ h ∈ t.entries, h.key ∈ given
  slotKeys : ∀ h ∈ t.entries, h.slotKey ∈ given
  dropped : ∀ e ∈ t.dropped, e.key ∈ given

def Apart (t : Layout K V) : Prop :=
  t.entries.Nodup ∧ ∀ h ∈ t.entries, ∀ other ∈ t.entries, h.slotKey = other.slotKey → h = other

variable {given : List K} {key : K}

lemma mem_others : h ∈ t.others eqFn key ↔ h ∈ t.entries ∧ eqFn h.key key = false := by
  rw [others, mem_filter, Bool.not_eq_true']

def Shrinks (t rest : Layout K V) : Prop :=
  ∃ gone : List (Held K V), (∀ h ∈ rest.entries, h ∈ t.entries) ∧ (∀ h ∈ gone, h ∈ t.entries ∧ h ∉ rest.entries) ∧
    rest.dropped = t.dropped ++ gone.map Held.toLruEntry

variable {rest : Layout K V}

lemma shrinks_of_subset (kept : ∀ h ∈ rest.entries, h ∈ t.entries) (same : rest.dropped = t.dropped) : t.Shrinks rest :=
  ⟨[], kept, forall_mem_nil _, by rw [same, map_nil, append_nil]⟩

lemma makeRoom_shrinks (apart : t.Apart) (capacity : Nat) : t.Shrinks (t.makeRoom capacity) := by
  rw [makeRoom]
  split
  · exact shrinks_of_subset (fun h => id) rfl
  · rcases eq_nil_or_concat t.entries with empty | ⟨front, h, split⟩
    · rw [evictLast_of_nil empty]
      exact shrinks_of_subset (fun h => id) rfl
    · rw [concat_eq_append] at split
      rw [evictLast_append split]
      have nodup := apart.1
      rw [split, nodup_append] at nodup
      apply Exists.intro [h]
      rw [forall_mem_singleton, split]
      refine ⟨fun other => mem_append_left [h], ⟨mem_append_right front (mem_singleton_self h), ?_⟩, rfl⟩
      intro early
      exact nodup.2.2 h early h (mem_singleton_self h) rfl

lemma Shrinks.released (shrinks : t.Shrinks rest) (apart : t.Apart)
    (released : t.Released evictCb) : rest.Released evictCb := by
  obtain ⟨gone, kept, left, dropped⟩ := shrinks
  intro h mem
  obtain ⟨before, same⟩ := released h (kept h mem)
  refine ⟨?_, same⟩
  cases evictCb with
  | false => exact forall_mem_nil _
  | true =>
    rw [if_pos rfl, dropped]
    apply List.forall_mem_append.mpr ⟨before, _⟩
    intro e inside equal
    obtain ⟨other, leaves, rfl⟩ := List.mem_map.mp inside
    obtain ⟨listed, outside⟩ := left other leaves
    rw [(released other listed).2] at equal
    rw [apart.2 other listed h (kept h mem) equal] at outside
    exact outside mem

lemma Shrinks.known (shrinks : t.Shrinks rest) (known : t.Known given) : rest.Known given := by
  obtain ⟨gone, kept, left, dropped⟩ := shrinks
  constructor
  · exact fun h mem => known.keys h (kept h mem)
  · exact fun h mem => known.slotKeys h (kept h mem)
  · rw [dropped]
    apply List.forall_mem_append.mpr ⟨known.dropped, _⟩
    intro e inside
    obtain ⟨h, leaves, rfl⟩ := List.mem_map.mp inside
    exact known.keys h (left h leaves).1

lemma known_empty : (empty : Layout K V).Known [] :=
  ⟨forall_mem_nil _, forall_mem_nil _, forall_mem_nil _⟩

lemma Known.insert (known : t.Known given) (key : K) (val : V) : (t.insert key val).Known (key :: given) where
  keys := List.forall_mem_cons.mpr ⟨mem_cons_self, fun h mem => mem_cons_of_mem key (known.keys h mem)⟩
  slotKeys :=
    List.forall_mem_cons.mpr ⟨mem_cons_self, fun h mem => mem_cons_of_mem key (known.slotKeys h mem)⟩
  dropped e mem := mem_cons_of_mem key (known.dropped e mem)

lemma Released.insert (released : t.Released evictCb) (known : t.Known given) (fresh : key ∉ given) (val : V) :
    (t.insert key val).Released evictCb := by
  refine List.forall_mem_cons.mpr ⟨⟨?_, rfl⟩, released⟩
  cases evictCb with
  | false => exact forall_mem_nil _
  | true =>
    intro e mem equal
    have old := known.dropped e mem
    rw [equal] at old
    exact fresh old

variable [DecidableEq V]

lemma Known.update (known : t.Known given) (mem : h ∈ t.entries) (key : K) (val : V) :
    (t.update eqFn h key val).Known (key :: given) where
  keys := by
    refine List.forall_mem_cons.mpr ⟨mem_cons_self, fun other inside => ?_⟩
    exact mem_cons_of_mem key (known.keys other (mem_others.mp inside).1)
  slotKeys := by
    refine List.forall_mem_cons.mpr ⟨mem_cons_of_mem key (known.slotKeys h mem), fun other inside => ?_⟩
    exact mem_cons_of_mem key (known.slotKeys other (mem_others.mp inside).1)
  dropped := by
    intro e inside
    apply mem_cons_of_mem key
    rw [Layout.update] at inside
    split at inside
    · exact known.dropped e inside
    · rcases List.mem_append.mp inside with old | new
      · exact known.dropped e old
      · rw [List.mem_singleton.mp new]
        exact known.keys h mem

variable [Inhabited V]

lemma step_shrinks (plain : setKey op = none) : t.Shrinks (t.step eqFn capacity op).1 := by
  cases op with
  | set key val => cases plain
  | get key =>
    rw [step]
    cases found : t.find eqFn key with
    | none => exact shrinks_of_subset (fun h => id) rfl
    | some h =>
      refine shrinks_of_subset (List.forall_mem_cons.mpr ⟨mem_of_find found, ?_⟩) rfl
      exact fun h mem => (mem_others.mp mem).1
  | delete key =>
    rw [step]
    cases found : t.find eqFn key with
    | none => exact shrinks_of_subset (fun h => id) rfl
    | some h =>
      refine ⟨[h], fun h mem => (mem_others.mp mem).1, List.forall_mem_singleton.mpr ⟨mem_of_find found, ?_⟩, rfl⟩
      intro inside
      have different := (mem_others.mp inside).2
      rw [key_of_find found] at different
      cases different
  | flush =>
    refine ⟨t.entries.reverse, forall_mem_nil _, ?_, by rw [map_reverse]; rfl⟩
    intro h mem
    exact ⟨List.mem_reverse.mp mem, not_mem_nil⟩

lemma Known.step (known : t.Known given) (apart : t.Apart) (op : LruOp K V) :
    (t.step eqFn capacity op).1.Known ((setKey op).toList ++ given) := by
  cases set : setKey op with
  | none => exact (step_shrinks set).known known
  | some key =>
    cases op with
    | set key val =>
      cases set
      rw [Layout.step]
      cases found : t.find eqFn key with
      | none => exact ((makeRoom_shrinks apart capacity).known known).insert key val
      | some h => exact known.update (mem_of_find found) key val
    | _ => cases set

lemma released_step_iff (released : t.Released evictCb) (apart : t.Apart) (known : t.Known given)
    (fresh : ∀ key, setKey op = some key → key ∉ given) :
    (t.step eqFn capacity op).1.Released evictCb ↔ ∀ key, setKey op = some key → t.find eqFn key = none := by
  cases set : setKey op with
  | none =>
    apply iff_of_true ((step_shrinks set).released apart released)
    intro key bad
    cases bad
  | some key =>
    have new := fresh key set
    simp only [some.injEq, forall_eq']
    cases op with
    | set key val =>
      cases set
      rw [step]
      cases found : t.find eqFn key with
      | none =>
        have room := makeRoom_shrinks apart capacity
        exact iff_of_true ((room.released apart released).insert (room.known known) new val) rfl
      | some h =>
        apply iff_of_false _ (some_ne_none h)
        intro after
        have same : key = h.slotKey := (List.forall_mem_cons.mp after).1.2
        have old := known.slotKeys h (mem_of_find found)
        rw [← same] at old
        exact new old
    | _ => cases set

end Layout

end

section

variable {ht : Htab K (Option Nat)} {m : KeyMap laws (Option Nat)} {slot : HtabSlot K (Option Nat)}

lemma mem_occupied (table : lru.ht = some ht) :
    slot ∈ occupied lru ↔ ∃ i < ht.mask + 1, ht.slots i = slot ∧ (ht.slots i).hash ≠ 0 := by
  simp only [occupied, table, map_some, getD_some, mem_filter, List.mem_map, mem_range, decide_eq_true_eq]
  constructor
  · intro found
    obtain ⟨⟨i, position, rfl⟩, live⟩ := found
    exact ⟨i, position, rfl, live⟩
  · intro found
    obtain ⟨i, position, rfl, live⟩ := found
    exact ⟨⟨i, position, rfl⟩, live⟩

namespace Tracks

variable (tracks : Tracks laws capacity evictCb lru ht m t)

include tracks

lemma slot_of_mem (mem : h ∈ t.entries) : ∃ slot ∈ occupied lru, slot.key = h.slotKey ∧ slot.val = some h.addr ∧
      keyClass laws slot.key = keyClass laws h.key := by
  have stored := tracks.lookup_of_mem mem (laws.refl h.key)
  rcases tracks.represents.find h.key with ⟨i, position, live, same, -⟩ | ⟨-, absent⟩
  · rw [tracks.represents.lookup_found position live same] at stored
    obtain ⟨key, val⟩ := Prod.mk.inj (some.inj stored)
    exact ⟨ht.slots i, (mem_occupied tracks.table).mpr ⟨i, position, rfl, live⟩, key, val, same⟩
  · rw [absent] at stored
    cases stored

lemma mem_of_slot (stored : slot ∈ occupied lru) : ∃ h ∈ t.entries, h.slotKey = slot.key ∧ some h.addr = slot.val := by
  obtain ⟨i, position, rfl, live⟩ := (mem_occupied tracks.table).mp stored
  obtain ⟨h, mem, -, slotKey, addr⟩ := (tracks.stores _ _ _).mp (tracks.represents.lookup_found position live rfl)
  exact ⟨h, mem, slotKey, addr⟩

lemma apart_slots : t.Apart := by
  refine ⟨List.Nodup.of_map Held.addr tracks.linked.nodup, ?_⟩
  intro h mem other also same
  obtain ⟨slot, -, slotKey, -, slotClass⟩ := tracks.slot_of_mem mem
  obtain ⟨otherSlot, -, otherKey, -, otherClass⟩ := tracks.slot_of_mem also
  rw [otherKey, ← same, ← slotKey, slotClass] at otherClass
  exact tracks.unique also (laws.refl other.key) mem (keyClass_eq.mp otherClass)

lemma released_iff : (∀ slot ∈ occupied lru, (∀ e ∈ lru.handed, e.key ≠ slot.key) ∧
      slot.val.map (fun a => (lru.entry a).key) = some slot.key) ↔ t.Released evictCb := by
  rw [tracks.handed_eq]
  constructor
  · intro slots h mem
    obtain ⟨slot, stored, slotKey, addr, -⟩ := tracks.slot_of_mem mem
    have both := slots slot stored
    rw [slotKey, addr, map_some, tracks.content h mem, some.injEq] at both
    exact both
  · intro released slot stored
    obtain ⟨h, mem, slotKey, addr⟩ := tracks.mem_of_slot stored
    have both := released h mem
    rw [← slotKey, ← addr, map_some, tracks.content h mem, some.injEq]
    exact both

lemma holdsKey_eq (key : K) : holdsKey lru key = (t.find eqFn key).isSome := by
  rw [holdsKey, tracks.table, bind_some, tracks.get]
  cases t.find eqFn key <;> rfl

end Tracks

end

section

variable [Inhabited K] [Inhabited V] [DecidableEq V] {s : Owner K V}

def FreshKey (s : Owner K V) (op : LruOp K V) : Prop := ∀ key, setKey op = some key → key ∉ s.given

lemma permitted_freshKey (distinct : (ops.filterMap setKey).Nodup)
    (unseen : ∀ key ∈ ops.filterMap setKey, key ∉ s.given) : Permitted FreshKey ownerStep s ops := by
  induction ops generalizing s with
  | nil => exact trivial
  | cons op rest ih =>
    cases set : setKey op with
    | none =>
      rw [filterMap_cons_none set] at distinct unseen
      refine ⟨fun key same => ?_, ih distinct ?_⟩
      · rw [set] at same
        cases same
      · rw [ownerStep, set]
        exact unseen
    | some first =>
      rw [filterMap_cons_some set] at distinct unseen
      obtain ⟨here, later⟩ := List.forall_mem_cons.mp unseen
      obtain ⟨once, distinctRest⟩ := List.nodup_cons.mp distinct
      refine ⟨fun key same => ?_, ih distinctRest ?_⟩
      · rw [set] at same
        cases same
        exact here
      · intro key mem
        rw [ownerStep, set, toList_some, singleton_append, mem_cons, not_or]
        refine ⟨?_, later key mem⟩
        rintro rfl
        exact once mem

def Slotless (lru : OpLru K V) : Prop := lru.ht = none ∧ lru.list.tail = none

omit [Inhabited K] [Inhabited V] [DecidableEq V] in
lemma Slotless.occupied (slotless : Slotless lru) : occupied lru = [] := by
  rw [LibOp.Lru.occupied, slotless.1]
  rfl

lemma Slotless.step (slotless : Slotless lru) (op : LruOp K V) {next : OpLru K V}
    (stepped : (lruStep lru op).map Prod.fst = some next) : next = lru := by
  obtain ⟨table, tail⟩ := slotless
  cases op with
  | set key val => simp [lruStep, lruSet, table] at stepped
  | get key => simp [lruStep, lruGet, table] at stepped
  | delete key => simp [lruStep, lruDelete, table] at stepped
  | flush =>
    simp [lruStep, lruFlush, flushLoop, tail] at stepped
    exact stepped.symm

def OwnerInv (laws : KeyLaws hashFn eqFn) (capacity : Nat) (evictCb : Bool) (s : Owner K V) : Prop :=
  ∀ lru, s.cache = some lru → Slotless lru ∨ ∃ t, Refines laws capacity evictCb lru t ∧ t.Known s.given

omit [Inhabited K] [Inhabited V] [DecidableEq V] in
lemma setsHeldKey_of_none (stopped : s.cache = none) : setsHeldKey s op = false := by
  rw [setsHeldKey, stopped]
  rfl

lemma OwnerInv.step (inv : OwnerInv laws capacity evictCb s) (small : capacity < 2 ^ 61) (pos : 0 < capacity) :
    OwnerInv laws capacity evictCb (ownerStep s op) := by
  intro next stepped
  obtain ⟨lru, running, stepped⟩ := bind_eq_some_iff.mp stepped
  rcases inv lru running with slotless | ⟨t, refines, known⟩
  · rw [slotless.step op stepped]
    exact .inl slotless
  · obtain ⟨lru', result, refines'⟩ := refines.step small pos op
    rw [result] at stepped
    cases stepped
    obtain ⟨ht, m, tracks⟩ := refines
    exact .inr ⟨_, refines', known.step tracks.apart_slots op⟩

omit [Inhabited K] [Inhabited V] [DecidableEq V] in
lemma setsHeldKey_eq_false (running : s.cache = some lru) (refines : Refines laws capacity evictCb lru t) :
    setsHeldKey s op = false ↔ ∀ key, setKey op = some key → t.find eqFn key = none := by
  obtain ⟨ht, m, tracks⟩ := refines
  rw [setsHeldKey, running, bind_some]
  cases setKey op with
  | none => simp
  | some key => simp [tracks.holdsKey_eq]

lemma OwnerInv.released_step (inv : OwnerInv laws capacity evictCb s) (small : capacity < 2 ^ 61)
    (pos : 0 < capacity) (fresh : FreshKey s op) (released : KeysReleased s) :
    KeysReleased (ownerStep s op) ↔ setsHeldKey s op = false := by
  cases running : s.cache with
  | none =>
    refine iff_of_true ?_ (setsHeldKey_of_none running)
    intro next stepped
    rw [ownerStep, running] at stepped
    cases stepped
  | some lru =>
    rcases inv lru running with slotless | ⟨t, refines, known⟩
    · refine iff_of_true ?_ ?_
      · intro next stepped
        rw [ownerStep, running] at stepped
        rw [slotless.step op stepped, slotless.occupied]
        exact forall_mem_nil _
      · rw [setsHeldKey, running, bind_some]
        cases setKey op <;> simp [holdsKey, slotless.1]
    · rw [setsHeldKey_eq_false running refines]
      obtain ⟨lru', result, ht', m', tracks'⟩ := refines.step small pos op
      obtain ⟨ht, m, tracks⟩ := refines
      rw [← released_step_iff (tracks.released_iff.mp (released lru running)) tracks.apart_slots known fresh,
        ← tracks'.released_iff]
      have next : (ownerStep s op).cache = some lru' := by
        rw [ownerStep, running, bind_some, result]
        rfl
      constructor
      · intro every
        exact every lru' next
      · intro here other same
        rw [next] at same
        cases same
        exact here

omit [DecidableEq V] in
lemma create_cases (str : K → List UInt8) (capacity : Nat) (evictCb : Bool) (fits : capacity < 2 ^ 64) :
    ∃ bound, bound < 2 ^ 61 ∧ 0 < bound ∧ ∀ lru : OpLru K V, lruCreate str capacity evictCb = some lru →
      Slotless lru ∨ Refines (str_laws str) bound evictCb lru empty := by
  by_cases large : 2 ^ 63 < capacity
  · refine ⟨1, by decide, by decide, fun lru created => ?_⟩
    rw [create_wraps str evictCb large fits] at created
    cases created
    exact .inl ⟨rfl, rfl⟩
  · by_cases small : capacity < 2 ^ 61
    · refine ⟨if capacity > 0 then capacity else 1, by split <;> omega, by split <;> omega, fun lru created => ?_⟩
      exact .inr (create_refines (Nat.le_of_not_lt large) created).2
    · refine ⟨1, by decide, by decide, fun lru created => ?_⟩
      exact absurd (create_refines (Nat.le_of_not_lt large) created).1 small

omit [Inhabited K] [Inhabited V] [DecidableEq V] in
lemma Refines.occupied_empty (refines : Refines laws capacity evictCb lru empty) : occupied lru = [] := by
  obtain ⟨ht, m, tracks⟩ := refines
  apply List.eq_nil_iff_forall_not_mem.mpr
  intro slot stored
  obtain ⟨h, mem, -⟩ := tracks.mem_of_slot stored
  cases mem

/-- With fresh pointers, each hash slot keeps a key pointer of its entry that was not handed back exactly if no key is
set while it is held. -/
theorem handed_back_keys_released_iff (str : K → List UInt8) (capacity : Nat) (evictCb : Bool)
    (fits : capacity < 2 ^ 64) (ops : List (LruOp K V)) (fresh : (ops.filterMap setKey).Nodup) :
    (∀ before, before <+: ops → KeysReleased (before.foldl ownerStep (newOwner str capacity evictCb))) ↔
      Permitted (fun s op => setsHeldKey s op = false) ownerStep (newOwner str capacity evictCb) ops := by
  obtain ⟨bound, small, pos, created⟩ := create_cases (V := V) str capacity evictCb fits
  have initial : OwnerInv (str_laws str) bound evictCb (newOwner str capacity evictCb : Owner K V) := by
    intro lru same
    exact (created lru same).imp_right fun refines => ⟨empty, refines, known_empty⟩
  have start : KeysReleased (newOwner str capacity evictCb : Owner K V) := by
    intro lru same
    have empty : occupied lru = [] := (created lru same).elim Slotless.occupied Refines.occupied_empty
    rw [empty]
    exact forall_mem_nil _
  have legal : Permitted FreshKey ownerStep (newOwner str capacity evictCb) ops :=
    permitted_freshKey fresh fun key _ => not_mem_nil
  apply legal.throughout_iff _ _ initial start
  · intro s op inv _ _
    exact inv.step small pos
  · intro s op inv new released
    exact inv.released_step small pos new released

end

def renewalOps : List (LruOp Nat Nat) := [.set 0 7, .set 2 8, .get 1, .set 4 9, .delete 3, .set 3 6, .flush, .set 1 5]

theorem handed_back_keys_released_iff_two :
    (renewalOps.filterMap setKey).Nodup ∧ KeysReleased (renewalOps.foldl ownerStep (newOwner letterAt 2 true)) := by
  have fresh : (renewalOps.filterMap setKey).Nodup := by decide
  have released := (handed_back_keys_released_iff letterAt 2 true (by decide) renewalOps fresh).mpr (by decide)
  exact ⟨fresh, released renewalOps (prefix_refl renewalOps)⟩

/-- The pointers 0 and 1 name one key. The second set hands 0 back and keeps it in the slot. -/
theorem set_again_keeps_handed_key : ([.set 0 7, .set 1 8].filterMap (setKey : LruOp Nat Nat → Option Nat)).Nodup ∧
      ([.set 0 7, .set 1 8].foldl ownerStep (newOwner letterAt 2 true : Owner Nat Nat)).cache.map
        (fun lru => (lru.handed, (occupied lru).map fun slot => slot.key)) = some ([⟨0, 7⟩], [0]) := by
  decide

end LibOp.Lru

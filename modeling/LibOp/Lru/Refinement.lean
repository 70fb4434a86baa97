import LibOp.HashTable.Refinement
import LibOp.Lru.Recency

namespace LibOp.Lru

open Foundation HashTable List Function Finmap Layout

variable {K V : Type} {hashFn : K → UInt64} {eqFn : K → K → Bool} {laws : KeyLaws hashFn eqFn}
  {capacity : Nat} {evictCb : Bool}

/-- The hash index, the list and the counter hold the entries of the layout. -/
structure Tracks (laws : KeyLaws hashFn eqFn) (capacity : Nat) (evictCb : Bool) (lru : OpLru K V)
    (ht : Htab K (Option Nat)) (m : KeyMap laws (Option Nat)) (t : Layout K V) : Prop where
  table : lru.ht = some ht
  represents : Represents laws ht m
  linked : lru.list.Linked (t.entries.map Held.addr)
  unused_eq : lru.unused = t.unused
  old : ∀ h ∈ t.entries, h.addr < t.unused
  content : ∀ h ∈ t.entries, lru.entry h.addr = h.toLruEntry
  stores : ∀ key kept val, m.lookup (keyClass laws key) = some (kept, val) ↔
    ∃ h ∈ t.entries, eqFn h.key key = true ∧ h.slotKey = kept ∧ some h.addr = val
  size_eq : lru.size = t.entries.length
  card_eq : m.keys.card = t.entries.length
  evictCb_eq : lru.evictCb = evictCb
  handed_eq : lru.handed = if evictCb then t.dropped else []
  capacity_eq : lru.capacity = capacity
  bounded : t.entries.length ≤ capacity

variable {lru : OpLru K V} {ht : Htab K (Option Nat)} {m : KeyMap laws (Option Nat)} {t : Layout K V} {key : K}
  {h : Held K V} {front back : List (Held K V)}

variable {other : Held K V} {l : List (Held K V)}

lemma mem_split (split : l = front ++ h :: back) : other ∈ l ↔ other = h ∨ other ∈ front ++ back := by
  rw [split, mem_append, mem_cons, mem_append, or_left_comm]

lemma length_split (split : l = front ++ h :: back) : l.length = (front ++ back).length + 1 := by
  rw [split, length_append, length_append, length_cons, Nat.add_assoc]

namespace Tracks

section

variable (tracks : Tracks laws capacity evictCb lru ht m t)

include tracks

lemma lookup_of_mem (mem : h ∈ t.entries) (same : eqFn h.key key = true) :
    m.lookup (keyClass laws key) = some (h.slotKey, some h.addr) :=
  (tracks.stores key h.slotKey (some h.addr)).mpr ⟨h, mem, same, rfl, rfl⟩

lemma lookup_eq_none (absent : t.find eqFn key = none) : m.lookup (keyClass laws key) = none := by
  cases stored : m.lookup (keyClass laws key) with
  | none => rfl
  | some pair =>
    obtain ⟨kept, val⟩ := pair
    obtain ⟨h, mem, same, -⟩ := (tracks.stores key kept val).mp stored
    exact absurd same (List.find?_eq_none.mp absent h mem)

lemma unique (mem : h ∈ t.entries) (same : eqFn h.key key = true) (also : other ∈ t.entries)
    (equal : eqFn other.key key = true) : other = h := by
  have pair := tracks.lookup_of_mem mem same
  rw [tracks.lookup_of_mem also equal] at pair
  apply inj_on_of_nodup_map tracks.linked.nodup also mem
  exact Option.some.inj (Prod.mk.inj (Option.some.inj pair)).2

section

variable (split : t.entries = front ++ h :: back)

include split

lemma apart (inside : other ∈ front ++ back) : other.addr ≠ h.addr := by
  have nodup := tracks.linked.nodup
  rw [split, map_append, map_cons, nodup_middle, ← map_append] at nodup
  intro same
  apply (List.nodup_cons.mp nodup).1
  rw [← same]
  exact mem_map_of_mem inside

lemma erase_addr : (t.entries.map Held.addr).erase h.addr = (front ++ back).map Held.addr := by
  have outside : h.addr ∉ front.map Held.addr := by
    intro inside
    obtain ⟨other, early, same⟩ := List.mem_map.mp inside
    exact tracks.apart split (mem_append_left back early) same
  rw [split, map_append, map_cons, erase_append_right _ outside, erase_cons_head, map_append]

lemma others_eq (same : eqFn h.key key = true) : t.others eqFn key = front ++ back := by
  have kept : ∀ other ∈ front ++ back, (!eqFn other.key key) = true := by
    intro other inside
    rw [Bool.not_eq_true']
    apply Bool.eq_false_iff.mpr
    intro equal
    have also := (mem_split split).mpr (.inr inside)
    have one := tracks.unique ((mem_split split).mpr (.inl rfl)) same also equal
    exact tracks.apart split inside (congrArg Held.addr one)
  rw [others, split, filter_append, filter_cons, same, ← List.filter_eq_self.mpr kept, filter_append]
  rfl

omit split in
lemma get (key : K) : htabGet ht key = some ((t.find eqFn key).map Held.addr) := by
  rw [tracks.represents.get]
  cases found : t.find eqFn key with
  | none =>
    rw [tracks.lookup_eq_none found]
    rfl
  | some h =>
    rw [tracks.lookup_of_mem (mem_of_find found) (key_of_find found)]
    rfl

lemma renew (renewed : Held K V) (sameAddr : renewed.addr = h.addr)
    (sameSlot : renewed.slotKey = h.slotKey) (sameKey : ∀ key, eqFn renewed.key key = eqFn h.key key)
    {dropped handed : List (LruEntry K V)} (handed_eq : handed = if evictCb then dropped else []) :
    Tracks laws capacity evictCb
      { lru with list := lru.list.promote h.addr, handed := handed,
                 entry := Function.update lru.entry h.addr renewed.toLruEntry }
      ht m { t with entries := renewed :: (front ++ back), dropped := dropped } where
  table := tracks.table
  represents := tracks.represents
  linked := by
    have linked := tracks.linked.promote (mem_map_of_mem ((mem_split split).mpr (Or.inl rfl)))
    rw [tracks.erase_addr split, ← sameAddr] at linked
    rw [map_cons, ← sameAddr]
    exact linked
  unused_eq := tracks.unused_eq
  old := by
    rw [forall_mem_cons, sameAddr]
    have old := tracks.old
    simp only [mem_split split, forall_eq_or_imp] at old
    exact old
  content := by
    rw [forall_mem_cons, sameAddr]
    refine ⟨update_self h.addr _ lru.entry, fun other inside => ?_⟩
    have untouched := tracks.content other ((mem_split split).mpr (Or.inr inside))
    rwa [← update_of_ne (tracks.apart split inside) renewed.toLruEntry lru.entry] at untouched
  stores := by
    intro key kept val
    rw [tracks.stores key kept val]
    simp only [mem_split split, mem_cons, exists_eq_or_imp, sameAddr, sameSlot, sameKey]
  size_eq := by rw [tracks.size_eq, length_split split, length_cons]
  card_eq := by rw [tracks.card_eq, length_split split, length_cons]
  evictCb_eq := tracks.evictCb_eq
  handed_eq := handed_eq
  capacity_eq := tracks.capacity_eq
  bounded := by
    rw [length_cons, ← length_split split]
    exact tracks.bounded

lemma stores_erase (same : eqFn h.key key = true) (other kept : K) (val : Option Nat) :
    (m.erase (keyClass laws key)).lookup (keyClass laws other) = some (kept, val) ↔
      ∃ h ∈ front ++ back, eqFn h.key other = true ∧ h.slotKey = kept ∧ some h.addr = val := by
  have mem : h ∈ t.entries := (mem_split split).mpr (.inl rfl)
  by_cases equal : keyClass laws other = keyClass laws key
  · rw [equal, lookup_erase]
    constructor
    · intro bad
      cases bad
    · intro listed
      obtain ⟨also, inside, found, -⟩ := listed
      have equalKey : keyClass laws also.key = keyClass laws key := (keyClass_eq.mpr found).trans equal
      have one := tracks.unique mem same ((mem_split split).mpr (.inr inside)) (keyClass_eq.mp equalKey)
      exact absurd (congrArg Held.addr one) (tracks.apart split inside)
  · have different : ¬eqFn h.key other = true := by
      intro found
      have equalOther : keyClass laws h.key = keyClass laws other := keyClass_eq.mpr found
      have equalKey : keyClass laws h.key = keyClass laws key := keyClass_eq.mpr same
      exact equal (equalOther.symm.trans equalKey)
    rw [lookup_erase_ne equal, tracks.stores]
    simp only [mem_split split, exists_eq_or_imp, different, Bool.false_eq_true, false_and, false_or]

end

lemma stores_insert (absent : t.find eqFn key = none) (val : V) (other kept : K) (addr : Option Nat) :
    (m.insert (keyClass laws key) (key, some t.unused)).lookup (keyClass laws other) = some (kept, addr) ↔
      ∃ h ∈ (t.insert key val).entries, eqFn h.key other = true ∧ h.slotKey = kept ∧ some h.addr = addr := by
  simp only [Layout.insert, mem_cons, exists_eq_or_imp, ← tracks.stores]
  by_cases equal : keyClass laws other = keyClass laws key
  · have found := keyClass_eq.mp equal.symm
    rw [equal, lookup_insert, tracks.lookup_eq_none absent]
    simp [found]
  · have different : eqFn key other = false := by
      apply Bool.eq_false_iff.mpr
      intro found
      exact equal (keyClass_eq.mpr found).symm
    rw [lookup_insert_of_ne m equal]
    simp [different]

end

variable [Inhabited K]

lemma remove (tracks : Tracks laws capacity evictCb lru ht m t) (split : t.entries = front ++ h :: back)
    (same : eqFn h.key key = true) :
    ∃ ht', htabDel ht key = some (ht', some h.addr) ∧
      Tracks laws capacity evictCb (dropEntry lru h.addr ht') ht' (m.erase (keyClass laws key))
        { t with entries := front ++ back, dropped := t.dropped ++ [h.toLruEntry] } := by
  have mem : h ∈ t.entries := (mem_split split).mpr (.inl rfl)
  have stored := tracks.lookup_of_mem mem same
  obtain ⟨ht', deleted, rep⟩ := tracks.represents.del_found stored
  refine ⟨ht', deleted, rfl, rep, ?_, tracks.unused_eq, ?_, ?_, ?_, ?_, ?_, tracks.evictCb_eq, ?_,
    tracks.capacity_eq, ?_⟩
  · rw [← tracks.erase_addr split]
    exact tracks.linked.unlink (mem_map_of_mem mem)
  · exact fun other inside => tracks.old other ((mem_split split).mpr (.inr inside))
  · exact fun other inside => tracks.content other ((mem_split split).mpr (.inr inside))
  · exact tracks.stores_erase split same
  · show lru.size - 1 = (front ++ back).length
    rw [tracks.size_eq, length_split split, Nat.add_sub_cancel]
  · rw [keys_erase, Finset.card_erase_of_mem (mem_keys.mpr (mem_of_lookup_eq_some stored)),
      tracks.card_eq, length_split split, Nat.add_sub_cancel]
  · simp only [dropEntry, callEvict, tracks.evictCb_eq, tracks.handed_eq, tracks.content h mem]
    cases evictCb <;> rfl
  · have bounded := tracks.bounded
    rw [length_split split] at bounded
    exact Nat.le_of_succ_le bounded

lemma insert (tracks : Tracks laws capacity evictCb lru ht m t) (small : capacity < 2 ^ 61)
    (absent : t.find eqFn key = none) (room : t.entries.length < capacity) (val : V) :
    ∃ lru' ht', insertEntry lru key val = some lru' ∧
      Tracks laws capacity evictCb lru' ht' (m.insert (keyClass laws key) (key, some t.unused)) (t.insert key val) := by
  have missing := tracks.lookup_eq_none absent
  have few : ht.count < 2 ^ 61 := by
    rw [← tracks.represents.card, tracks.card_eq]
    omega
  obtain ⟨ht', stored, rep⟩ := tracks.represents.set_new few (some t.unused) missing
  have outside : ∀ h ∈ t.entries, h.addr ≠ t.unused := fun h mem => Nat.ne_of_lt (tracks.old h mem)
  have fresh : t.unused ∉ t.entries.map Held.addr := by
    intro inside
    obtain ⟨h, mem, same⟩ := List.mem_map.mp inside
    exact outside h mem same
  have newKey : keyClass laws key ∉ m := Finmap.lookup_eq_none.mp missing
  refine ⟨{ lru with ht := some ht', entry := Function.update lru.entry t.unused { key := key, val := val },
                     unused := t.unused + 1, list := lru.list.pushHead t.unused, size := lru.size + 1 },
    ht', by simp [insertEntry, tracks.table, tracks.unused_eq, stored], ?_⟩
  constructor
  case table => rfl
  case represents => exact rep
  case linked => exact tracks.linked.pushHead fresh
  case unused_eq => rfl
  case old =>
    refine List.forall_mem_cons.mpr ⟨Nat.lt_succ_self t.unused, fun h mem => ?_⟩
    exact Nat.lt_succ_of_lt (tracks.old h mem)
  case content =>
    refine List.forall_mem_cons.mpr ⟨update_self t.unused _ lru.entry, fun h mem => ?_⟩
    have untouched := tracks.content h mem
    rwa [← update_of_ne (outside h mem) { key := key, val := val } lru.entry] at untouched
  case stores => exact tracks.stores_insert absent val
  case size_eq => exact congrArg (· + 1) tracks.size_eq
  case card_eq =>
    rw [keys_card, entries_insert_of_notMem newKey, Multiset.card_cons, ← keys_card, tracks.card_eq]
    rfl
  case evictCb_eq => exact tracks.evictCb_eq
  case handed_eq => exact tracks.handed_eq
  case capacity_eq => exact tracks.capacity_eq
  case bounded => exact room

end Tracks

def Refines (laws : KeyLaws hashFn eqFn) (capacity : Nat) (evictCb : Bool) (lru : OpLru K V) (t : Layout K V) : Prop :=
  ∃ ht m, Tracks laws capacity evictCb lru ht m t

variable [Inhabited K]

lemma lruCreateCommon_tracks [Inhabited V] (rep : Represents laws ht ∅) :
    Tracks laws (if capacity > 0 then capacity else 1) evictCb
      (lruCreateCommon capacity evictCb (some ht) : OpLru K V) ht ∅ empty where
  table := rfl
  represents := rep
  linked := ⟨rfl, rfl, nodup_nil⟩
  unused_eq := rfl
  old := forall_mem_nil _
  content := forall_mem_nil _
  stores := by
    intro key kept val
    simp [lookup_empty, empty]
  size_eq := rfl
  card_eq := rfl
  evictCb_eq := rfl
  handed_eq := by cases evictCb <;> rfl
  capacity_eq := rfl
  bounded := Nat.zero_le _

section

variable (refines : Refines laws capacity evictCb lru t)

include refines

lemma Refines.evictTail : ∃ lru', lruEvictTail lru = some lru' ∧ Refines laws capacity evictCb lru' t.evictLast := by
  obtain ⟨ht, m, tracks⟩ := refines
  have tail := tracks.linked.tail_eq
  rw [getLast?_map] at tail
  rcases eq_nil_or_concat t.entries with empty | ⟨front, h, split⟩
  · rw [empty] at tail
    rw [evictLast_of_nil empty]
    exact ⟨lru, by simp [lruEvictTail, tail], ht, m, tracks⟩
  · rw [concat_eq_append] at split
    rw [split, getLast?_concat] at tail
    obtain ⟨ht', deleted, rest⟩ := tracks.remove split (laws.refl h.key)
    rw [append_nil, ← evictLast_append split] at rest
    have content := tracks.content h ((mem_split split).mpr (.inl rfl))
    exact ⟨dropEntry lru h.addr ht', by simp [lruEvictTail, tail, tracks.table, content, deleted], ht', _, rest⟩

lemma Refines.evictIfFull :
    ∃ lru', evictIfFull lru = some lru' ∧ Refines laws capacity evictCb lru' (t.makeRoom capacity) := by
  obtain ⟨ht, m, tracks⟩ := id refines
  rw [LibOp.Lru.evictIfFull, makeRoom, tracks.capacity_eq, tracks.size_eq]
  by_cases full : capacity ≤ t.entries.length
  · rw [if_pos full, if_neg (Nat.not_lt.mpr full)]
    exact refines.evictTail
  · rw [if_neg full, if_pos (Nat.lt_of_not_le full)]
    exact ⟨lru, rfl, refines⟩

lemma Refines.flushLoop (enough : t.entries.length < rounds) :
    ∃ lru', flushLoop rounds lru = some lru' ∧ Refines laws capacity evictCb lru' t.flush := by
  induction rounds generalizing lru t with
  | zero => exact absurd enough (Nat.not_lt_zero _)
  | succ rounds ih =>
    obtain ⟨ht, m, tracks⟩ := id refines
    have tail := tracks.linked.tail_eq
    rw [LibOp.Lru.flushLoop]
    rcases eq_nil_or_concat t.entries with empty | ⟨front, h, split⟩
    · rw [empty] at tail
      have same : t.flush = t := by
        cases t
        simp_all [flush]
      rw [same]
      exact ⟨lru, by simp [tail], refines⟩
    · rw [concat_eq_append] at split
      rw [split, map_append, map_singleton, getLast?_concat] at tail
      obtain ⟨next, evicted, related⟩ := refines.evictTail
      have fewer : t.evictLast.entries.length < rounds := by
        rw [evictLast_append split]
        rw [split, length_append, length_singleton] at enough
        exact Nat.lt_of_succ_lt_succ enough
      obtain ⟨last, flushed, final⟩ := ih related fewer
      rw [flush_evictLast] at final
      exact ⟨last, by simp [tail, evicted, flushed], final⟩

end

omit [Inhabited K] in
lemma Tracks.lruGet_val [Inhabited V] (tracks : Tracks laws capacity evictCb lru ht m t) (key : K) :
    (lruGet lru key).map Prod.snd = some (((t.find eqFn key).map fun h => h.val).getD default) := by
  have looked := tracks.get key
  cases found : t.find eqFn key with
  | none =>
    rw [found] at looked
    simp [lruGet, tracks.table, looked]
  | some h =>
    rw [found] at looked
    simp [lruGet, tracks.table, looked, tracks.content h (mem_of_find found)]

variable [Inhabited V] [DecidableEq V]

lemma Refines.get (refines : Refines laws capacity evictCb lru t) (key : K) :
    ∃ lru', lruStep lru (.get key) = some (lru', (t.step eqFn capacity (.get key)).2) ∧
      Refines laws capacity evictCb lru' (t.step eqFn capacity (.get key)).1 := by
  obtain ⟨ht, m, tracks⟩ := refines
  have looked := tracks.get key
  cases found : t.find eqFn key with
  | none =>
    rw [found] at looked
    simp only [step, found]
    exact ⟨lru, by simp [lruStep, lruGet, tracks.table, looked], ht, m, tracks⟩
  | some h =>
    rw [found] at looked
    simp only [step, found]
    have mem := mem_of_find found
    have content := tracks.content h mem
    obtain ⟨front, back, split⟩ := append_of_mem mem
    have moved := tracks.renew split h rfl rfl (fun _ => rfl) tracks.handed_eq
    rw [← content, update_eq_self, ← tracks.others_eq split (key_of_find found)] at moved
    exact ⟨{ lru with list := lru.list.promote h.addr }, by simp [lruStep, lruGet, tracks.table, looked, content],
      ht, m, moved⟩

omit [Inhabited K] [Inhabited V] in
lemma updateEntry_eq (lru : OpLru K V) (e : Nat) (key : K) (val : V) : updateEntry lru e key val =
      { lru with
        entry := Function.update lru.entry e { key := key, val := val }, list := lru.list.promote e,
        handed := if (lru.entry e).val = val then lru.handed else (callEvict lru (lru.entry e)).handed } := by
  by_cases same : (lru.entry e).val = val <;> simp [updateEntry, callEvict, same]

variable (refines : Refines laws capacity evictCb lru t)

include refines

lemma Refines.set (small : capacity < 2 ^ 61) (pos : 0 < capacity) (key : K) (val : V) :
    ∃ lru', lruStep lru (.set key val) = some (lru', (t.step eqFn capacity (.set key val)).2) ∧
      Refines laws capacity evictCb lru' (t.step eqFn capacity (.set key val)).1 := by
  obtain ⟨ht, m, tracks⟩ := id refines
  have looked := tracks.get key
  cases found : t.find eqFn key with
  | none =>
    rw [found] at looked
    simp only [step, found]
    obtain ⟨ready, roomy, ht', m', ready_tracks⟩ := refines.evictIfFull
    obtain ⟨lru', ht'', inserted, final⟩ := ready_tracks.insert small (find_makeRoom capacity found)
      (t.makeRoom_length pos tracks.bounded) val
    exact ⟨lru', by simp [lruStep, lruSet, tracks.table, looked, roomy, inserted], ht'', _, final⟩
  | some h =>
    rw [found] at looked
    simp only [step, found]
    have mem := mem_of_find found
    have same := key_of_find found
    obtain ⟨front, back, split⟩ := append_of_mem mem
    have sameKey : ∀ other, eqFn key other = eqFn h.key other := by
      intro other
      apply Bool.eq_iff_iff.mpr
      exact ⟨laws.trans _ _ _ same, laws.trans _ _ _ (laws.symm _ _ same)⟩
    refine ⟨updateEntry lru h.addr key val, by simp [lruStep, lruSet, tracks.table, looked], ht, m, ?_⟩
    rw [updateEntry_eq, Layout.update, tracks.others_eq split same]
    apply tracks.renew split { h with key := key, val := val } rfl rfl sameKey
    rw [tracks.content h mem, callEvict, tracks.evictCb_eq, tracks.handed_eq]
    cases evictCb <;> simp

lemma Refines.delete (key : K) :
    ∃ lru', lruStep lru (.delete key) = some (lru', (t.step eqFn capacity (.delete key)).2) ∧
      Refines laws capacity evictCb lru' (t.step eqFn capacity (.delete key)).1 := by
  obtain ⟨ht, m, tracks⟩ := refines
  cases found : t.find eqFn key with
  | none =>
    have deleted : htabDel ht key = some (ht, none) := tracks.represents.del_absent (tracks.lookup_eq_none found)
    simp only [step, found]
    have unchanged : { lru with ht := some ht } = lru := by rw [← tracks.table]
    exact ⟨lru, by simp [lruStep, lruDelete, tracks.table, deleted, unchanged], ht, m, tracks⟩
  | some h =>
    simp only [step, found]
    have same := key_of_find found
    obtain ⟨front, back, split⟩ := append_of_mem (mem_of_find found)
    obtain ⟨ht', deleted, rest⟩ := tracks.remove split same
    rw [← tracks.others_eq split same] at rest
    exact ⟨dropEntry lru h.addr ht', by simp [lruStep, lruDelete, tracks.table, deleted], ht', _, rest⟩

lemma Refines.flush : ∃ lru', lruStep lru .flush = some (lru', (t.step eqFn capacity .flush).2) ∧
      Refines laws capacity evictCb lru' (t.step eqFn capacity .flush).1 := by
  obtain ⟨ht, m, tracks⟩ := id refines
  have enough : t.entries.length < lru.size + 1 := by
    rw [tracks.size_eq]
    exact Nat.lt_succ_self _
  obtain ⟨lru', flushed, final⟩ := refines.flushLoop enough
  exact ⟨lru', by simp [lruStep, lruFlush, flushed, step], final⟩

lemma Refines.step (small : capacity < 2 ^ 61) (pos : 0 < capacity) (op : LruOp K V) :
    ∃ lru', lruStep lru op = some (lru', (t.step eqFn capacity op).2) ∧
      Refines laws capacity evictCb lru' (t.step eqFn capacity op).1 := by
  cases op with
  | set key val => exact refines.set small pos key val
  | get key => exact refines.get key
  | delete key => exact refines.delete key
  | flush => exact refines.flush

end LibOp.Lru

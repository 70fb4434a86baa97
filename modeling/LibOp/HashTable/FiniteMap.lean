import LibOp.Foundation.Runs
import LibOp.HashTable.Probing

namespace LibOp.HashTable

open Foundation Multiset Finmap

section

variable {α : Type} {β : α → Type} [DecidableEq α] {m : Finmap β} {a : α} {b : β a} {rest : Multiset (Sigma β)}

variable (content : m.entries = ⟨a, b⟩ ::ₘ rest)

include content

lemma finmap_split : ∃ others : Finmap β, others.entries = rest ∧ a ∉ others ∧ m = others.insert a b := by
  have nodup := m.nodupKeys.nodup_keys
  rw [content, keys_cons, nodup_cons] at nodup
  let others : Finmap β := ⟨rest, Multiset.nodup_keys.mp nodup.2⟩
  have fresh : a ∉ others := nodup.1
  exact ⟨others, rfl, fresh, Finmap.ext (by rw [content, entries_insert_of_notMem fresh])⟩

lemma finmap_insert_entries (b' : β a) : (m.insert a b').entries = ⟨a, b'⟩ ::ₘ rest := by
  obtain ⟨others, rfl, fresh, rfl⟩ := finmap_split content
  rw [insert_insert, entries_insert_of_notMem fresh]

lemma finmap_erase_entries : (m.erase a).entries = rest := by
  obtain ⟨others, rfl, fresh, rfl⟩ := finmap_split content
  refine congrArg entries (ext_lookup fun x => ?_)
  by_cases same : x = a
  · subst same
    rw [lookup_erase, lookup_eq_none.mpr fresh]
  · rw [lookup_erase_ne same, lookup_insert_of_ne _ same]

end

variable {K V : Type}

structure KeyLaws (hashFn : K → UInt64) (eqFn : K → K → Bool) : Prop where
  refl : ∀ a, eqFn a a = true
  symm : ∀ a b, eqFn a b = true → eqFn b a = true
  trans : ∀ a b c, eqFn a b = true → eqFn b c = true → eqFn a c = true
  hash : ∀ a b, eqFn a b = true → hashFn a = hashFn b

def keySetoid {hashFn : K → UInt64} {eqFn : K → K → Bool} (laws : KeyLaws hashFn eqFn) : Setoid K where
  r a b := eqFn a b = true
  iseqv := ⟨laws.refl, fun {a b} => laws.symm a b, fun {a b c} => laws.trans a b c⟩

def KeyClass {hashFn : K → UInt64} {eqFn : K → K → Bool} (laws : KeyLaws hashFn eqFn) : Type :=
  Quotient (keySetoid laws)

def keyClass {hashFn : K → UInt64} {eqFn : K → K → Bool} (laws : KeyLaws hashFn eqFn) (key : K) :
    KeyClass laws := Quotient.mk (keySetoid laws) key

noncomputable instance {hashFn : K → UInt64} {eqFn : K → K → Bool} (laws : KeyLaws hashFn eqFn) :
    DecidableEq (KeyClass laws) := Classical.decEq _

inductive HtabOp (K V : Type) where
  | set (key : K) (val : V)
  | del (key : K)
  | getOrSet (key : K) (val : V)
  | compact

inductive HtabReply (V : Type) where
  | set (rc : Nat) (oldVal : V)
  | del (val : V)
  | getOrSet (val : V) (created : Bool)
  | compact
deriving DecidableEq

section

variable [Inhabited K] [Inhabited V]

def htabStep (ht : Htab K V) : HtabOp K V → Option (Htab K V × HtabReply V)
  | .set key val => do
    let (next, rc, oldVal) ← htabSet ht key val
    some (next, .set rc oldVal)
  | .del key => do
    let (next, val) ← htabDel ht key
    some (next, .del val)
  | .getOrSet key val => do
    let (next, found, created) ← htabGetOrSet ht key val
    some (next, .getOrSet found created)
  | .compact => do
    let next ← htabCompact ht
    some (next, .compact)

def htabRun (ht : Htab K V) : List (HtabOp K V) → Option (Htab K V × List (HtabReply V))
  | [] => some (ht, [])
  | op :: rest => do
    let (next, reply) ← htabStep ht op
    let (last, replies) ← htabRun next rest
    some (last, reply :: replies)

end

abbrev KeyMap {hashFn : K → UInt64} {eqFn : K → K → Bool} (laws : KeyLaws hashFn eqFn) (V : Type) :=
  Finmap fun _ : KeyClass laws => K × V

section

variable [Inhabited V] {hashFn : K → UInt64} {eqFn : K → K → Bool} (laws : KeyLaws hashFn eqFn)

noncomputable def mapStep (m : KeyMap laws V) : HtabOp K V → KeyMap laws V × HtabReply V
  | .set key val =>
    match m.lookup (keyClass laws key) with
    | some (kept, old) => (m.insert (keyClass laws key) (kept, val), .set 0 old)
    | none => (m.insert (keyClass laws key) (key, val), .set 1 default)
  | .del key =>
    match m.lookup (keyClass laws key) with
    | some (_, val) => (m.erase (keyClass laws key), .del val)
    | none => (m, .del default)
  | .getOrSet key val =>
    match m.lookup (keyClass laws key) with
    | some (_, old) => (m, .getOrSet old false)
    | none => (m.insert (keyClass laws key) (key, val), .getOrSet val true)
  | .compact => (m, .compact)

noncomputable def mapRun (m : KeyMap laws V) : List (HtabOp K V) → KeyMap laws V × List (HtabReply V)
  | [] => (m, [])
  | op :: rest =>
    let (next, reply) := mapStep laws m op
    let (last, replies) := mapRun next rest
    (last, reply :: replies)

/-- Fewer than `2 ^ 61` keys: with slots of 24 bytes, no address space holds more. -/
def Addressable (m : KeyMap laws V) (ops : List (HtabOp K V)) : Prop :=
  Permitted (fun m _ => m.keys.card < 2 ^ 61) (fun m op => (mapStep laws m op).1) m ops

omit [Inhabited V] in
lemma keys_card_insert (m : KeyMap laws V) (c : KeyClass laws) (pair : K × V) :
    (m.insert c pair).keys.card ≤ m.keys.card + 1 := by
  have covered : (m.insert c pair).keys ⊆ insert c m.keys := by
    intro x mem
    rwa [mem_keys, mem_insert, ← mem_keys, ← Finset.mem_insert] at mem
  exact Nat.le_trans (Finset.card_le_card covered) (Finset.card_insert_le c m.keys)

lemma mapStep_card (m : KeyMap laws V) (op : HtabOp K V) : (mapStep laws m op).1.keys.card ≤ m.keys.card + 1 := by
  cases op with
  | set key val =>
    simp only [mapStep]
    split <;> exact keys_card_insert laws m _ _
  | del key =>
    simp only [mapStep]
    split
    · rw [keys_erase]
      exact Nat.le_succ_of_le (Finset.card_le_card (Finset.erase_subset _ _))
    · exact Nat.le_succ _
  | getOrSet key val =>
    simp only [mapStep]
    split
    · exact Nat.le_succ _
    · exact keys_card_insert laws m _ _
  | compact => exact Nat.le_succ _

lemma addressable_of_short (m : KeyMap laws V) (ops : List (HtabOp K V))
    (short : m.keys.card + ops.length ≤ 2 ^ 61) : Addressable laws m ops := by
  induction ops generalizing m with
  | nil => exact trivial
  | cons op rest ih =>
    rw [List.length_cons] at short
    have grown := mapStep_card laws m op
    exact ⟨by omega, ih (mapStep laws m op).1 (by omega)⟩

end

variable {hashFn : K → UInt64} {eqFn : K → K → Bool} {laws : KeyLaws hashFn eqFn}

def entryOf (laws : KeyLaws hashFn eqFn) (s : HtabSlot K V) : Σ _ : KeyClass laws, K × V :=
  ⟨keyClass laws s.key, s.key, s.val⟩

/-- The table is laid out for the probe loops, and its live entries are those of the map. -/
structure Represents (laws : KeyLaws hashFn eqFn) (ht : Htab K V) (m : KeyMap laws V) : Prop where
  hashFn_eq : ht.hashFn = hashFn
  eqFn_eq : ht.eqFn = eqFn
  ok : MaskOk ht.mask
  ordered : Ordered (ht.mask + 1) (reachAt ht.mask ht.slots)
  hashed : ∀ s ∈ stored ht.mask ht.slots, s.hash = fixHash (hashFn s.key)
  counted : ht.count = (stored ht.mask ht.slots).card
  room : ht.count < ht.mask + 1
  content : m.entries = (stored ht.mask ht.slots).map (entryOf laws)

lemma fixHash_ne_zero (h : UInt64) : fixHash h ≠ 0 := by
  unfold fixHash
  split
  · assumption
  · decide

lemma keyClass_eq : keyClass laws a = keyClass laws b ↔ eqFn a b = true :=
  ⟨fun same => Quotient.exact same, fun equal => Quotient.sound (s := keySetoid laws) equal⟩

lemma keys_card {m : KeyMap laws V} : m.keys.card = m.entries.card := card_map _ _

variable {ht : Htab K V} {m : KeyMap laws V}

variable (rep : Represents laws ht m)

include rep

lemma Represents.card : m.keys.card = ht.count := by
  rw [keys_card, rep.content, card_map, rep.counted]

lemma Represents.unique (first : i < ht.mask + 1) (second : j < ht.mask + 1)
    (liveFirst : (ht.slots i).hash ≠ 0) (liveSecond : (ht.slots j).hash ≠ 0)
    (same : keyClass laws (ht.slots i).key = keyClass laws (ht.slots j).key) : i = j := by
  by_contra apart
  have nodup := m.nodupKeys.nodup_keys
  have later : j ∈ (Finset.range (ht.mask + 1)).erase i :=
    Finset.mem_erase.mpr ⟨Ne.symm apart, Finset.mem_range.mpr second⟩
  rw [rep.content, stored, bag_erase cell ht.slots (Finset.mem_range.mpr first),
    bag_erase cell ht.slots later, cell_of_live liveFirst, cell_of_live liveSecond,
    singleton_add, singleton_add, map_cons, map_cons, entryOf, entryOf, keys_cons, keys_cons, same, nodup_cons] at nodup
  exact nodup.1 (mem_cons_self _ _)

lemma Represents.lookup_at (position : i < ht.mask + 1) (live : (ht.slots i).hash ≠ 0) :
    m.lookup (keyClass laws (ht.slots i).key) = some ((ht.slots i).key, (ht.slots i).val) := by
  apply lookup_eq_some_iff.mpr
  rw [rep.content]
  exact mem_map_of_mem (entryOf laws) (mem_stored.mpr ⟨⟨i, position, rfl⟩, live⟩)

lemma Represents.find (key : K) :
    (∃ i < ht.mask + 1, (ht.slots i).hash ≠ 0 ∧ keyClass laws (ht.slots i).key = keyClass laws key ∧
      htabFindIdx ht key (fixHash (ht.hashFn key)) = some (some i)) ∨
    (htabFindIdx ht key (fixHash (ht.hashFn key)) = some none ∧ m.lookup (keyClass laws key) = none) := by
  have home := rep.ok.home_lt (fixHash (ht.hashFn key))
  cases present : m.lookup (keyClass laws key) with
  | some pair =>
    have entry := lookup_eq_some_iff.mp present
    rw [rep.content, mem_map] at entry
    obtain ⟨s, mem, isEntry⟩ := entry
    obtain ⟨⟨i, position, rfl⟩, live⟩ := mem_stored.mp mem
    have class_eq : keyClass laws (ht.slots i).key = keyClass laws key := congrArg Sigma.fst isEntry
    have sameKey := keyClass_eq.mp class_eq
    have sameHash : (ht.slots i).hash = fixHash (ht.hashFn key) := by
      rw [rep.hashed _ mem, rep.hashFn_eq, laws.hash _ _ sameKey]
    have found := probe_found key rep.ok rep.ordered position (fixHash_ne_zero _) sameHash
      (by rw [rep.eqFn_eq, sameKey])
      (fun j inside hash equal => rep.unique inside position (by rw [hash]; exact fixHash_ne_zero _) live
        (by rw [class_eq, keyClass_eq, ← rep.eqFn_eq, equal]))
      (ht.mask + 1) 0 (Nat.zero_le _) (displacement_lt position)
    rw [Nat.add_zero (_ &&& _), Nat.mod_eq_of_lt home] at found
    exact .inl ⟨i, position, live, class_eq, found⟩
  | none =>
    obtain ⟨vacant, vacantLt, empty⟩ := exists_empty (rep.counted ▸ rep.room)
    refine .inr ⟨probe_missing key rep.ok vacantLt empty (fun i position hash => ?_) _ _ _ home
      (displacement_lt vacantLt), rfl⟩
    by_contra equal
    have live : (ht.slots i).hash ≠ 0 := by
      rw [hash]
      exact fixHash_ne_zero _
    have same : keyClass laws (ht.slots i).key = keyClass laws key := by
      rw [keyClass_eq, ← rep.eqFn_eq]
      exact Bool.of_not_eq_false equal
    have there := rep.lookup_at position live
    rw [same, present] at there
    cases there

lemma Represents.lookup_found (position : i < ht.mask + 1) (live : (ht.slots i).hash ≠ 0)
    (same : keyClass laws (ht.slots i).key = keyClass laws key) :
    m.lookup (keyClass laws key) = some ((ht.slots i).key, (ht.slots i).val) := by
  rw [← same]
  exact rep.lookup_at position live

end LibOp.HashTable

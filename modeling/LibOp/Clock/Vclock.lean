import LibOp.Foundation.KeyedList

namespace LibOp.Clock

open Foundation

abbrev ServerKey := Vector UInt8 8

def vclockMaxEntries : Nat := 32

structure VclockEntry where
  serverKey : ServerKey
  counter : UInt64
deriving DecidableEq

/-- The entries `entries[0..count)`. -/
structure Vclock where
  entries : List VclockEntry
  bounded : entries.length ≤ vclockMaxEntries

def Vclock.modifyCounter (vc : Vclock) (idx : Nat) (f : UInt64 → UInt64) : Vclock where
  entries := vc.entries.modify idx (fun e => { e with counter := f e.counter })
  bounded := by
    rw [List.length_modify]
    exact vc.bounded

def Vclock.push (vc : Vclock) (entry : VclockEntry) (room : vc.entries.length < vclockMaxEntries) : Vclock where
  entries := vc.entries ++ [entry]
  bounded := by
    rw [List.length_append]
    exact room

def vclockFind (vc : Vclock) (serverKey : ServerKey) : Option Nat :=
  vc.entries.findIdx? (fun e => decide (e.serverKey = serverKey))

def vclockGet (vc : Vclock) (serverKey : ServerKey) : UInt64 :=
  match vclockFind vc serverKey with
  | some idx => (vc.entries.map VclockEntry.counter).getD idx 0
  | none => 0

def vclockTick (vc : Vclock) (serverKey : ServerKey) : Vclock × UInt64 :=
  match vclockFind vc serverKey with
  | some idx => (vc.modifyCounter idx (· + 1), (vc.entries.map VclockEntry.counter).getD idx 0 + 1)
  | none => if room : vc.entries.length < vclockMaxEntries then (vc.push ⟨serverKey, 1⟩ room, 1) else (vc, 0)

def vclockMergeEntry (dst : Vclock) (entry : VclockEntry) : Vclock :=
  match vclockFind dst entry.serverKey with
  | some idx =>
    if entry.counter > (dst.entries.map VclockEntry.counter).getD idx 0
    then dst.modifyCounter idx (fun _ => entry.counter) else dst
  | none => if room : dst.entries.length < vclockMaxEntries then dst.push entry room else dst

def vclockMerge (dst src : Vclock) : Vclock := src.entries.foldl vclockMergeEntry dst

/-- A round of either loop of `op_vclock_cmp`: the scanned clock is below the other one, or above it. -/
def compareEntry (other : Vclock) (flags : Bool × Bool) (entry : VclockEntry) : Bool × Bool :=
  let value := vclockGet other entry.serverKey
  (if entry.counter > value then false else flags.1, if entry.counter < value then false else flags.2)

def causalOrder (aLeB bLeA : Bool) : Int :=
  if aLeB && bLeA then 0 else if aLeB then -1 else if bLeA then 1 else 2

def vclockCmp (a b : Vclock) : Int :=
  let first := a.entries.foldl (compareEntry b) (true, true)
  let second := b.entries.foldl (compareEntry a) (first.2, first.1)
  causalOrder second.2 second.1

def Vclock.counters (vc : Vclock) (serverKey : ServerKey) : Nat := (vclockGet vc serverKey).toNat

def Vclock.keys (vc : Vclock) : Finset ServerKey := (vc.entries.map VclockEntry.serverKey).toFinset

def Vclock.Distinct (vc : Vclock) : Prop := (vc.entries.map VclockEntry.serverKey).Nodup

variable {vc : Vclock} {serverKey : ServerKey}

lemma vclockFind_some (found : vclockFind vc serverKey = some idx) :
    (vc.entries.map VclockEntry.counter).getD idx 0 = vclockGet vc serverKey := by
  simp [vclockGet, found]

open Vclock

lemma vclockFind_none : vclockFind vc serverKey = none ↔ serverKey ∉ vc.keys := by
  unfold vclockFind keys
  rw [findIdx_eq_none VclockEntry.serverKey, lookup_eq_none, List.mem_toFinset]

lemma vclockGet_eq (vc : Vclock) (serverKey : ServerKey) : vclockGet vc serverKey =
      ((lookup VclockEntry.serverKey vc.entries serverKey).map VclockEntry.counter).getD 0 := by
  cases found : vclockFind vc serverKey with
  | none =>
    have missing := (findIdx_eq_none VclockEntry.serverKey vc.entries serverKey).mp found
    simp [vclockGet, found, missing]
  | some idx =>
    obtain ⟨bound, located, _⟩ := findIdx_eq_some VclockEntry.serverKey found
    simp [vclockGet, found, located, bound]

lemma vclockGet_absent (absent : serverKey ∉ vc.keys) : vclockGet vc serverKey = 0 := by
  simp [vclockGet, vclockFind_none.mpr absent]

variable {entry : VclockEntry}

lemma vclockGet_entry (nodup : vc.Distinct) (mem : entry ∈ vc.entries) :
    vclockGet vc entry.serverKey = entry.counter := by
  have located := (lookup_eq_some VclockEntry.serverKey vc.entries nodup _ entry).mpr ⟨mem, rfl⟩
  simp [vclockGet_eq, located]

lemma vclockGet_modify (f : UInt64 → UInt64) (found : vclockFind vc serverKey = some idx)
    (other : ServerKey) : vclockGet (vc.modifyCounter idx f) other =
      if other = serverKey then f (vclockGet vc serverKey) else vclockGet vc other := by
  obtain ⟨bound, located, _⟩ := findIdx_eq_some VclockEntry.serverKey found
  have changed := lookup_modify VclockEntry.serverKey
    (fun e : VclockEntry => { e with counter := f e.counter }) (fun _ => rfl) found other
  rw [vclockGet_eq, vclockGet_eq, vclockGet_eq, modifyCounter, changed]
  split
  · simp [located]
  · rfl

lemma vclockGet_push (room : vc.entries.length < vclockMaxEntries) (absent : entry.serverKey ∉ vc.keys)
    (other : ServerKey) : vclockGet (vc.push entry room) other =
      if other = entry.serverKey then entry.counter else vclockGet vc other := by
  unfold keys at absent
  rw [List.mem_toFinset] at absent
  have changed := lookup_append_fresh VclockEntry.serverKey vc.entries entry absent other
  rw [vclockGet_eq, vclockGet_eq, push, changed]
  split <;> rfl

lemma modify_keys (vc : Vclock) (idx : Nat) (f : UInt64 → UInt64) :
    (vc.modifyCounter idx f).entries.map VclockEntry.serverKey = vc.entries.map VclockEntry.serverKey :=
  map_key_modify VclockEntry.serverKey vc.entries idx _ (fun _ => rfl)

section

variable (nodup : vc.Distinct)

include nodup

lemma card_keys : vc.keys.card = vc.entries.length := by
  unfold keys
  rw [List.toFinset_card_of_nodup nodup, List.length_map]

lemma Vclock.Distinct.modify (idx : Nat) (f : UInt64 → UInt64) : (vc.modifyCounter idx f).Distinct := by
  unfold Vclock.Distinct
  rw [modify_keys]
  exact nodup

lemma Vclock.Distinct.push (room : vc.entries.length < vclockMaxEntries)
    (absent : entry.serverKey ∉ vc.keys) : (vc.push entry room).Distinct := by
  apply map_key_append_fresh VclockEntry.serverKey vc.entries nodup
  simpa [keys] using absent

lemma Vclock.Distinct.room (absent : serverKey ∉ vc.keys)
    (few : (insert serverKey vc.keys).card ≤ vclockMaxEntries) : vc.entries.length < vclockMaxEntries := by
  rw [Finset.card_insert_of_notMem absent, card_keys nodup] at few
  exact few

end

lemma mergeEntry_spec (nodup : dst.Distinct) (entry : VclockEntry)
    (few : (insert entry.serverKey dst.keys).card ≤ vclockMaxEntries) :
    (vclockMergeEntry dst entry).Distinct ∧ (vclockMergeEntry dst entry).keys = insert entry.serverKey dst.keys ∧
      ∀ other, (vclockMergeEntry dst entry).counters other =
        if other = entry.serverKey then max (dst.counters other) entry.counter.toNat else dst.counters other := by
  unfold vclockMergeEntry
  cases found : vclockFind dst entry.serverKey with
  | some idx =>
    have present : entry.serverKey ∈ dst.keys := by
      by_contra absent
      rw [vclockFind_none.mpr absent] at found
      cases found
    have same : dst.keys = insert entry.serverKey dst.keys := (Finset.insert_eq_of_mem present).symm
    simp only [vclockFind_some found, gt_iff_lt, UInt64.lt_iff_toNat_lt]
    split
    next larger =>
      refine ⟨nodup.modify idx _, ?_, ?_⟩
      · rw [← same]
        unfold keys
        rw [modify_keys]
      · intro other
        simp only [counters, vclockGet_modify _ found]
        split
        next here =>
          rw [here]
          omega
        · rfl
    next smaller =>
      refine ⟨nodup, same, ?_⟩
      intro other
      split
      next here =>
        simp only [counters, here]
        omega
      · rfl
  | none =>
    have absent := vclockFind_none.mp found
    have room := nodup.room absent few
    simp only [room, ↓reduceDIte]
    refine ⟨nodup.push room absent, ?_, ?_⟩
    · ext other
      simp [keys, push]
    · intro other
      simp only [counters, vclockGet_push room absent]
      split
      next here => simp [here, vclockGet_absent absent]
      · rfl

end LibOp.Clock

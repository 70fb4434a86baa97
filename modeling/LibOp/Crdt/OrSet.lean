import LibOp.Crdt.ContextSets

namespace LibOp.Crdt

open Foundation

abbrev Key := List UInt8

def orsetKeyMax : Nat := 256
def orsetMaxDots : Nat := 4

structure OrsetEntry where
  key : Key
  dots : List Dot
deriving DecidableEq

structure Orset where
  entries : List OrsetEntry
  capacity : Nat
  cc : Cc
deriving DecidableEq

structure OrsetDelta where
  entry : OrsetEntry
  hasEntry : Bool
  cc : Cc
deriving DecidableEq

def OrsetDelta.zero : OrsetDelta := ⟨⟨[], []⟩, false, Cc.empty⟩

def orsetInit (initialCap : Nat) : Orset := ⟨[], initialCap, Cc.empty⟩

def orsetFind (set : Orset) (key : Key) : Option Nat :=
  set.entries.findIdx? (fun e => decide (e.key = key))

def orsetContains (set : Orset) (key : Key) : Bool := (orsetFind set key).isSome

def orsetGrow (set : Orset) : Orset :=
  if set.entries.length < set.capacity then set
  else { set with capacity := if set.capacity = 0 then 16 else set.capacity * 2 }

def orsetAppend (set : Orset) (entry : OrsetEntry) : Orset :=
  let grown := orsetGrow set
  { grown with entries := grown.entries ++ [entry] }

def orsetPushDot (dots : List Dot) (dot : Dot) : List Dot :=
  if dots.length < orsetMaxDots then dots ++ [dot] else dots.drop 1 ++ [dot]

def orsetSetDots (set : Orset) (idx : Nat) (dots : List Dot) : Orset :=
  { set with entries := set.entries.modify idx (fun e => { e with dots := dots }) }

def orsetDrop (set : Orset) (idx : Nat) : Orset :=
  { set with entries := swapRemove set.entries idx }

def orsetDots (set : Orset) (idx : Nat) : List Dot := (set.entries.map OrsetEntry.dots).getD idx []

/-- `counter` is the process-wide `s_dot_counter`. -/
def orsetAdd (set : Orset) (counter : Nat) (key : Key) (replica : Replica) : Orset × Nat × OrsetDelta :=
  if key.length > orsetKeyMax then (set, counter, OrsetDelta.zero)
  else
    let dot : Dot := ⟨replica, counter + 1⟩
    let placed :=
      match orsetFind set key with
      | some idx => orsetSetDots set idx (orsetPushDot (orsetDots set idx) dot)
      | none => orsetAppend set ⟨key, [dot]⟩
    ({ placed with cc := ccAdd placed.cc dot }, counter + 1, ⟨⟨key, [dot]⟩, true, ccAdd Cc.empty dot⟩)

def orsetRemove (set : Orset) (key : Key) : Orset × OrsetDelta :=
  match orsetFind set key with
  | none => (set, OrsetDelta.zero)
  | some idx =>
    (orsetDrop set idx, { OrsetDelta.zero with cc := (orsetDots set idx).foldl ccAdd Cc.empty })

/-- The two loops that fill `merged[]` for an element both sides have. -/
def orsetMergeDots (setCc deltaCc : Cc) (dots deltaDots : List Dot) : List Dot :=
  deltaDots.foldl (fun merged d =>
    if merged.length < orsetMaxDots && !ccContains setCc d && !merged.any (fun m => dotEq m d)
    then merged ++ [d] else merged)
    ((dots.filter (fun d => !ccContains deltaCc d)).take orsetMaxDots)

/-- The remove-only loop at index `i`: an entry without dots is replaced by the last one, which comes next. Each round
lowers the count or raises the index. -/
def orsetSweep (deltaCc : Cc) : Nat → Nat → List OrsetEntry → List OrsetEntry
  | 0, _, entries => entries
  | rounds + 1, i, entries =>
    match entries[i]? with
    | none => entries
    | some e =>
      let surviving := e.dots.filter (fun d => !ccContains deltaCc d)
      if surviving.length = 0 then orsetSweep deltaCc rounds i (swapRemove entries i)
      else orsetSweep deltaCc rounds (i + 1) (entries.set i { e with dots := surviving })

def orsetApplyDelta (set : Orset) (delta : OrsetDelta) : Orset :=
  let merged :=
    if delta.hasEntry then
      match orsetFind set delta.entry.key with
      | some idx =>
        let merged := orsetMergeDots set.cc delta.cc (orsetDots set idx) delta.entry.dots
        if merged.length > 0 then orsetSetDots set idx (merged.take orsetMaxDots) else orsetDrop set idx
      | none =>
        let live := (delta.entry.dots.filter (fun d => !ccContains set.cc d)).take orsetMaxDots
        if live.length > 0 then orsetAppend set ⟨delta.entry.key, live⟩ else set
    else { set with entries := orsetSweep delta.cc set.entries.length 0 set.entries }
  { merged with cc := ccMerge set.cc delta.cc }

def Orset.dots (set : Orset) (key : Key) : List Dot :=
  ((lookup OrsetEntry.key set.entries key).map OrsetEntry.dots).getD []

structure Orset.WellFormed (set : Orset) : Prop where
  distinct : (set.entries.map OrsetEntry.key).Nodup
  inhabited : ∀ e ∈ set.entries, e.dots ≠ []
  bounded : ∀ e ∈ set.entries, e.dots.length ≤ orsetMaxDots
  keyed : set.cc.Keyed

lemma orsetInit_wellFormed (initialCap : Nat) : (orsetInit initialCap).WellFormed where
  distinct := by simp [orsetInit]
  inhabited := by simp [orsetInit]
  bounded := by simp [orsetInit]
  keyed := by simp [orsetInit, Cc.Keyed, Cc.replicas, Cc.empty]

lemma orsetContains_iff (set : Orset) (wf : set.WellFormed) (key : Key) :
    orsetContains set key = true ↔ set.dots key ≠ [] := by
  unfold orsetContains orsetFind Orset.dots
  cases found : set.entries.findIdx? (fun e => decide (e.key = key)) with
  | none =>
    have missing := (findIdx_eq_none OrsetEntry.key _ _).mp found
    simp [missing]
  | some idx =>
    obtain ⟨bound, located, _⟩ := findIdx_eq_some OrsetEntry.key found
    have stored := wf.inhabited _ (List.getElem_mem bound)
    simp [located, stored]

variable {set : Orset}

lemma Orset.WellFormed.dots_bounded (wf : set.WellFormed) (key : Key) : (set.dots key).length ≤ orsetMaxDots := by
  unfold Orset.dots
  cases located : lookup OrsetEntry.key set.entries key with
  | none => simp
  | some e => exact wf.bounded e ((lookup_eq_some OrsetEntry.key _ wf.distinct _ _).mp located).1

variable {key : Key}

lemma orsetFind_none (missing : orsetFind set key = none) : set.dots key = [] := by
  have absent := (findIdx_eq_none OrsetEntry.key _ _).mp missing
  simp [Orset.dots, absent]

variable {idx : Nat}

lemma orsetFind_some (found : orsetFind set key = some idx) : orsetDots set idx = set.dots key := by
  obtain ⟨bound, located, _⟩ := findIdx_eq_some OrsetEntry.key found
  simp [orsetDots, Orset.dots, located, bound]

@[simp] lemma orsetAppend_cc (set : Orset) (entry : OrsetEntry) : (orsetAppend set entry).cc = set.cc := by
  unfold orsetAppend orsetGrow
  split <;> rfl

lemma orsetAppend_entries (set : Orset) (entry : OrsetEntry) :
    (orsetAppend set entry).entries = set.entries ++ [entry] := by
  unfold orsetAppend orsetGrow
  split <;> rfl

lemma orsetSetDots_dots (found : orsetFind set key = some idx) (dots : List Dot) (other : Key) :
    (orsetSetDots set idx dots).dots other = if other = key then dots else set.dots other := by
  obtain ⟨bound, located, _⟩ := findIdx_eq_some OrsetEntry.key found
  unfold Orset.dots orsetSetDots
  rw [lookup_modify OrsetEntry.key (fun e => { e with dots := dots }) (fun _ => rfl) found, located]
  split <;> rfl

lemma orsetDrop_dots (wf : set.WellFormed) (found : orsetFind set key = some idx) (other : Key) :
    (orsetDrop set idx).dots other = if other = key then [] else set.dots other := by
  unfold Orset.dots orsetDrop
  rw [lookup_swapRemove OrsetEntry.key wf.distinct found]
  split <;> rfl

lemma orsetAppend_dots (missing : orsetFind set key = none) (dots : List Dot) (other : Key) :
    (orsetAppend set ⟨key, dots⟩).dots other = if other = key then dots else set.dots other := by
  have fresh := (lookup_eq_none OrsetEntry.key _ _).mp ((findIdx_eq_none OrsetEntry.key _ _).mp missing)
  unfold Orset.dots
  rw [orsetAppend_entries, lookup_append_fresh OrsetEntry.key _ ⟨key, dots⟩ fresh]
  split <;> rfl

lemma orsetSetDots_wellFormed (wf : set.WellFormed) (idx : Nat) {dots : List Dot} (some_ : dots ≠ [])
    (few : dots.length ≤ orsetMaxDots) : (orsetSetDots set idx dots).WellFormed where
  distinct := by
    have same := map_key_modify OrsetEntry.key set.entries idx (fun e => { e with dots := dots })
      (fun _ => rfl)
    simpa only [orsetSetDots, same] using wf.distinct
  inhabited e mem := by
    rcases mem_modify mem with old | ⟨_, _, rfl⟩
    · exact wf.inhabited e old
    · exact some_
  bounded e mem := by
    rcases mem_modify mem with old | ⟨_, _, rfl⟩
    · exact wf.bounded e old
    · exact few
  keyed := wf.keyed

lemma orsetDrop_wellFormed (wf : set.WellFormed) (found : orsetFind set key = some idx) :
    (orsetDrop set idx).WellFormed := by
  obtain ⟨bound, _, _⟩ := findIdx_eq_some OrsetEntry.key found
  have kept : ∀ e ∈ swapRemove set.entries idx, e ∈ set.entries := fun e mem =>
    (swapRemove_perm set.entries idx bound).mem_iff.mpr (List.mem_cons_of_mem _ mem)
  exact {
    distinct := map_key_swapRemove OrsetEntry.key _ wf.distinct idx bound
    inhabited := fun e mem => wf.inhabited e (kept e mem)
    bounded := fun e mem => wf.bounded e (kept e mem)
    keyed := wf.keyed }

lemma orsetAppend_wellFormed (wf : set.WellFormed) (missing : orsetFind set entry.key = none)
    (some_ : entry.dots ≠ []) (few : entry.dots.length ≤ orsetMaxDots) : (orsetAppend set entry).WellFormed := by
  have fresh := (lookup_eq_none OrsetEntry.key _ _).mp ((findIdx_eq_none OrsetEntry.key _ _).mp missing)
  constructor
  · rw [orsetAppend_entries]
    exact map_key_append_fresh OrsetEntry.key _ wf.distinct entry fresh
  · rw [orsetAppend_entries]
    exact List.forall_mem_append.mpr ⟨wf.inhabited, List.forall_mem_singleton.mpr some_⟩
  · rw [orsetAppend_entries]
    exact List.forall_mem_append.mpr ⟨wf.bounded, List.forall_mem_singleton.mpr few⟩
  · rw [orsetAppend_cc]
    exact wf.keyed

end LibOp.Crdt

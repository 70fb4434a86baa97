import LibOp.Foundation.KeyedList
import LibOp.Foundation.Runs

namespace LibOp.Crdt

open Foundation

abbrev Replica := Vector UInt8 8

structure Dot where
  replica : Replica
  counter : Nat
deriving DecidableEq

def dotEq (a b : Dot) : Bool := decide (a.replica = b.replica ∧ a.counter = b.counter)

def ccMaxReplicas : Nat := 32
def ccMaxOverflow : Nat := 64

structure CcEntry where
  replica : Replica
  maxContiguous : Nat
deriving DecidableEq

/-- The arrays `entries[0..count)` and `overflow[0..overflow_count)`. -/
structure Cc where
  entries : List CcEntry
  overflow : List Dot
deriving DecidableEq

def Cc.empty : Cc := ⟨[], []⟩

def ccContains (cc : Cc) (dot : Dot) : Bool :=
  (match cc.entries.find? (fun e => decide (e.replica = dot.replica)) with
    | some e => decide (dot.counter ≤ e.maxContiguous)
    | none => false) ||
  cc.overflow.any (fun d => dotEq d dot)

/-- The compaction loop of `op_crdt_cc_add` pulls overflow dots that follow the frontier. Every round but the last
shortens the array. -/
def ccCompact (replica : Replica) : Nat → Nat → List Dot → Nat × List Dot
  | 0, maxContiguous, overflow => (maxContiguous, overflow)
  | rounds + 1, maxContiguous, overflow =>
    match overflow.findIdx? (fun d => decide (d.replica = replica ∧ d.counter = maxContiguous + 1)) with
    | none => (maxContiguous, overflow)
    | some i => ccCompact replica rounds (maxContiguous + 1) (swapRemove overflow i)

def ccRegister (cc : Cc) (replica : Replica) : Option (Nat × Cc) :=
  match cc.entries.findIdx? (fun e => decide (e.replica = replica)) with
  | some i => some (i, cc)
  | none =>
    if cc.entries.length ≥ ccMaxReplicas then none
    else some (cc.entries.length, { cc with entries := cc.entries ++ [⟨replica, 0⟩] })

def ccAddAt (ridx : Nat) (cc : Cc) (dot : Dot) : Cc :=
  let maxContiguous := (cc.entries.map CcEntry.maxContiguous).getD ridx 0
  if dot.counter = maxContiguous + 1 then
    let compacted := ccCompact dot.replica cc.overflow.length dot.counter cc.overflow
    { entries := cc.entries.modify ridx (fun e => { e with maxContiguous := compacted.1 })
      overflow := compacted.2 }
  else if dot.counter > maxContiguous + 1 then
    if cc.overflow.length < ccMaxOverflow then { cc with overflow := cc.overflow ++ [dot] } else cc
  else cc

def ccAdd (cc : Cc) (dot : Dot) : Cc :=
  match ccRegister cc dot.replica with
  | none => cc
  | some (ridx, registered) => ccAddAt ridx registered dot

def ccMergeEntry (dst : Cc) (entry : CcEntry) : Cc :=
  match dst.entries.findIdx? (fun e => decide (e.replica = entry.replica)) with
  | some didx =>
    if entry.maxContiguous > (dst.entries.map CcEntry.maxContiguous).getD didx 0 then
      { dst with
        entries := dst.entries.modify didx (fun e => { e with maxContiguous := entry.maxContiguous }) }
    else dst
  | none =>
    if dst.entries.length < ccMaxReplicas then { dst with entries := dst.entries ++ [entry] } else dst

def ccMergeDot (dst : Cc) (dot : Dot) : Cc :=
  if ccContains dst dot then dst else ccAdd dst dot

def ccMerge (dst src : Cc) : Cc :=
  src.overflow.foldl ccMergeDot (src.entries.foldl ccMergeEntry dst)

lemma dotEq_iff (a b : Dot) : dotEq a b = true ↔ a = b := by
  cases a
  cases b
  simp [dotEq]

def frontier (entries : List CcEntry) (replica : Replica) : Nat :=
  ((lookup CcEntry.replica entries replica).map CcEntry.maxContiguous).getD 0

variable (cc : Cc)

lemma ccContains_iff (dot : Dot) (pos : 0 < dot.counter) :
    ccContains cc dot = true ↔ dot.counter ≤ frontier cc.entries dot.replica ∨ dot ∈ cc.overflow := by
  have scanned : cc.overflow.any (fun d => dotEq d dot) = true ↔ dot ∈ cc.overflow := by simp [dotEq_iff]
  unfold ccContains frontier lookup
  rw [Bool.or_eq_true, scanned]
  cases cc.entries.find? (fun e => decide (e.replica = dot.replica)) with
  | none =>
    have bad : ¬ dot.counter ≤ 0 := by omega
    simp [bad]
  | some e => simp

def Cc.replicas (cc : Cc) : List Replica := cc.entries.map CcEntry.replica

def Cc.Keyed (cc : Cc) : Prop := cc.replicas.Nodup

def Cc.Knows (cc : Cc) (replica : Replica) : Prop := replica ∈ cc.replicas

instance (cc : Cc) (replica : Replica) : Decidable (cc.Knows replica) :=
  inferInstanceAs (Decidable (_ ∈ _))

variable (replica : Replica)

lemma findIdx_unknown : cc.entries.findIdx? (fun e => decide (e.replica = replica)) = none ↔ ¬ cc.Knows replica := by
  rw [findIdx_eq_none CcEntry.replica, lookup_eq_none]
  rfl

lemma frontier_unknown (stranger : ¬ cc.Knows replica) : frontier cc.entries replica = 0 := by
  have missing := (lookup_eq_none CcEntry.replica cc.entries replica).mpr stranger
  simp [frontier, missing]

lemma findIdx_known (i : Nat) (found : cc.entries.findIdx? (fun e => decide (e.replica = replica)) = some i) :
    cc.Knows replica ∧ (cc.entries.map CcEntry.maxContiguous).getD i 0 = frontier cc.entries replica := by
  obtain ⟨bound, located, here⟩ := findIdx_eq_some CcEntry.replica found
  constructor
  · rw [← here]
    exact List.mem_map_of_mem (List.getElem_mem bound)
  · simp [frontier, located, bound]

lemma frontier_append (entry : CcEntry) (stranger : ¬ cc.Knows entry.replica)
    (other : Replica) : frontier (cc.entries ++ [entry]) other =
      if other = entry.replica then entry.maxContiguous else frontier cc.entries other := by
  unfold frontier
  rw [lookup_append_fresh _ _ _ stranger]
  split <;> rfl

lemma frontier_modify (replica other : Replica) (i m : Nat)
    (found : cc.entries.findIdx? (fun e => decide (e.replica = replica)) = some i) :
    frontier (cc.entries.modify i (fun e => { e with maxContiguous := m })) other =
      if other = replica then m else frontier cc.entries other := by
  obtain ⟨bound, located, _⟩ := findIdx_eq_some CcEntry.replica found
  unfold frontier
  rw [lookup_modify CcEntry.replica (fun e => { e with maxContiguous := m }) (fun _ => rfl) found, located]
  split <;> rfl

end LibOp.Crdt

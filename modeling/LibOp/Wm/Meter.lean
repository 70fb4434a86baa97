import Mathlib

namespace LibOp.Wm

structure Slot where
  tsMs : Nat
  count : Nat
deriving DecidableEq, Repr

/-- `op_wm_t`; the buckets from `n` on are not allocated. -/
structure Meter where
  n : Nat
  windowMs : Nat
  bucketMs : Nat
  buckets : Nat → Slot

def wmSetup (windowMs nBuckets : Nat) : Meter :=
  let nBuckets := if nBuckets = 0 then 1 else nBuckets
  let windowMs := if windowMs = 0 then 1 else windowMs
  let bucketMs := windowMs / nBuckets
  { n := nBuckets, windowMs := windowMs, bucketMs := if bucketMs = 0 then 1 else bucketMs, buckets := fun _ => ⟨0, 0⟩ }

/-- `now >= wm->buckets[i].ts_ms + wm->window_ms` -/
def expired (windowMs now : Nat) (slot : Slot) : Prop := now ≥ (slot.tsMs + windowMs) % 2 ^ 64

instance (windowMs now : Nat) (slot : Slot) : Decidable (expired windowMs now slot) :=
  inferInstanceAs (Decidable (_ ≥ _))

def advance (wm : Meter) (now : Nat) : Meter :=
  { wm with buckets := fun i => if expired wm.windowMs now (wm.buckets i) then ⟨0, 0⟩ else wm.buckets i }

def Meter.index (wm : Meter) (t : Nat) : Nat := t / wm.bucketMs % wm.n % 2 ^ 32

def Meter.epoch (wm : Meter) (t : Nat) : Nat := t / wm.bucketMs * wm.bucketMs

/-- The slot of the time `t`, cleared when it is of another epoch. -/
def Meter.slotAt (wm : Meter) (t : Nat) : Slot :=
  if (wm.buckets (wm.index t)).tsMs ≠ wm.epoch t then ⟨wm.epoch t, 0⟩ else wm.buckets (wm.index t)

def Meter.record (wm : Meter) (t n : Nat) : Meter :=
  let slot := wm.slotAt t
  { wm with buckets := Function.update wm.buckets (wm.index t) ⟨slot.tsMs, (slot.count + n) % 2 ^ 64⟩ }

def opWmAdd (wm : Meter) (t n : Nat) : Meter := (advance wm t).record t n

def opWmTick (wm : Meter) (t : Nat) : Meter := advance wm t

/-- `total += wm->buckets[i].count` for the first `n` buckets. -/
def totalCount (buckets : Nat → Slot) : Nat → Nat
  | 0 => 0
  | n + 1 => (totalCount buckets n + (buckets n).count) % 2 ^ 64

def opWmCount (wm : Meter) (t : Nat) : Meter × Nat :=
  let wm := advance wm t
  (wm, totalCount wm.buckets wm.n)

inductive Call where
  | add (nowMs n : Nat)
  | tick (nowMs : Nat)
  | count (nowMs : Nat)
deriving DecidableEq, Repr

def Call.time : Call → Nat
  | .add nowMs _ => nowMs
  | .tick nowMs => nowMs
  | .count nowMs => nowMs

def step (wm : Meter) : Call → Meter
  | .add nowMs n => opWmAdd wm nowMs n
  | .tick nowMs => opWmTick wm nowMs
  | .count nowMs => (opWmCount wm nowMs).1

def after (wm : Meter) (calls : List Call) : Meter := calls.foldl step wm

def additions : List Call → List (Nat × Nat)
  | [] => []
  | .add nowMs n :: rest => (nowMs, n) :: additions rest
  | _ :: rest => additions rest

end LibOp.Wm

import Mathlib

namespace LibOp.Clock

/-- Bits 63..16 are the wall-clock milliseconds, bits 15..0 the logical counter. -/
@[ext] structure Hlc where
  ts : UInt64
deriving DecidableEq

def hlcZero : Hlc := ⟨0⟩

def hlcWallMs (h : Hlc) : UInt64 := h.ts >>> 16

def hlcLogical (h : Hlc) : UInt16 := (h.ts &&& 0xFFFF).toUInt16

def hlcPack (wallMs : UInt64) (logical : UInt16) : Hlc := ⟨(wallMs <<< 16) ||| logical.toUInt64⟩

def hlcCmp (a b : Hlc) : Int := if a.ts < b.ts then -1 else if a.ts > b.ts then 1 else 0

/-- The new value of `*hlc`, also returned. -/
def hlcTick (hlc : Hlc) (nowMs : UInt64) : Hlc :=
  let lWall := hlcWallMs hlc
  if nowMs > lWall then hlcPack nowMs 0 else hlcPack lWall (hlcLogical hlc + 1)

def maxWall (nowMs lWall rWall : UInt64) : UInt64 :=
  let wall := if lWall > nowMs then lWall else nowMs
  if rWall > wall then rWall else wall

def newLog (maxWall lWall rWall : UInt64) (lLog rLog : UInt16) : UInt16 :=
  if maxWall = lWall ∧ maxWall = rWall then (if lLog > rLog then lLog else rLog) + 1
  else if maxWall = lWall then lLog + 1
  else if maxWall = rWall then rLog + 1
  else 0

def hlcRecv (hlc : Hlc) (nowMs : UInt64) (remote : Hlc) : Hlc :=
  let wall := maxWall nowMs (hlcWallMs hlc) (hlcWallMs remote)
  hlcPack wall (newLog wall (hlcWallMs hlc) (hlcWallMs remote) (hlcLogical hlc) (hlcLogical remote))

lemma hlcCmp_neg_iff (a b : Hlc) : hlcCmp a b < 0 ↔ a.ts.toNat < b.ts.toNat := by
  rw [← UInt64.lt_iff_toNat_lt]
  unfold hlcCmp
  split
  · simp_all
  · split <;> simp_all

lemma hlcCmp_zero_iff (a b : Hlc) : hlcCmp a b = 0 ↔ a.ts.toNat = b.ts.toNat := by
  simp only [hlcCmp, gt_iff_lt, UInt64.lt_iff_toNat_lt]
  split
  · omega
  · split <;> omega

lemma hlcWallMs_toNat (h : Hlc) : (hlcWallMs h).toNat = h.ts.toNat / 65536 := by
  simp [hlcWallMs, Nat.shiftRight_eq_div_pow]

lemma hlcLogical_toNat (h : Hlc) : (hlcLogical h).toNat = h.ts.toNat % 65536 := by
  have mask := Nat.and_two_pow_sub_one_eq_mod (h.ts.toNat % 65536) 16
  simp [hlcLogical, mask]

lemma hlcPack_toNat (wallMs : UInt64) (logical : UInt16) (bounded : wallMs.toNat < 2 ^ 48) :
    (hlcPack wallMs logical).ts.toNat = wallMs.toNat * 65536 + logical.toNat := by
  have small := logical.toNat_lt
  have joined := Nat.shiftLeft_add_eq_or_of_lt small wallMs.toNat
  have fits : wallMs.toNat <<< 16 < 2 ^ 64 := by omega
  change wallMs.toNat <<< 16 % 2 ^ 64 ||| logical.toNat = _
  rw [Nat.mod_eq_of_lt fits, ← joined, Nat.shiftLeft_eq]

lemma hlcWallMs_lt (h : Hlc) : (hlcWallMs h).toNat < 2 ^ 48 := by
  have bound := h.ts.toNat_lt
  rw [hlcWallMs_toNat]
  omega

lemma logical_succ_toNat (logical : UInt16) : (logical + 1).toNat = (logical.toNat + 1) % 65536 := by
  rfl

/-- The increment of the logical counter of `h` wraps: no wall clock of the call is above that of `h`. -/
def Exhausted (nowMs : UInt64) (inputs : List Hlc) (h : Hlc) : Prop :=
  hlcLogical h = 0xFFFF ∧ nowMs ≤ hlcWallMs h ∧ ∀ other ∈ inputs, hlcWallMs other ≤ hlcWallMs h

lemma exhausted_iff (nowMs : UInt64) (inputs : List Hlc) (h : Hlc) :
    Exhausted nowMs inputs h ↔ h.ts.toNat % 65536 = 65535 ∧ nowMs.toNat ≤ h.ts.toNat / 65536 ∧
      ∀ other ∈ inputs, other.ts.toNat / 65536 ≤ h.ts.toNat / 65536 := by
  simp only [Exhausted, ← UInt16.toNat_inj, UInt64.le_iff_toNat_le, hlcWallMs_toNat, hlcLogical_toNat]
  rfl

lemma hlcTick_toNat (hlc : Hlc) (nowMs : UInt64) (bounded : nowMs.toNat < 2 ^ 48) : (hlcTick hlc nowMs).ts.toNat =
      if hlc.ts.toNat / 65536 < nowMs.toNat then nowMs.toNat * 65536
      else hlc.ts.toNat / 65536 * 65536 + (hlc.ts.toNat % 65536 + 1) % 65536 := by
  unfold hlcTick
  simp only [gt_iff_lt, UInt64.lt_iff_toNat_lt, hlcWallMs_toNat]
  split
  · rw [hlcPack_toNat _ _ bounded, UInt16.toNat_zero, Nat.add_zero]
  · rw [hlcPack_toNat _ _ (hlcWallMs_lt hlc), logical_succ_toNat, hlcLogical_toNat, hlcWallMs_toNat]

lemma hlcTick_increases_iff {nowMs : UInt64} (bounded : nowMs.toNat < 2 ^ 48) :
    hlc.ts.toNat < (hlcTick hlc nowMs).ts.toNat ↔ ¬ Exhausted nowMs [hlc] hlc := by
  have ticked := hlcTick_toNat hlc nowMs bounded
  rw [exhausted_iff, List.forall_mem_singleton]
  split at ticked <;> omega

lemma maxWall_toNat (nowMs lWall rWall : UInt64) :
    (maxWall nowMs lWall rWall).toNat = max (max nowMs.toNat lWall.toNat) rWall.toNat := by
  simp only [maxWall, gt_iff_lt, UInt64.lt_iff_toNat_lt]
  split <;> split <;> omega

lemma newLog_toNat (wall lWall rWall : UInt64) (lLog rLog : UInt16) : (newLog wall lWall rWall lLog rLog).toNat =
      if wall.toNat = lWall.toNat ∧ wall.toNat = rWall.toNat then (max lLog.toNat rLog.toNat + 1) % 65536
      else if wall.toNat = lWall.toNat then (lLog.toNat + 1) % 65536
      else if wall.toNat = rWall.toNat then (rLog.toNat + 1) % 65536 else 0 := by
  simp only [newLog, ← UInt64.toNat_inj, gt_iff_lt, UInt16.lt_iff_toNat_lt]
  split
  · rw [logical_succ_toNat]
    split <;> omega
  · split
    · exact logical_succ_toNat lLog
    · split
      · exact logical_succ_toNat rLog
      · rfl

variable {hlc remote : Hlc} {nowMs : UInt64}

lemma exhausted_pair_iff : Exhausted nowMs [hlc, remote] h ↔
    h.ts.toNat % 65536 = 65535 ∧
      max (max nowMs.toNat (hlc.ts.toNat / 65536)) (remote.ts.toNat / 65536) ≤ h.ts.toNat / 65536 := by
  simp [exhausted_iff]

lemma hlcRecv_toNat (bounded : nowMs.toNat < 2 ^ 48) : ∃ wall, wall =
    max (max nowMs.toNat (hlc.ts.toNat / 65536)) (remote.ts.toNat / 65536) ∧
      (hlcRecv hlc nowMs remote).ts.toNat = wall * 65536 +
        if wall = hlc.ts.toNat / 65536 ∧ wall = remote.ts.toNat / 65536 then
          (max (hlc.ts.toNat % 65536) (remote.ts.toNat % 65536) + 1) % 65536
        else if wall = hlc.ts.toNat / 65536 then (hlc.ts.toNat % 65536 + 1) % 65536
        else if wall = remote.ts.toNat / 65536 then (remote.ts.toNat % 65536 + 1) % 65536 else 0 := by
  have lBound := hlcWallMs_lt hlc
  have rBound := hlcWallMs_lt remote
  have wall := maxWall_toNat nowMs (hlcWallMs hlc) (hlcWallMs remote)
  have packed : (hlcRecv hlc nowMs remote).ts.toNat = _ :=
    hlcPack_toNat (maxWall nowMs (hlcWallMs hlc) (hlcWallMs remote)) _ (by omega)
  rw [newLog_toNat, hlcLogical_toNat, hlcLogical_toNat, hlcWallMs_toNat, hlcWallMs_toNat] at packed
  rw [hlcWallMs_toNat, hlcWallMs_toNat] at wall
  exact ⟨_, wall, packed⟩

lemma not_exhausted_of_lt_hlcRecv (bounded : nowMs.toNat < 2 ^ 48) (mem : h ∈ [hlc, remote])
    (increases : h.ts.toNat < (hlcRecv hlc nowMs remote).ts.toNat) : ¬ Exhausted nowMs [hlc, remote] h := by
  obtain ⟨wall, largest, packed⟩ := @hlcRecv_toNat hlc remote nowMs bounded
  rw [exhausted_pair_iff, ← largest]
  rintro ⟨spent, top⟩
  simp only [List.mem_cons, List.not_mem_nil, or_false] at mem
  rcases mem with rfl | rfl <;> split_ifs at packed <;> omega

lemma hlcRecv_increases (bounded : nowMs.toNat < 2 ^ 48) (spare : ¬ Exhausted nowMs [hlc, remote] hlc)
    (remoteSpare : ¬ Exhausted nowMs [hlc, remote] remote) :
    hlc.ts.toNat < (hlcRecv hlc nowMs remote).ts.toNat ∧ remote.ts.toNat < (hlcRecv hlc nowMs remote).ts.toNat := by
  obtain ⟨wall, largest, packed⟩ := @hlcRecv_toNat hlc remote nowMs bounded
  rw [exhausted_pair_iff, ← largest] at spare remoteSpare
  split_ifs at packed <;> omega

end LibOp.Clock

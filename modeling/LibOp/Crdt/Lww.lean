import LibOp.Clock.Hlc
import LibOp.Crdt.CausalContext
import LibOp.Foundation.LastWriter

namespace LibOp.Crdt

open Clock Foundation

def lwwValueMax : Nat := 512

/-- The whole array `value`; only its first `value_len` bytes count. -/
structure Lww where
  buffer : List UInt8
  valueLen : Nat
  hlc : Hlc
  writer : Replica
  full : buffer.length = lwwValueMax
  fits : valueLen ≤ lwwValueMax

def lwwZero : Lww where
  buffer := List.replicate lwwValueMax 0
  valueLen := 0
  hlc := hlcZero
  writer := Vector.replicate 8 0
  full := List.length_replicate
  fits := Nat.zero_le _

def memcmp : List UInt8 → List UInt8 → Int
  | x :: a, y :: b => if x = y then memcmp a b else if x < y then -1 else 1
  | _, _ => 0

def memcpy (dst src : List UInt8) : List UInt8 := src ++ dst.drop src.length

lemma length_memcpy (dst src : List UInt8) (room : src.length ≤ dst.length) : (memcpy dst src).length = dst.length := by
  simp only [memcpy, List.length_append, List.length_drop]
  omega

def lwwSet (reg : Lww) (value : List UInt8) (hlc : Hlc) (writer : Replica) : Lww × Bool :=
  if long : value.length > lwwValueMax then (reg, false)
  else if hlcCmp hlc reg.hlc < 0 then (reg, false)
  else if hlcCmp hlc reg.hlc = 0 ∧ memcmp writer.toList reg.writer.toList ≤ 0 then (reg, false)
  else
    ({ buffer := memcpy reg.buffer value
       valueLen := value.length
       hlc := hlc
       writer := writer
       full := by
         rw [length_memcpy _ _ (by rw [reg.full]; omega)]
         exact reg.full
       fits := by omega }, true)

def Lww.value (reg : Lww) : List UInt8 := reg.buffer.take reg.valueLen

def lwwMerge (lwwLocal lwwRemote : Lww) : Lww × Bool :=
  lwwSet lwwLocal lwwRemote.value lwwRemote.hlc lwwRemote.writer

structure Write where
  value : List UInt8
  hlc : Hlc
  writer : Replica
deriving DecidableEq

def Lww.content (reg : Lww) : Write := ⟨reg.value, reg.hlc, reg.writer⟩

def lwwRank (w : Write) : Nat ×ₗ List Nat := toLex (w.hlc.ts.toNat, w.writer.toList.map UInt8.toNat)

lemma memcmp_pos_iff (a b : List UInt8) (same : a.length = b.length) :
    0 < memcmp a b ↔ b.map UInt8.toNat < a.map UInt8.toNat := by
  induction a generalizing b with
  | nil =>
    cases b with
    | nil => simp [memcmp]
    | cons y b => cases same
  | cons x a ih =>
    cases b with
    | nil => cases same
    | cons y b =>
      have tail := ih b (by simpa using same)
      simp only [memcmp, List.map_cons, List.cons_lt_cons_iff]
      by_cases equal : x = y
      · subst equal
        simpa using tail
      · have apart : ¬ y.toNat = x.toNat := fun h => equal (UInt8.toNat_inj.mp h.symm)
        by_cases less : x < y
        · have bound := UInt8.lt_iff_toNat_lt.mp less
          simp only [equal, less, apart, ↓reduceIte, false_and, or_false]
          omega
        · have bound := UInt8.lt_iff_toNat_lt.not.mp less
          simp only [equal, less, apart, ↓reduceIte, false_and, or_false]
          omega

lemma lwwRank_lt_iff (old new : Write) : lwwRank old < lwwRank new ↔ ¬ hlcCmp new.hlc old.hlc < 0 ∧
      ¬ (hlcCmp new.hlc old.hlc = 0 ∧ memcmp new.writer.toList old.writer.toList ≤ 0) := by
  have bytes := memcmp_pos_iff new.writer.toList old.writer.toList (by simp)
  unfold lwwRank
  rw [Prod.Lex.toLex_lt_toLex, ← bytes, hlcCmp_neg_iff, hlcCmp_zero_iff]
  omega

lemma value_memcpy (buffer value : List UInt8) : (memcpy buffer value).take value.length = value := by
  simp [memcpy]

lemma lwwSet_content (reg : Lww) (w : Write) (short : w.value.length ≤ lwwValueMax) :
    (lwwSet reg w.value w.hlc w.writer).1.content = latest lwwRank reg.content w := by
  have decided := lwwRank_lt_iff reg.content w
  unfold lwwSet latest
  rw [dif_neg (by omega)]
  split
  next older => rw [if_neg (fun later => (decided.mp later).1 older)]
  next notOlder =>
    split
    next tie => rw [if_neg (fun later => (decided.mp later).2 tie)]
    next notTie =>
      rw [if_pos (decided.mpr ⟨notOlder, notTie⟩)]
      simp [Lww.content, Lww.value, value_memcpy]

lemma length_value (reg : Lww) : reg.value.length = reg.valueLen := by
  rw [Lww.value, List.length_take, reg.full]
  exact Nat.min_eq_left reg.fits

lemma lwwMerge_content (lwwLocal lwwRemote : Lww) :
    (lwwMerge lwwLocal lwwRemote).1.content = latest lwwRank lwwLocal.content lwwRemote.content := by
  apply lwwSet_content lwwLocal lwwRemote.content
  rw [Lww.content, length_value]
  exact lwwRemote.fits

end LibOp.Crdt

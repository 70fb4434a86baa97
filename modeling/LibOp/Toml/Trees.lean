import LibOp.Foundation.Doubling
import LibOp.Foundation.Outcomes
import LibOp.Toml.Statements

namespace LibOp.Toml

open Foundation Strings List YieldsWhen

/-- At the next element, the doubled capacity is no `int`. -/
def maxCount : Nat := 2 ^ 30

def roomFor (n : Nat) : Int := doubledCapacity 8 n

def tableOf (kv : List (List UInt8 × Tv)) : Table := ⟨kv, roomFor kv.length⟩

def arrOf (items : List Tv) : Arr := ⟨items, roomFor items.length⟩

lemma grow_full {size n : Nat} (sizes : size = sizeofKv ∨ size = sizeofTv) (nonzero : n ≠ 0) (bound : n ≤ maxCount) :
    grow size n n = if n < maxCount then some (n * 2 : Int) else none := by
  have nonzero' := Int.natCast_ne_zero.mpr nonzero
  rw [grow, if_neg (Int.lt_irrefl n), if_pos nonzero']
  split_ifs with room
  · have small : wrapInt (n * 2) = n * 2 := by
      rw [maxCount] at room
      rw [wrapInt, Int.bmod_eq_of_le] <;> omega
    have enough : reallocates (n * 2) size = true := by
      rw [maxCount] at room
      have count : (n * 2 : Int) % 2 ^ 64 = n * 2 := Int.emod_eq_of_lt (by omega) (by omega)
      have bytes : (n * 2 * size : Int) < 2 ^ 63 := by
        rcases sizes with rfl | rfl
        · rw [sizeofKv]
          omega
        · rw [sizeofTv]
          omega
      have nonneg : (0 : Int) ≤ n * 2 * size :=
        Int.mul_nonneg (Int.mul_nonneg (Int.natCast_nonneg n) (by decide)) (Int.natCast_nonneg size)
      have noWrap : (n * 2 * size : Int) % 2 ^ 64 = n * 2 * size :=
        Int.emod_eq_of_lt nonneg (Int.lt_trans bytes (by decide))
      rw [reallocates, count, noWrap]
      exact decide_eq_true bytes
    simp [small, enough]
  · have last : n = maxCount := by omega
    rw [last]
    rcases sizes with rfl | rfl <;> rfl

lemma grow_roomFor {size n : Nat} (sizes : size = sizeofKv ∨ size = sizeofTv) (bound : n ≤ maxCount) :
    grow size n (roomFor n) = if n < maxCount then some (roomFor (n + 1)) else none := by
  have atMost : doubledCapacity 8 n ≤ 8 * 2 ^ 27 := doubledCapacity_le (by decide) bound
  have enough : n ≤ doubledCapacity 8 n := le_doubledCapacity (by decide) n
  rcases Nat.lt_or_eq_of_le enough with room | full
  · have below : n < maxCount := Nat.lt_of_lt_of_le room atMost
    rw [grow, roomFor, if_pos (Int.ofNat_lt.mpr room), if_pos below, roomFor, doubledCapacity_of_lt room]
  · by_cases zero : n = 0
    · rw [zero]
      rcases sizes with rfl | rfl <;> rfl
    · rw [roomFor, ← full, grow_full sizes zero bound, roomFor, doubledCapacity_of_full zero full.symm, Int.natCast_mul]
      rfl

lemma tableInsert_tableOf (bound : kv.length ≤ maxCount) (key : List UInt8) (val : Tv) :
    YieldsWhen (tableInsert (tableOf kv) key val) (kv.length < maxCount) (tableOf (kv ++ [(key, val)])) := by
  have grown := grow_roomFor (.inl rfl) bound
  have counted : (kv ++ [(key, val)]).length = kv.length + 1 := length_append
  have room := (of_ite (P := kv.length < maxCount) (roomFor (kv.length + 1))).map
    fun cap => Table.mk (kv ++ [(key, val)]) cap
  rwa [← grown, ← counted] at room

lemma arrPush_arrOf (bound : items.length ≤ maxCount) (item : Tv) :
    YieldsWhen (arrPush (arrOf items) item) (items.length < maxCount) (arrOf (items ++ [item])) := by
  have grown := grow_roomFor (.inr rfl) bound
  have counted : (items ++ [item]).length = items.length + 1 := length_append
  have room := (of_ite (P := items.length < maxCount) (roomFor (items.length + 1))).map
    fun cap => Arr.mk (items ++ [item]) cap
  rwa [← grown, ← counted] at room

lemma foldlM_arrPush (bound : items.length ≤ maxCount) (l : List Tv) :
    YieldsWhen (l.foldlM arrPush (arrOf items)) (items.length + l.length ≤ maxCount) (arrOf (items ++ l)) := by
  induction l generalizing items with
  | nil =>
    rw [append_nil]
    exact (of_some (arrOf items)).congr (iff_of_true trivial bound)
  | cons item l ih =>
    have counted : (items ++ [item]).length = items.length + 1 := length_append
    have pushed := (arrPush_arrOf bound item).foldlM_cons (l := l) fun room => ih (counted ▸ room)
    rw [counted, append_assoc, singleton_append] at pushed
    apply pushed.congr
    rw [length_cons]
    omega

def Value.tv : Value → Tv
  | .str s => .str s.bytes
  | .int n => .int n.1
  | .bool b => .bool b
  | .strs l => (arrOf (l.map fun s => Tv.str s.bytes)).tv
  | .ints l => (arrOf (l.map fun n : LongInt => Tv.int n.1)).tv

def Value.Fits : Value → Prop
  | .strs l => l.length ≤ maxCount
  | .ints l => l.length ≤ maxCount
  | _ => True

lemma array_build {τ : Type} (tv : τ → Tv) (l : List τ) :
    YieldsWhen (((l.map tv).foldlM arrPush arrNew).map Arr.tv) (l.length ≤ maxCount) (arrOf (l.map tv)).tv := by
  have empty : ([] : List Tv).length ≤ maxCount := Nat.zero_le _
  have pushed := foldlM_arrPush empty (l.map tv)
  rw [length_nil, Nat.zero_add, length_map] at pushed
  exact pushed.map Arr.tv

lemma Value.yields_build (v : Value) : YieldsWhen v.build v.Fits v.tv := by
  cases v with
  | str s | int n | bool b => exact of_some _
  | strs l | ints l => exact array_build _ l

def entryKv (l : List (CStr × Value)) : List (List UInt8 × Tv) := l.map fun e => (e.1.bytes, e.2.tv)

def LinesFit (l : List (CStr × Value)) : Prop := ∀ e ∈ l, e.2.Fits

def Entries.table (t : Entries) : Table := tableOf (entryKv t.list)

def Entries.Fits (t : Entries) : Prop := t.list.length ≤ maxCount ∧ LinesFit t.list

def tablesTv (l : List Entries) : List Tv := l.map fun t => t.table.tv

def Section.tv : Section → Tv
  | .table t => t.table.tv
  | .tables first others => (arrOf (tablesTv (first :: others))).tv

def Section.Fits : Section → Prop
  | .table t => t.Fits
  | .tables first others => (first :: others).length ≤ maxCount ∧ ∀ t ∈ first :: others, t.Fits

def sectionKv (sections : List (Name × Section)) : List (List UInt8 × Tv) :=
  sections.map fun e => (e.1.bytes, e.2.tv)

def rootKv (values : List (CStr × Value)) (sections : List (Name × Section)) : List (List UInt8 × Tv) :=
  entryKv values ++ sectionKv sections

def Document.table (d : Document) : Table := tableOf (rootKv d.values d.sections)

def TreeFits (values : List (CStr × Value)) (sections : List (Name × Section)) : Prop :=
  values.length + sections.length ≤ maxCount ∧ LinesFit values ∧ ∀ e ∈ sections, e.2.Fits

def Document.Fits (d : Document) : Prop := TreeFits d.values d.sections

end LibOp.Toml

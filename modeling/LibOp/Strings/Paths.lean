import LibOp.Foundation.Bytes

namespace LibOp.Strings

open Foundation List

/-- The position of the last `c`; the strings of this module are without their NUL. -/
def strrchr (text : List UInt8) (c : UInt8) : Option Nat :=
  if c ∈ text then some (text.length - 1 - text.reverse.idxOf c) else none

/-- What `op_strlcpy` leaves in `dest`, not written for size 0, and its result. -/
def opStrlcpy (src : List UInt8) (size : Nat) : Option (List UInt8) × Nat :=
  let ret := src.length
  if size ≠ 0 then
    let len := if ret ≥ size then size - 1 else ret
    (some (src.take len), ret)
  else (none, ret)

/-- There is no result where the allocation stays without a NUL. -/
def opStrndup (x : List UInt8) (y : Nat) : Option (List UInt8) := (opStrlcpy x y).1

lemma opStrndup_eq (x : List UInt8) (some : y ≠ 0) : opStrndup x y = .some (x.take (y - 1)) := by
  rw [opStrndup, opStrlcpy, if_pos some]
  dsimp only
  split
  · rfl
  · rw [take_of_length_le (by omega), take_of_length_le (by omega)]

def opBasename (path : List UInt8) : List UInt8 :=
  match strrchr path slash with
  | none => path
  | some s => path.drop (s + 1)

/-- `while (s > path && *s == '/') --s;` -/
def stepBack (path : List UInt8) : Nat → Nat
  | 0 => 0
  | s + 1 => if path[s + 1]? = some slash then stepBack path s else s + 1

def opDirname (path : List UInt8) : Option (List UInt8) :=
  match strrchr path slash with
  | none => some [0x2E]
  | some s => opStrndup path (stepBack path s + 1)

lemma strrchr_append {text : List UInt8} (before : List UInt8) (last : c ∉ text) :
    strrchr (before ++ c :: text) c = some before.length := by
  have behind : (before ++ c :: text).reverse.idxOf c = text.length := by
    rw [reverse_append, reverse_cons, append_assoc, idxOf_append_of_notMem (by rwa [mem_reverse])]
    simp
  rw [strrchr, if_pos (by simp), behind, length_append, length_cons]
  congr 1
  omega

lemma stepBack_slashes {path : List UInt8} {last : Nat} (other : last = 0 ∨ path[last]? ≠ some slash) (count : Nat)
    (slashes : ∀ i < count, path[last + i + 1]? = some slash) : stepBack path (last + count) = last := by
  induction count with
  | zero => cases last <;> simp_all [stepBack]
  | succ count ih =>
    rw [← Nat.add_assoc, stepBack, if_pos (slashes count (Nat.lt_succ_self count))]
    exact ih fun i short => slashes i (Nat.lt_succ_of_lt short)

/-- `op_strndup` counts the NUL, so the copy loses a character. -/
theorem path_split (dir file : List UInt8) (slashes : Nat) (ends : dir.getLast? ≠ some slash) (plain : slash ∉ file) :
    opBasename (dir ++ replicate (slashes + 1) slash ++ file) = file ∧
      opDirname (dir ++ replicate (slashes + 1) slash ++ file) = some dir.dropLast ∧
      (opDirname (dir ++ replicate (slashes + 1) slash ++ file) = some dir ↔ dir = []) := by
  have found : strrchr (dir ++ replicate (slashes + 1) slash ++ file) slash = some (dir.length + slashes) := by
    have position := strrchr_append (dir ++ replicate slashes slash) plain
    rw [replicate_succ', append_assoc, append_assoc, singleton_append, ← append_assoc, position, length_append,
      length_replicate]
  have back : stepBack (dir ++ replicate (slashes + 1) slash ++ file) (dir.length + slashes) = dir.length - 1 := by
    rw [show dir.length + slashes = dir.length - 1 + (dir.length + slashes - (dir.length - 1)) by omega]
    apply stepBack_slashes
    · by_cases none : dir.length - 1 = 0
      · exact .inl none
      · rw [append_assoc, getElem?_append_left (by omega), ← getLast?_eq_getElem?]
        exact .inr ends
    · intro i short
      rw [getElem?_append_left (by simp; omega), getElem?_append_right (by omega), getElem?_replicate, if_pos (by omega)]
  have copied : opDirname (dir ++ replicate (slashes + 1) slash ++ file) = some dir.dropLast := by
    simp only [opDirname, found, back]
    rw [opStrndup_eq _ (Nat.succ_ne_zero _), Nat.succ_sub_one, append_assoc, take_append_of_le_length (by omega),
      dropLast_eq_take]
  refine ⟨?_, copied, ?_⟩
  · unfold opBasename
    rw [found]
    exact drop_left' (by simp; omega)
  · rw [copied, Option.some_inj]
    constructor
    · intro same
      have size := congrArg length same
      rw [length_dropLast] at size
      exact length_eq_zero_iff.mp (by omega)
    · intro empty
      rw [empty, dropLast_nil]

theorem path_split_shared : opBasename [0x61, 0x62, 0x2F, 0x63] = [0x63] ∧
    opDirname [0x61, 0x62, 0x2F, 0x63] = some [0x61] ∧
    (opDirname [0x61, 0x62, 0x2F, 0x63] = some [0x61, 0x62] ↔ ([0x61, 0x62] : List UInt8) = []) :=
  path_split [0x61, 0x62] [0x63] 0 (by decide) (by decide)

theorem dirname_empty : opDirname [0x61, 0x2F, 0x62] = some [] := by
  decide

end LibOp.Strings

import LibOp.Foundation.Bytes

open LibOp.Foundation List

namespace LibOp.Strings

def castInt (n : Nat) : Int := if n % 2 ^ 32 < 2 ^ 31 then (n % 2 ^ 32 : Nat) else (n % 2 ^ 32 : Nat) - 2 ^ 32

/-- What prints a string. The latter two return the length as an `int`. -/
inductive Source where
  | format (bytes : List UInt8)
  | formatArgs (bytes : List UInt8) (fits : bytes.length < 2 ^ 31)
  | func (bytes : List UInt8) (fits : bytes.length < 2 ^ 31)

def Source.bytes : Source → List UInt8
  | .format bytes => bytes
  | .formatArgs bytes _ => bytes
  | .func bytes _ => bytes

def Source.ret : Source → Int
  | .format bytes => castInt bytes.length
  | .formatArgs bytes _ => bytes.length
  | .func bytes _ => bytes.length

structure Strf where
  length : Nat
  source : Source

/-- `(size_t)ret` of a result that is not negative. -/
def Strf.size (string : Strf) : Nat := string.source.ret.toNat

/-- The buffer, the value returned, and the bytes each string added. -/
structure Printed where
  buf : List UInt8
  ret : Int
  added : List Nat

/-- The loop of `op_fsnprint`, without result when a write lies outside of the buffer. -/
def fsnprintLoop (len : Nat) (buf : List UInt8) (used remaining : Nat) (added : List Nat) : List Strf → Option Printed
  | [] => some { buf, ret := castInt used, added }
  | string :: strings =>
    let remaining := if string.length ≠ 0 then min string.length (len - used) else remaining
    if remaining = 0 then some { buf, ret := castInt used, added }
    else (storeAll buf used (string.source.bytes.take (remaining - 1) ++ [0])).bind fun buf =>
      if string.source.ret < 0 then some { buf, ret := string.source.ret, added }
      else
        let next := if string.size ≥ remaining then used + (remaining - 1) else used + string.size
        if next ≥ len - 1 then some { buf, ret := castInt (len - 1), added := added ++ [len - 1 - used] }
        else fsnprintLoop len buf next (len - next) (added ++ [next - used]) strings

def opFsnprint (buf : List UInt8) (strings : List Strf) : Option Printed :=
  fsnprintLoop buf.length buf 0 buf.length [] strings

/-- The bytes that each string adds to a buffer of `len` bytes with `used` bytes in it. -/
def increments (len : Nat) : (used : Nat) → List Strf → List Nat
  | _, [] => []
  | used, string :: strings =>
    let room := if string.length ≠ 0 then min string.length (len - used) else len - used
    let count := min string.size (room - 1)
    if string.source.ret < 0 then []
    else if used + count ≥ len - 1 then [count]
    else count :: increments len (used + count) strings

lemma castInt_le (n : Nat) : castInt n ≤ n := by
  unfold castInt
  split_ifs <;> omega

lemma storeAll_terminated (bytes : List UInt8) {used room : Nat} (pos : 0 < room) (inside : used + room ≤ buf.length) :
    ∃ written, storeAll buf used (bytes.take (room - 1) ++ [0]) = some written ∧ written.length = buf.length ∧
      0 ∈ written := by
  have size : (bytes.take (room - 1) ++ [0]).length ≤ room := by
    rw [length_append, length_take, length_singleton]
    omega
  refine ⟨_, storeAll_eq buf used _ (by omega), ?_, by simp⟩
  rw [length_append, length_append, length_take, length_drop]
  omega

lemma fsnprintLoop_eq (len : Nat) (buf : List UInt8) (used : Nat) (added : List Nat) (strings : List Strf)
    (size : buf.length = len) (inside : used < len) (terminated : strings = [] → 0 ∈ buf) :
    ∃ printed, fsnprintLoop len buf used (len - used) added strings = some printed ∧
      printed.ret ≤ (len - 1 : Nat) ∧ printed.buf.length = len ∧ 0 ∈ printed.buf ∧
      printed.added = added ++ increments len used strings := by
  induction strings generalizing buf used added with
  | nil =>
    refine ⟨_, rfl, ?_, size, terminated rfl, (append_nil added).symm⟩
    have := castInt_le used
    change castInt used ≤ _
    omega
  | cons string strings ih =>
    have bounded := castInt_le (len - 1)
    simp only [fsnprintLoop, increments]
    generalize roomEq : (if string.length ≠ 0 then min string.length (len - used) else len - used) = room
    have pos : 0 < room ∧ room ≤ len - used := by
      rw [← roomEq]
      split_ifs <;> omega
    obtain ⟨written, stored, length, nul⟩ := storeAll_terminated string.source.bytes pos.1
      (show used + room ≤ buf.length by omega)
    rw [if_neg (Nat.ne_of_gt pos.1), stored, Option.bind_some]
    by_cases negative : string.source.ret < 0
    · rw [if_pos negative, if_pos negative]
      refine ⟨_, rfl, ?_, length.trans size, nul, (append_nil added).symm⟩
      change string.source.ret ≤ _
      omega
    · have next : (if string.size ≥ room then used + (room - 1) else used + string.size) =
          used + min string.size (room - 1) := by
        split_ifs <;> omega
      rw [if_neg negative, if_neg negative, next]
      by_cases full : used + min string.size (room - 1) ≥ len - 1
      · rw [if_pos full, if_pos full]
        refine ⟨_, rfl, bounded, length.trans size, nul, ?_⟩
        change added ++ [len - 1 - used] = added ++ [_]
        congr 2
        omega
      · obtain ⟨printed, loop, ret, kept, ended, counts⟩ := ih written (used + min string.size (room - 1))
          (added ++ [min string.size (room - 1)]) (length.trans size) (by omega) (fun _ => nul)
        rw [if_neg full, if_neg full, Nat.add_sub_cancel_left]
        refine ⟨printed, loop, ret, kept, ended, ?_⟩
        rw [counts, append_assoc, singleton_append]

def followers (strings : List Strf) (i : Nat) : List Strf := (strings.drop (i + 1)).takeWhile (·.length == 0)

def contribution (strings : List Strf) (added : List Nat) (i : Nat) : Nat :=
  ((added.drop i).take ((followers strings i).length + 1)).sum

def wanted (strings : List Strf) : Nat := ((strings.takeWhile (0 ≤ ·.source.ret)).map Strf.size).sum

lemma wanted_cons (string : Strf) (strings : List Strf) :
    wanted (string :: strings) = if 0 ≤ string.source.ret then string.size + wanted strings else 0 := by
  unfold wanted
  split_ifs with nonneg
  · rw [takeWhile_cons_of_pos (by simpa using nonneg), map_cons, sum_cons]
  · rw [takeWhile_cons_of_neg (by simpa using nonneg)]
    rfl

variable (len used : Nat)

lemma sum_increments_unlimited (group rest : List Strf)
    (unlimited : ∀ string ∈ group, string.length = 0) (inside : used < len) :
    ((increments len used (group ++ rest)).take group.length).sum = min (wanted group) (len - 1 - used) := by
  induction group generalizing used with
  | nil => simp [wanted]
  | cons string group ih =>
    obtain ⟨here, later⟩ := List.forall_mem_cons.mp unlimited
    rw [cons_append, increments, wanted_cons]
    simp only [here, ne_eq, not_true_eq_false, if_false]
    by_cases negative : string.source.ret < 0
    · rw [if_pos negative, if_neg (by omega)]
      simp
    · rw [if_neg negative, if_pos (show 0 ≤ string.source.ret by omega)]
      by_cases full : used + min string.size (len - used - 1) ≥ len - 1
      · rw [if_pos full, length_cons, take_succ_cons, take_nil, sum_singleton]
        omega
      · rw [if_neg full, length_cons, take_succ_cons, sum_cons, ih _ later (by omega)]
        omega

lemma increments_drop (strings : List Strf) (inside : used < len) (i : Nat)
    (reached : i < (increments len used strings).length) :
    used + ((increments len used strings).take i).sum < len ∧ (increments len used strings).drop i =
        increments len (used + ((increments len used strings).take i).sum) (strings.drop i) := by
  induction i generalizing used strings with
  | zero => exact ⟨inside, rfl⟩
  | succ i ih =>
    cases strings with
    | nil => cases reached
    | cons string strings =>
      rw [increments] at reached ⊢
      generalize min string.size ((if string.length ≠ 0 then min string.length (len - used) else len - used) - 1) =
        count at reached ⊢
      split_ifs at reached ⊢ with negative full
      · cases reached
      · simp at reached
      · rw [take_succ_cons, drop_succ_cons, sum_cons, ← add_assoc, drop_succ_cons]
        exact ih (used + count) strings (by omega) (Nat.lt_of_succ_lt_succ reached)

lemma sum_group (string : Strf) (strings : List Strf) (limited : string.length ≠ 0)
    (inside : used < len) (printed : 0 ≤ string.source.ret) :
    ((increments len used (string :: strings)).take ((strings.takeWhile (·.length == 0)).length + 1)).sum =
      min (min string.size (min string.length (len - used) - 1) + wanted (strings.takeWhile (·.length == 0)))
        (len - 1 - used) := by
  rw [increments, if_pos limited, if_neg (show ¬string.source.ret < 0 by omega)]
  by_cases full : used + min string.size (min string.length (len - used) - 1) ≥ len - 1
  · rw [if_pos full, take_succ_cons, take_nil, sum_singleton]
    omega
  · have unlimited : ∀ other ∈ strings.takeWhile (·.length == 0), other.length = 0 := by
      intro other mem
      exact beq_iff_eq.mp (mem_takeWhile_imp (p := fun other : Strf => other.length == 0) mem)
    have tail := sum_increments_unlimited len (used + min string.size (min string.length (len - used) - 1))
      (strings.takeWhile (·.length == 0)) (strings.dropWhile (·.length == 0)) unlimited (by omega)
    rw [takeWhile_append_dropWhile] at tail
    rw [if_neg full, take_succ_cons, sum_cons, tail]
    omega

lemma contribution_le_iff (len : Nat) (strings : List Strf) (ne : 0 < len)
    (here : strings[i]? = some string) (limited : string.length ≠ 0) :
    contribution strings (increments len 0 strings) i ≤ string.length - 1 ↔ (i < (increments len 0 strings).length →
        len - ((increments len 0 strings).take i).sum ≤ string.length ∨
          min string.size (string.length - 1) + wanted (followers strings i) ≤ string.length - 1) := by
  by_cases reached : i < (increments len 0 strings).length
  · obtain ⟨within, rfl⟩ := List.getElem?_eq_some_iff.mp here
    obtain ⟨inside, tail⟩ := increments_drop len 0 strings ne i reached
    rw [zero_add, drop_eq_getElem_cons within] at tail
    rw [zero_add] at inside
    have printed : 0 ≤ strings[i].source.ret := by
      by_contra negative
      have length := congrArg List.length tail
      rw [increments, if_pos (by omega), length_drop, length_nil] at length
      omega
    rw [contribution, tail, followers, sum_group _ _ _ _ limited inside printed]
    omega
  · rw [contribution, drop_of_length_le (by omega)]
    simp [reached]

/-- The value returned and the NUL stay within the buffer. A limited string and its followers keep to the limit exactly
when all of them fit, or the buffer ends before it. -/
theorem fsnprint_limits_iff (buf : List UInt8) (strings : List Strf) (room : 0 < buf.length) (nonempty : strings ≠ []) :
    ∃ printed, opFsnprint buf strings = some printed ∧
      printed.ret ≤ (buf.length - 1 : Nat) ∧ printed.buf.length = buf.length ∧ 0 ∈ printed.buf ∧
      ((∀ i string, strings[i]? = some string → string.length ≠ 0 →
          contribution strings printed.added i ≤ string.length - 1) ↔
        ∀ i string, strings[i]? = some string → string.length ≠ 0 → i < (increments buf.length 0 strings).length →
          buf.length - ((increments buf.length 0 strings).take i).sum ≤ string.length ∨
            min string.size (string.length - 1) + wanted (followers strings i) ≤ string.length - 1) := by
  obtain ⟨printed, result, ret, size, nul, counts⟩ := fsnprintLoop_eq buf.length buf 0 [] strings rfl room
    (fun empty => absurd empty nonempty)
  refine ⟨printed, result, ret, size, nul, ?_⟩
  rw [counts]
  constructor
  · intro kept i string here limited
    exact (contribution_le_iff buf.length strings room here limited).mp (kept i string here limited)
  · intro fits i string here limited
    exact (contribution_le_iff buf.length strings room here limited).mpr (fits i string here limited)

/-- Two bytes under a limit of five, and six more from the string that follows. -/
theorem limit_not_carried : ∃ printed, opFsnprint (List.replicate 20 0)
        [⟨5, .format [0x61, 0x62]⟩, ⟨0, .format [0x63, 0x64, 0x65, 0x66, 0x67, 0x68]⟩] = some printed ∧
      contribution [⟨5, .format [0x61, 0x62]⟩, ⟨0, .format [0x63, 0x64, 0x65, 0x66, 0x67, 0x68]⟩] printed.added 0 = 8 :=
  ⟨_, rfl, rfl⟩

theorem fsnprint_limits_follower :
    let strings := [⟨5, .format [0x61, 0x62]⟩, ⟨0, .format [0x63, 0x64]⟩]
    ∃ printed, opFsnprint (List.replicate 8 0) strings = some printed ∧ printed.ret ≤ 7 ∧ printed.buf.length = 8 ∧
      0 ∈ printed.buf ∧ contribution strings printed.added 0 ≤ 4 := by
  intro strings
  obtain ⟨printed, result, ret, size, nul, limits⟩ :=
    fsnprint_limits_iff (List.replicate 8 0) strings (by decide) (by decide)
  refine ⟨printed, result, ret, size, nul, limits.mpr ?_ 0 _ rfl (by decide)⟩
  intro i string here limited _
  rcases i with _ | _ | i
  · cases here
    exact .inr (by decide)
  · cases here
    exact absurd rfl limited
  · cases here

end LibOp.Strings

import LibOp.Foundation.Bytes
import LibOp.Strings.SimdScan

open LibOp.Foundation List Option Nat

namespace LibOp.Strings

def colon : UInt8 := 0x3A

/-! ### Splitting in place

Positions are offsets into the memory that the string starts. There is no result when an access lies outside of it. -/

def slice (cells : List UInt8) (first last : Nat) : List UInt8 := (cells.drop first).take (last - first)

def strlen (cells : List UInt8) : Option Nat :=
  if cells.findIdx (· == 0) < cells.length then some (cells.findIdx (· == 0)) else none

/-- The loop of `op_string_to_array` and what follows it; `parv` are the entries so far. -/
def splitLoop (isa : Isa) (maxpara strEnd : Nat) (cells : List UInt8) (parv : List Nat) (xbuf : Nat) :
    Option (List UInt8 × List Nat) := do
  let c ← cells[xbuf]?
  if c = colon then some (cells, parv ++ [xbuf + 1])
  else
    let sp ← opSimdFindDelim isa (slice cells xbuf strEnd) space 0
    let delim ← cells[xbuf + sp]?
    if delim = space then
      let cells ← store cells (xbuf + sp) 0
      let skip ← opSimdCountLeading isa (slice cells (xbuf + sp + 1) strEnd) space
      let next ← cells[xbuf + sp + 1 + skip]?
      if next = 0 then some (cells, parv ++ [xbuf])
      else if _more : (parv ++ [xbuf]).length < maxpara - 1 then
        splitLoop isa maxpara strEnd cells (parv ++ [xbuf]) (xbuf + sp + 1 + skip)
      else if next = colon then some (cells, parv ++ [xbuf, xbuf + sp + 1 + skip + 1])
      else some (cells, parv ++ [xbuf, xbuf + sp + 1 + skip])
    else some (cells, parv ++ [xbuf])
termination_by maxpara - parv.length
decreasing_by
  rw [List.length_append, List.length_singleton] at *
  omega

/-- The memory afterwards and the entries of `parv`. -/
def opStringToArray (isa : Isa) (string : List UInt8) (maxpara : Nat) : Option (List UInt8 × List Nat) := do
  let first ← string[0]?
  if first = 0 then some (string, [])
  else
    let strEnd ← strlen string
    let xbuf ← opSimdCountLeading isa (slice string 0 strEnd) space
    let c ← string[xbuf]?
    if c = 0 then some (string, []) else splitLoop isa maxpara strEnd string [] xbuf

/-- At most `limit` parameters: words between runs of spaces, where a word with a colon, and the last one allowed, stand
for all of the rest, without that colon. -/
def referenceSplit : (limit : Nat) → List UInt8 → List (List UInt8)
  | 0, _ => []
  | limit + 1, text =>
    match text.dropWhile (· == space) with
    | [] => []
    | c :: rest =>
      if c = colon then [rest]
      else if limit = 0 then [c :: rest]
      else (c :: rest).takeWhile (· != space) :: referenceSplit limit ((c :: rest).dropWhile (· != space))

lemma slice_append (before text after : List UInt8) :
    slice (before ++ (text ++ after)) before.length (before.length + text.length) = text := by
  rw [slice, drop_left, Nat.add_sub_cancel_left, take_left]

lemma getElem?_append_cons (before after : List UInt8) (c : UInt8) :
    (before ++ c :: after)[before.length]? = some c := by
  rw [getElem?_append_right le_rfl, Nat.sub_self, getElem?_cons_zero]

lemma store_append_cons (before after : List UInt8) (c value : UInt8) :
    store (before ++ c :: after) before.length value = some (before ++ value :: after) := by
  rw [store_of_lt (by simp), set_append_right _ _ le_rfl, Nat.sub_self, set_cons_zero]

lemma findIdx_append_cons {stop : UInt8 → Bool} (none : ∀ c ∈ l, stop c = false)
    (found : stop c = true) (rest : List UInt8) : (l ++ c :: rest).findIdx stop = l.length := by
  rw [findIdx_append, if_neg (by rw [findIdx_eq_length_of_false none]; exact lt_irrefl _), findIdx_cons, found]
  exact zero_add _

structure IsWord (word : List UInt8) : Prop where
  nonempty : word ≠ []
  noSpace : space ∉ word
  noNul : 0 ∉ word
  noColon : word.head? ≠ some colon

variable {word : List UInt8}

lemma IsWord.noDelim (shape : IsWord word) : ∀ c ∈ word, isDelim space 0 c = false := by
  intro c mem
  simp only [isDelim, Bool.or_eq_false_iff, beq_eq_false_iff_ne]
  refine ⟨?_, ?_⟩ <;> rintro rfl
  · exact shape.noSpace mem
  · exact shape.noNul mem

section Steps

variable {isa : Isa} {maxpara strEnd : Nat} {cells written : List UInt8} {parv : List Nat} {xbuf sp skip : Nat}
  {c delim next : UInt8}

lemma splitLoop_colon (here : cells[xbuf]? = some colon) :
    splitLoop isa maxpara strEnd cells parv xbuf = some (cells, parv ++ [xbuf + 1]) := by
  rw [splitLoop, here]
  rfl

variable (here : cells[xbuf]? = some c) (head : c ≠ colon)
  (scan : opSimdFindDelim isa (slice cells xbuf strEnd) space 0 = some sp)

include here head scan

lemma splitLoop_end (found : cells[xbuf + sp]? = some delim) (last : delim ≠ space) :
    splitLoop isa maxpara strEnd cells parv xbuf = some (cells, parv ++ [xbuf]) := by
  rw [splitLoop, here]
  simp only [bind_eq_bind, bind_some, if_neg head, scan, found, if_neg last]

lemma splitLoop_space (found : cells[xbuf + sp]? = some space) (cut : store cells (xbuf + sp) 0 = some written)
    (count : opSimdCountLeading isa (slice written (xbuf + sp + 1) strEnd) space = some skip)
    (behind : written[xbuf + sp + 1 + skip]? = some next) :
    splitLoop isa maxpara strEnd cells parv xbuf = if next = 0 then some (written, parv ++ [xbuf])
      else if parv.length + 1 < maxpara - 1 then
        splitLoop isa maxpara strEnd written (parv ++ [xbuf]) (xbuf + sp + 1 + skip)
      else if next = colon then some (written, parv ++ [xbuf, xbuf + sp + 1 + skip + 1])
      else some (written, parv ++ [xbuf, xbuf + sp + 1 + skip]) := by
  rw [splitLoop, here]
  simp only [bind_eq_bind, bind_some, if_neg head, scan, found, if_true, cut, count, behind,
    length_append, length_singleton, dite_eq_ite]

end Steps

lemma IsWord.start (shape : IsWord word) (before tail : List UInt8) :
    ∃ c ≠ colon, (before ++ (word ++ tail))[before.length]? = some c := by
  obtain ⟨c, others, rfl⟩ := exists_cons_of_ne_nil shape.nonempty
  refine ⟨c, ?_, by rw [cons_append, getElem?_append_cons]⟩
  rintro rfl
  exact shape.noColon head?_cons

lemma splitLoop_lastWord (isa : Isa) (maxpara : Nat) (parv : List Nat) (before after : List UInt8)
    (shape : IsWord word) :
    splitLoop isa maxpara (before.length + word.length) (before ++ (word ++ 0 :: after)) parv before.length =
      some (before ++ (word ++ 0 :: after), parv ++ [before.length]) := by
  obtain ⟨c, head, here⟩ := shape.start before (0 :: after)
  have scan : opSimdFindDelim isa (slice (before ++ (word ++ 0 :: after)) before.length
      (before.length + word.length)) space 0 = some word.length := by
    rw [slice_append, opSimdFindDelim_eq, findIdx_eq_length_of_false shape.noDelim]
  have found : (before ++ (word ++ 0 :: after))[before.length + word.length]? = some 0 := by
    rw [← append_assoc, ← length_append, getElem?_append_cons]
  exact splitLoop_end here head scan found (by decide)

variable {blanks rest : List UInt8}

lemma count_blanks (spaces : ∀ c ∈ blanks, c = space) (start : rest.head? ≠ some space) :
    (blanks ++ rest).findIdx (· != space) = blanks.length := by
  have none : ∀ c ∈ blanks, (c != space) = false := by
    intro c mem
    rw [spaces c mem, bne_self_eq_false]
  cases rest with
  | nil => rw [append_nil, findIdx_eq_length_of_false none]
  | cons c rest =>
    have other : c ≠ space := fun same => start (by rw [head?_cons, same])
    exact findIdx_append_cons none (bne_iff_ne.mpr other) rest

lemma splitLoop_word (isa : Isa) (maxpara : Nat) (parv : List Nat) (before after : List UInt8) (shape : IsWord word)
    (spaces : ∀ c ∈ blanks, c = space) (start : rest.head? ≠ some space) (cut : List UInt8)
    (cutEq : before ++ word ++ 0 :: blanks = cut) (next : UInt8) (first : (rest ++ 0 :: after).head? = some next) :
    splitLoop isa maxpara (before.length + (word ++ space :: (blanks ++ rest)).length)
      (before ++ (word ++ space :: (blanks ++ rest) ++ 0 :: after)) parv before.length =
      if next = 0 then some (cut ++ (rest ++ 0 :: after), parv ++ [before.length])
      else if parv.length + 1 < maxpara - 1 then
        splitLoop isa maxpara (cut.length + rest.length) (cut ++ (rest ++ 0 :: after)) (parv ++ [before.length])
          cut.length
      else if next = colon then some (cut ++ (rest ++ 0 :: after), parv ++ [before.length, cut.length + 1])
      else some (cut ++ (rest ++ 0 :: after), parv ++ [before.length, cut.length]) := by
  obtain ⟨c, head, here⟩ := shape.start before (space :: (blanks ++ rest) ++ 0 :: after)
  rw [← append_assoc word] at here
  have position : before.length + word.length + 1 + blanks.length = cut.length := by
    simp only [← cutEq, length_append, length_cons]
    omega
  have strEnd : before.length + (word ++ space :: (blanks ++ rest)).length = cut.length + rest.length := by
    simp only [← cutEq, length_append, length_cons]
    omega
  have cells : before ++ (word ++ space :: (blanks ++ rest) ++ 0 :: after) =
      (before ++ word) ++ space :: (blanks ++ rest ++ 0 :: after) := by simp
  have text := slice_append before (word ++ space :: (blanks ++ rest)) (0 :: after)
  rw [strEnd] at text ⊢
  rw [cells] at here text ⊢
  have scan := opSimdFindDelim_eq isa (word ++ space :: (blanks ++ rest)) space 0
  rw [findIdx_append_cons shape.noDelim (by decide), ← text] at scan
  have found := getElem?_append_cons (before ++ word) (blanks ++ rest ++ 0 :: after) space
  have stored := store_append_cons (before ++ word) (blanks ++ rest ++ 0 :: after) space 0
  have written : (before ++ word) ++ 0 :: (blanks ++ rest ++ 0 :: after) = cut ++ (rest ++ 0 :: after) := by
    simp [← cutEq]
  rw [length_append] at found stored
  rw [written] at stored
  have count : opSimdCountLeading isa (slice (cut ++ (rest ++ 0 :: after)) (before.length + word.length + 1)
      (cut.length + rest.length)) space = some blanks.length := by
    have range := slice_append (before ++ word ++ [0]) (blanks ++ rest) (0 :: after)
    have same : before ++ word ++ [0] ++ (blanks ++ rest ++ 0 :: after) = cut ++ (rest ++ 0 :: after) := by
      simp [← cutEq]
    have low : (before ++ word ++ [0]).length = before.length + word.length + 1 := by
      rw [length_append, length_append, length_singleton]
    rw [same, low, length_append, ← add_assoc, position] at range
    rw [opSimdCountLeading_eq, range, count_blanks spaces start]
  have behind : (cut ++ (rest ++ 0 :: after))[before.length + word.length + 1 + blanks.length]? = some next := by
    obtain ⟨more, moreEq⟩ : ∃ more, rest ++ 0 :: after = next :: more := List.head?_eq_some_iff.mp first
    rw [position, moreEq, getElem?_append_cons]
  rw [splitLoop_space here head scan found stored count behind, position]

variable (limit : Nat)

lemma referenceSplit_blanks (spaces : ∀ c ∈ blanks, c = space)
    (rest : List UInt8) : referenceSplit limit (blanks ++ rest) = referenceSplit limit rest := by
  cases limit with
  | zero => rfl
  | succ limit =>
    have dropped : (blanks ++ rest).dropWhile (· == space) = rest.dropWhile (· == space) := by
      apply dropWhile_append_of_pos
      intro c mem
      rw [spaces c mem, beq_self_eq_true]
    rw [referenceSplit, dropped]
    rfl

lemma referenceSplit_nil : referenceSplit limit [] = [] := by
  cases limit <;> rfl

lemma referenceSplit_colon (rest : List UInt8) : referenceSplit (limit + 1) (colon :: rest) = [rest] := rfl

variable {text : List UInt8}

lemma referenceSplit_last (start : text.head? ≠ some space) (other : text.head? ≠ some colon) (nonempty : text ≠ []) :
    referenceSplit 1 text = [text] := by
  obtain ⟨c, rest, rfl⟩ := exists_cons_of_ne_nil nonempty
  rw [head?_cons, ne_eq, some_inj] at start other
  rw [referenceSplit, dropWhile_cons_of_neg (by simpa using start)]
  simp only [if_neg other, if_true]

lemma referenceSplit_word (shape : IsWord word) (ends : more = [] ∨ more.head? = some space) :
    referenceSplit (limit + 2) (word ++ more) = word :: referenceSplit (limit + 1) more := by
  have letters : ∀ c ∈ word, (c != space) = true := by
    intro c mem
    rw [bne_iff_ne]
    rintro rfl
    exact shape.noSpace mem
  have stop : more.takeWhile (· != space) = [] ∧ more.dropWhile (· != space) = more := by
    rcases ends with rfl | first
    · exact ⟨rfl, rfl⟩
    · obtain ⟨rest, rfl⟩ := List.head?_eq_some_iff.mp first
      exact ⟨takeWhile_cons_of_neg (by decide), dropWhile_cons_of_neg (by decide)⟩
  have taken : (word ++ more).takeWhile (· != space) = word := by
    rw [takeWhile_append_of_pos letters, stop.1, append_nil]
  have dropped : (word ++ more).dropWhile (· != space) = more := by rw [dropWhile_append_of_pos letters, stop.2]
  obtain ⟨c, tail, rfl⟩ := exists_cons_of_ne_nil shape.nonempty
  have head : c ≠ colon := fun same => shape.noColon (by rw [head?_cons, same])
  have first : c ≠ space := bne_iff_ne.mp (letters c mem_cons_self)
  rw [cons_append] at taken dropped ⊢
  rw [referenceSplit, dropWhile_cons_of_neg (by simpa using first)]
  simp only [if_neg head, succ_ne_zero, if_false, taken, dropped]

lemma exists_blanks (text : List UInt8) :
    ∃ blanks rest, text = blanks ++ rest ∧ (∀ c ∈ blanks, c = space) ∧ rest.head? ≠ some space := by
  refine ⟨text.takeWhile (· == space), text.dropWhile (· == space), List.takeWhile_append_dropWhile.symm, ?_, ?_⟩
  · intro c mem
    exact beq_iff_eq.mp (mem_takeWhile_imp (p := (· == space)) mem)
  · intro first
    have outside := head?_dropWhile_not (· == space) text
    rw [first] at outside
    simp at outside

lemma exists_word (nonempty : text ≠ []) (start : text.head? ≠ some space) (other : text.head? ≠ some colon)
    (noNul : 0 ∉ text) : IsWord text ∨ ∃ word blanks rest, IsWord word ∧ text = word ++ space :: (blanks ++ rest) ∧
      (∀ c ∈ blanks, c = space) ∧ rest.head? ≠ some space := by
  by_cases spaces : space ∈ text
  · obtain ⟨word, more, rfl, noSpace⟩ := eq_append_cons_of_mem spaces
    have wordNonempty : word ≠ [] := by
      rintro rfl
      exact start rfl
    have head : (word ++ space :: more).head? = word.head? := by
      obtain ⟨c, tail, rfl⟩ := exists_cons_of_ne_nil wordNonempty
      rfl
    rw [head] at other
    obtain ⟨blanks, rest, rfl, shape⟩ := exists_blanks more
    exact .inr ⟨word, blanks, rest,
      ⟨wordNonempty, noSpace, fun mem => noNul (mem_append_left _ mem), other⟩, rfl, shape⟩
  · exact .inl ⟨nonempty, spaces, noNul, other⟩

lemma cString_entry (before : List UInt8) (noNul : 0 ∉ text) (rest : List UInt8) :
    cString ((before ++ (text ++ 0 :: rest)).drop before.length) = text := by
  rw [drop_left, cString_append_zero noNul]

lemma cString_entry_next (before : List UInt8) (c : UInt8) (noNul : 0 ∉ text) (rest : List UInt8) :
    cString ((before ++ (c :: text ++ 0 :: rest)).drop (before.length + 1)) = text := by
  have entry := cString_entry (before ++ [c]) noNul rest
  rwa [append_assoc, singleton_append, length_append, length_singleton] at entry

lemma splitLoop_reference (isa : Isa) (maxpara limit : Nat) (parv : List Nat) (before text after : List UInt8)
    (room : maxpara = parv.length + (limit + 2)) (noNul : 0 ∉ text) (nonempty : text ≠ [])
    (start : text.head? ≠ some space) :
    ∃ tail entries, splitLoop isa maxpara (before.length + text.length) (before ++ (text ++ 0 :: after)) parv
        before.length = some (before ++ tail, parv ++ entries) ∧
      entries.map (fun entry => cString ((before ++ tail).drop entry)) = referenceSplit (limit + 2) text := by
  induction limit using Nat.strong_induction_on generalizing parv before text with
  | h limit ih =>
    by_cases first : text.head? = some colon
    · obtain ⟨rest, rfl⟩ := List.head?_eq_some_iff.mp first
      refine ⟨colon :: rest ++ 0 :: after, [before.length + 1], ?_, ?_⟩
      · exact splitLoop_colon (getElem?_append_cons before _ colon)
      · rw [map_singleton, cString_entry_next before colon (fun mem => noNul (mem_cons_of_mem _ mem)),
          referenceSplit_colon]
    · rcases exists_word nonempty start first noNul with shape | ⟨word, blanks, rest, shape, rfl, spaces, behind⟩
      · refine ⟨text ++ 0 :: after, [before.length], splitLoop_lastWord isa maxpara parv before after shape, ?_⟩
        have whole := referenceSplit_word limit shape (.inl rfl)
        rw [append_nil, referenceSplit_nil] at whole
        rw [map_singleton, cString_entry before noNul, whole]
      · have reference : referenceSplit (limit + 2) (word ++ space :: (blanks ++ rest)) =
            word :: referenceSplit (limit + 1) rest := by
          rw [referenceSplit_word limit shape (.inr rfl), ← cons_append, referenceSplit_blanks]
          exact List.forall_mem_cons.mpr ⟨rfl, spaces⟩
        rw [reference]
        generalize cutEq : before ++ word ++ 0 :: blanks = cut
        have memory (tail : List UInt8) : before ++ (word ++ 0 :: (blanks ++ tail)) = cut ++ tail := by simp [← cutEq]
        have entry (tail : List UInt8) : cString ((cut ++ tail).drop before.length) = word := by
          rw [← memory, cString_entry before shape.noNul]
        have step := splitLoop_word isa maxpara parv before after shape spaces behind cut cutEq
        cases rest with
        | nil =>
          refine ⟨word ++ 0 :: (blanks ++ 0 :: after), [before.length], ?_, ?_⟩
          · rw [step 0 rfl, if_pos rfl, memory]
            rfl
          · rw [memory, map_singleton, entry, referenceSplit_nil]
        | cons d rest =>
          have nonzero : d ≠ 0 := by
            rintro rfl
            exact noNul (by simp)
          have restNul : 0 ∉ d :: rest := fun mem => noNul (by simp [List.mem_cons.mp mem])
          rw [step d rfl, if_neg nonzero]
          by_cases more : parv.length + 1 < maxpara - 1
          · obtain ⟨below, rfl⟩ : ∃ below, limit = below + 1 := ⟨limit - 1, by omega⟩
            obtain ⟨tail, entries, loop, params⟩ := ih below (lt_succ_self _) (parv ++ [before.length]) cut
              (d :: rest) (by rw [length_append, length_singleton]; omega) restNul (cons_ne_nil _ _)
              behind
            refine ⟨word ++ 0 :: (blanks ++ tail), before.length :: entries, ?_, ?_⟩
            · rw [if_pos more, loop, memory, append_assoc, singleton_append]
            · rw [memory, map_cons, entry, params]
          · obtain rfl : limit = 0 := by omega
            rw [if_neg more]
            by_cases last : d = colon
            · refine ⟨word ++ 0 :: (blanks ++ (d :: rest ++ 0 :: after)), [before.length, cut.length + 1], ?_, ?_⟩
              · rw [if_pos last, memory]
              · rw [memory, map_cons, map_singleton, entry,
                  cString_entry_next cut d (fun mem => restNul (mem_cons_of_mem _ mem)), last, referenceSplit_colon]
            · refine ⟨word ++ 0 :: (blanks ++ (d :: rest ++ 0 :: after)), [before.length, cut.length], ?_, ?_⟩
              · rw [if_neg last, memory]
              · rw [memory, map_cons, map_singleton, entry, cString_entry cut restNul,
                  referenceSplit_last behind (by simpa using last) (cons_ne_nil _ _)]

lemma referenceSplit_length (text : List UInt8) : (referenceSplit limit text).length ≤ limit := by
  fun_induction referenceSplit limit text with
  | case1 => exact le_refl 0
  | case2 => exact zero_le _
  | case3 | case4 => simp
  | case5 =>
    rename_i ih
    exact succ_le_succ ih

lemma strlen_append (noNul : 0 ∉ text) (after : List UInt8) : strlen (text ++ 0 :: after) = some text.length := by
  have none : ∀ c ∈ text, (c == 0) = false := by
    intro c mem
    rw [beq_eq_false_iff_ne]
    rintro rfl
    exact noNul mem
  rw [strlen, findIdx_append_cons none (beq_self_eq_true 0), if_pos (by simp)]

lemma opStringToArray_split (isa : Isa) (text after : List UInt8) (noNul : 0 ∉ text)
    (params : 2 ≤ maxpara) : ∃ memory parv, opStringToArray isa (text ++ 0 :: after) maxpara = some (memory, parv) ∧
      parv.map (fun entry => cString (memory.drop entry)) = referenceSplit maxpara text := by
  obtain ⟨limit, rfl⟩ := Nat.exists_eq_add_of_le' params
  obtain ⟨blanks, rest, rfl, spaces, start⟩ := exists_blanks text
  have range : slice (blanks ++ rest ++ 0 :: after) 0 (blanks ++ rest).length = blanks ++ rest := by
    have whole := slice_append [] (blanks ++ rest) (0 :: after)
    rwa [nil_append, length_nil, zero_add] at whole
  rw [referenceSplit_blanks _ spaces, opStringToArray, strlen_append noNul]
  by_cases empty : blanks ++ rest = []
  · obtain ⟨rfl, rfl⟩ := List.append_eq_nil_iff.mp empty
    exact ⟨[] ++ [] ++ 0 :: after, [], rfl, (referenceSplit_nil _).symm⟩
  · obtain ⟨c, more, first⟩ := exists_cons_of_ne_nil empty
    have nonzero : c ≠ 0 := by
      rintro rfl
      exact noNul (by rw [first]; exact mem_cons_self)
    have head : (blanks ++ rest ++ 0 :: after)[0]? = some c := by rw [first]; rfl
    simp only [bind_eq_bind, bind_some, head, if_neg nonzero, range, opSimdCountLeading_eq, count_blanks spaces start]
    rw [append_assoc, length_append]
    cases rest with
    | nil =>
      rw [nil_append, getElem?_append_cons]
      exact ⟨_, [], rfl, (referenceSplit_nil _).symm⟩
    | cons d rest =>
      have behind : d ≠ 0 := by
        rintro rfl
        exact noNul (mem_append_right _ mem_cons_self)
      rw [cons_append, getElem?_append_cons, bind_some, if_neg behind, ← cons_append]
      obtain ⟨tail, entries, loop, split⟩ := splitLoop_reference isa (limit + 2) limit [] blanks (d :: rest) after
        (by rw [length_nil, zero_add]) (fun mem => noNul (mem_append_right _ mem)) (cons_ne_nil _ _)
        start
      exact ⟨_, _, loop, split⟩

/-- The entries of `parv`, read after the call, are those of the reference split. -/
theorem opStringToArray_reference (isa : Isa) (text after : List UInt8) (noNul : 0 ∉ text) (maxpara : Nat)
    (params : 2 ≤ maxpara) :
    ∃ memory parv, opStringToArray isa (text ++ 0 :: after) maxpara = some (memory, parv) ∧
      parv.map (fun entry => cString (memory.drop entry)) = referenceSplit maxpara text ∧
      parv.length = (referenceSplit maxpara text).length ∧ parv.length ≤ maxpara := by
  obtain ⟨memory, parv, result, entries⟩ := opStringToArray_split isa text after noNul params
  have count := congrArg List.length entries
  rw [length_map] at count
  exact ⟨memory, parv, result, entries, count, count ▸ referenceSplit_length maxpara text⟩

theorem opStringToArray_trailing :
    ∃ memory parv, opStringToArray .avx2 ([0x41, 0x20, 0x23, 0x62, 0x20, 0x3A, 0x63, 0x20, 0x64] ++ 0 :: []) 15 =
        some (memory, parv) ∧
      parv.map (fun entry => cString (memory.drop entry)) = [[0x41], [0x23, 0x62], [0x63, 0x20, 0x64]] ∧
      parv.length = 3 ∧ parv.length ≤ 15 :=
  opStringToArray_reference .avx2 [0x41, 0x20, 0x23, 0x62, 0x20, 0x3A, 0x63, 0x20, 0x64] [] (by decide) 15 (by decide)

/-- After the leading spaces there is nothing, a colon, or a single word. -/
def SingleParameter (text : List UInt8) : Prop :=
  (text.dropWhile (· == space)).head? = some colon ∨
    ((text.dropWhile (· == space)).dropWhile (· != space)).dropWhile (· == space) = []

lemma referenceSplit_two_iff (text : List UInt8) : (referenceSplit 2 text).length ≤ 1 ↔ SingleParameter text := by
  rw [referenceSplit, SingleParameter]
  cases text.dropWhile (· == space) with
  | nil => simp
  | cons c rest =>
    by_cases last : c = colon
    · simp [last]
    · simp only [referenceSplit, if_neg last, one_ne_zero, if_false]
      generalize ((c :: rest).dropWhile (· != space)).dropWhile (· == space) = more
      cases more with
      | nil => simp [last]
      | cons d more => by_cases colon : d = colon <;> simp [last, colon]

lemma opStringToArray_one (isa : Isa) (string : List UInt8) :
    opStringToArray isa string 1 = opStringToArray isa string 2 := by
  have once (strEnd : Nat) (cells : List UInt8) (xbuf : Nat) :
      splitLoop isa 1 strEnd cells [] xbuf = splitLoop isa 2 strEnd cells [] xbuf := by
    rw [splitLoop, splitLoop]
    simp
  simp only [opStringToArray, once]

/-- With room for one entry the loop stores what it stores with room for two. -/
theorem parv_bound_iff (isa : Isa) (text after : List UInt8) (noNul : 0 ∉ text) (maxpara : Nat) (params : 1 ≤ maxpara) :
    ∃ memory parv, opStringToArray isa (text ++ 0 :: after) maxpara = some (memory, parv) ∧
      (parv.length ≤ maxpara ↔ 2 ≤ maxpara ∨ SingleParameter text) := by
  rcases lt_or_eq_of_le params with many | rfl
  · obtain ⟨memory, parv, result, entries⟩ := opStringToArray_split isa text after noNul many
    have count := congrArg List.length entries
    rw [length_map] at count
    exact ⟨memory, parv, result, iff_of_true (count ▸ referenceSplit_length maxpara text) (.inl many)⟩
  · obtain ⟨memory, parv, result, entries⟩ := opStringToArray_split isa text after noNul (le_refl 2)
    have count := congrArg List.length entries
    rw [length_map] at count
    refine ⟨memory, parv, (opStringToArray_one isa _).trans result, ?_⟩
    rw [count, referenceSplit_two_iff]
    simp

theorem parv_bound_single_word :
    ∃ memory parv, opStringToArray .sse2 ([0x20, 0x61, 0x62, 0x20] ++ 0 :: []) 1 = some (memory, parv) ∧
      parv.length ≤ 1 := by
  obtain ⟨memory, parv, result, bound⟩ := parv_bound_iff .sse2 [0x20, 0x61, 0x62, 0x20] [] (by decide) 1 (le_refl 1)
  exact ⟨memory, parv, result, bound.mpr (.inr (.inr (by decide)))⟩

theorem one_entry_overrun : opStringToArray .scalar [0x61, 0x20, 0x62, 0] 1 = some ([0x61, 0, 0x62, 0], [0, 2]) := by
  simp [opStringToArray, strlen, splitLoop, slice, store, opSimdCountLeading_eq, opSimdFindDelim_eq, isDelim, space,
    colon, findIdx_cons]

end LibOp.Strings

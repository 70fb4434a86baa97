import LibOp.Foundation.Glob
import LibOp.Trie.FiniteMap

namespace LibOp.Trie

open Foundation Strings List Option TernaryTree GlobMatches

variable {P σ : Type}

structure Holding (path : List UInt8) (ctx : EachCtx σ) : Prop where
  length : ctx.buflen = path.length
  bytes : ctx.buf.take path.length = path

variable {junk : Nat → UInt8} {fn : σ → List UInt8 → P → σ × Bool} {accept : List UInt8 → Bool} {path : List UInt8}
  {ctx : EachCtx σ}

lemma Holding.length_le (holding : Holding path ctx) : path.length ≤ ctx.buf.length := by
  have size := congrArg List.length holding.bytes
  rw [length_take] at size
  omega

lemma le_length_ensureBuf (junk : Nat → UInt8) (buf : List UInt8) (needed : Nat) :
    needed + 1 ≤ (ensureBuf junk buf needed).length := by
  unfold ensureBuf
  split_ifs with small
  · rw [length_append, length_map, length_range']
    omega
  · omega

lemma take_ensureBuf (junk : Nat → UInt8) (needed : Nat) (inside : n ≤ buf.length) :
    (ensureBuf junk buf needed).take n = buf.take n := by
  unfold ensureBuf
  split_ifs with small
  · exact take_append_of_le_length inside
  · rfl

lemma Holding.push (holding : Holding path ctx) (junk : Nat → UInt8) (c : UInt8) :
    ∃ ctx', ctx.push junk c = some ctx' ∧ Holding (path ++ [c]) ctx' ∧ ctx'.buflen < ctx'.buf.length ∧
      ctx'.ud = ctx.ud ∧ ctx'.stop = ctx.stop := by
  have room := le_length_ensureBuf junk ctx.buf (ctx.buflen + 1)
  have inside : ctx.buflen < (ensureBuf junk ctx.buf (ctx.buflen + 1)).length := by omega
  rw [EachCtx.push, store_of_lt inside, map_some]
  refine ⟨_, rfl, ⟨?_, ?_⟩, ?_, rfl, rfl⟩
  · rw [length_append, holding.length, length_singleton]
  · rw [length_append, length_singleton, ← holding.length, take_succ_set inside, holding.length,
      take_ensureBuf junk _ holding.length_le, holding.bytes]
  · rw [length_set]
    exact room

variable {c : UInt8}

lemma Holding.pop (holding : Holding (path ++ [c]) ctx) : Holding path ctx.pop := by
  obtain ⟨length, bytes⟩ := holding
  rw [length_append, length_singleton] at length bytes
  refine ⟨?_, ?_⟩
  · rw [EachCtx.pop, length, Nat.add_sub_cancel]
  · have shorter := congrArg (List.take path.length) bytes
    rwa [take_take, Nat.min_eq_left (Nat.le_succ _), take_left] at shorter

lemma cString_terminated {cells : List UInt8} (noNul : 0 ∉ path) (bytes : cells.take path.length = path)
    (inside : path.length < cells.length) : terminatedString (cells.set path.length 0) = some path := by
  rw [set_eq_take_append_cons_drop, if_pos inside, bytes, terminatedString, if_pos (by simp), cString_append_zero noNul]

/-- A call of the callback for the entry `e` of the node at the end of the path. -/
def visit (fn : σ → List UInt8 → P → σ × Bool) (accept : List UInt8 → Bool) (path : List UInt8) (ud : σ)
    (e : List UInt8 × P) : σ × Bool :=
  if accept (path ++ e.1) then fn ud (path ++ e.1) e.2 else (ud, true)

def Walked (path : List UInt8) (outcome : σ × Bool) (result : Option (EachCtx σ)) : Prop :=
  ∃ ctx, result = some ctx ∧ Holding path ctx ∧ (ctx.ud, !ctx.stop) = outcome

lemma Holding.report (holding : Holding path ctx) (fn : σ → List UInt8 → P → σ × Bool)
    (accept : List UInt8 → Bool) (noNul : 0 ∉ path) (inside : ctx.buflen < ctx.buf.length)
    (running : ctx.stop = false) (val : P) :
    Walked path (if accept path then fn ctx.ud path val else (ctx.ud, true)) (ctx.report fn accept val) := by
  have kept : (ctx.buf.set path.length 0).take path.length = path := by
    rw [take_set_of_le (Nat.le_refl _), holding.bytes]
  have length := holding.length
  rw [length] at inside
  have text := cString_terminated noNul holding.bytes inside
  unfold EachCtx.report
  simp only [length, store_of_lt inside, text, bind_eq_bind, bind_some]
  split_ifs with accepted
  · exact ⟨_, rfl, ⟨rfl, kept⟩, by simp [running]⟩
  · exact ⟨_, rfl, ⟨rfl, kept⟩, by simp [running]⟩

lemma visitUntil_visit_map (c : UInt8) (l : List (List UInt8 × P)) (ud : σ) :
    visitUntil (visit fn accept path) (l.map fun e => (c :: e.1, e.2)) ud =
      visitUntil (visit fn accept (path ++ [c])) l ud := by
  rw [visitUntil_map]
  congr 1
  funext ud e
  simp [visit]

variable {outcome : σ × Bool}

lemma Walked.pop (walked : Walked (path ++ [c]) outcome result) : Walked path outcome (result.map EachCtx.pop) := by
  obtain ⟨ctx, rfl, holding, same⟩ := walked
  exact ⟨ctx.pop, rfl, holding.pop, same⟩

lemma Walked.enter (junk : Nat → UInt8) (val : Option P) {inner : EachCtx σ → Option (EachCtx σ)}
    (holding : Holding path ctx) (noNul : 0 ∉ path) (nonzero : c ≠ 0) (running : ctx.stop = false)
    (walked : ∀ ctx, Holding (path ++ [c]) ctx → ctx.stop = false →
      Walked (path ++ [c]) (visitUntil (visit fn accept (path ++ [c])) l ctx.ud) (inner ctx)) :
    Walked path (visitUntil (visit fn accept path) (extend c val l) ctx.ud) (ctx.enter junk fn accept c val inner) := by
  obtain ⟨pushed, done, entered, inside, ud, stop⟩ := holding.push junk c
  rw [running] at stop
  simp only [EachCtx.enter, done, bind_eq_bind, bind_some]
  cases val with
  | none =>
    rw [elim_none, bind_some, stop, if_neg Bool.false_ne_true, ← ud]
    change Walked path (visitUntil _ (l.map fun e => (c :: e.1, e.2)) _) _
    rw [visitUntil_visit_map]
    exact (walked pushed entered stop).pop
  | some v =>
    have noNul' : 0 ∉ path ++ [c] := by simp [noNul, nonzero.symm]
    obtain ⟨reported, called, held, outcome⟩ := entered.report fn accept noNul' inside stop v
    rw [elim_some, called, bind_some, ← ud]
    change Walked path (visitUntil _ (([c], v) :: l.map fun e => (c :: e.1, e.2)) _) _
    rw [visitUntil, visitUntil_visit_map, visit, ← outcome]
    cases stopped : reported.stop with
    | true => exact ⟨reported.pop, rfl, held.pop, by simp [EachCtx.pop, stopped]⟩
    | false => exact (walked reported held stopped).pop

lemma walkEach_walked (junk : Nat → UInt8) (fn : σ → List UInt8 → P → σ × Bool) (accept : List UInt8 → Bool)
    (nonzero : n.Symbols (· ≠ 0)) (holding : Holding path ctx) (noNul : 0 ∉ path) (running : ctx.stop = false) :
    Walked path (visitUntil (visit fn accept path) n.entries ctx.ud) (walkEach junk fn accept n ctx) := by
  induction n generalizing path ctx with
  | nil => exact ⟨ctx, rfl, holding, by simp [entries, visitUntil, running]⟩
  | node c val lo eq hi left middle right =>
    obtain ⟨own, inLo, inEq, inHi⟩ := nonzero
    have noNul' : 0 ∉ path ++ [c] := by simp [noNul, own.symm]
    obtain ⟨first, done, held, outcome⟩ := left inLo holding noNul running
    rw [entries, visitUntil_append, ← outcome, walkEach, running, if_neg Bool.false_ne_true, done]
    simp only [bind_eq_bind, bind_some]
    cases stopped : first.stop with
    | true => exact ⟨first, rfl, held, by simp [stopped]⟩
    | false =>
      obtain ⟨second, entered, kept, result⟩ := Walked.enter junk val held noNul own stopped
        fun ctx inside going => middle inEq inside noNul' going
      rw [if_neg Bool.false_ne_true, entered, bind_some, Bool.not_false, if_pos rfl, visitUntil_append, ← result]
      cases halted : second.stop with
      | true => exact ⟨second, rfl, kept, by simp [halted]⟩
      | false => exact right inHi kept noNul halted

lemma prefixEach_walked (junk : Nat → UInt8) (fn : σ → List UInt8 → P → σ × Bool)
    (nonzero : n.Symbols (· ≠ 0)) (icase : Bool) (first : UInt8) (rest : List UInt8) (holding : Holding path ctx)
    (noNul : 0 ∉ path) (running : ctx.stop = false) :
    Walked path (visitUntil (visit fn (fun _ => true) path) (n.entriesFrom (foldKey icase (first :: rest))) ctx.ud)
      (prefixEach junk fn icase n first rest ctx) := by
  induction n generalizing path ctx first rest with
  | nil => exact ⟨ctx, rfl, holding, by simp [entriesFrom, visitUntil, running]⟩
  | node c val lo eq hi left middle right =>
    obtain ⟨own, inLo, inEq, inHi⟩ := nonzero
    have noNul' : 0 ∉ path ++ [c] := by simp [noNul, own.symm]
    rw [foldKey, map_cons, entriesFrom]
    unfold prefixEach
    rw [running, if_neg Bool.false_ne_true]
    split_ifs with less greater last
    · exact left inLo first rest holding noNul running
    · exact right inHi first rest holding noNul running
    · obtain rfl := List.map_eq_nil_iff.mp last
      rw [map_nil, entriesFrom_empty]
      exact Walked.enter junk val holding noNul own running fun ctx inside going =>
        walkEach_walked junk fn (fun _ => true) inEq inside noNul' going
    · obtain ⟨next, others, rfl⟩ := exists_cons_of_ne_nil fun nothing => last (List.map_eq_nil_iff.mpr nothing)
      exact Walked.enter junk none holding noNul own running fun ctx inside going =>
        middle inEq next others inside noNul' going

def globItem (c : UInt8) : GlobItem UInt8 :=
  if c = star then .many else if c = question then .one else .exactly c

/-- `?` for one byte, `*` for any bytes, another byte for itself up to the folding. -/
def Glob (icase : Bool) (pattern key : List UInt8) : Prop :=
  GlobMatches (fun p s => fold icase p = fold icase s) (pattern.map globItem) key

lemma glob_star (icase : Bool) (pat str : List UInt8) :
    Glob icase (star :: pat) str ↔ ∃ rest, rest <:+ str ∧ Glob icase pat rest := by
  rw [Glob, map_cons, globItem, if_pos rfl, many_iff]
  rfl

lemma glob_skip_stars (icase : Bool) (pat str : List UInt8) :
    Glob icase (star :: pat) str ↔ Glob icase (star :: pat.dropWhile (· = star)) str := by
  induction pat with
  | nil => rfl
  | cons p pat ih =>
    by_cases another : p = star
    · rw [dropWhile_cons_of_pos (by simpa using another), ← ih, another]
      exact many_many
    · rw [dropWhile_cons_of_neg (by simpa using another)]

lemma anyStart_iff (test : List UInt8 → Bool) (str : List UInt8) :
    anyStart test str = true ↔ ∃ rest, rest <:+ str ∧ rest ≠ [] ∧ test rest = true := by
  induction str with
  | nil =>
    refine iff_of_false Bool.false_ne_true ?_
    rintro ⟨rest, suffix, ne, -⟩
    exact ne (List.suffix_nil.mp suffix)
  | cons s str ih =>
    rw [anyStart, Bool.or_eq_true, ih]
    constructor
    · rintro (here | ⟨rest, suffix, ne, later⟩)
      · exact ⟨s :: str, suffix_rfl, cons_ne_nil s str, here⟩
      · exact ⟨rest, suffix.trans (suffix_cons s str), ne, later⟩
    · rintro ⟨rest, suffix, ne, passed⟩
      rcases List.suffix_cons_iff.mp suffix with rfl | later
      · exact .inl passed
      · exact .inr ⟨rest, later, ne, passed⟩

lemma glob_single (icase : Bool) (single : p ≠ star) (pat str : List UInt8) :
    Glob icase (p :: pat) (s :: str) ↔ (p = question ∨ fold icase p = fold icase s) ∧ Glob icase pat str := by
  rw [Glob, map_cons, globItem, if_neg single]
  split_ifs with any
  · rw [one_iff]
    exact (and_iff_right (.inl any)).symm
  · rw [exactly_iff, or_iff_right any]
    rfl

lemma glob_nonempty (icase : Bool) (single : p ≠ star) (matched : Glob icase (p :: pat) str) : str ≠ [] := by
  apply matched.ne_nil
  rw [globItem, if_neg single]
  split_ifs <;> simp

lemma glob_after_stars (icase : Bool) (more : pat.dropWhile (· = star) ≠ []) (str : List UInt8) :
    Glob icase (star :: pat) str ↔ ∃ rest, rest <:+ str ∧ rest ≠ [] ∧ Glob icase (pat.dropWhile (· = star)) rest := by
  rw [glob_skip_stars, glob_star]
  obtain ⟨p, after, items⟩ := exists_cons_of_ne_nil more
  have single : p ≠ star := by
    have stopped := head_dropWhile_not (· = star) more
    simpa [items] using stopped
  constructor
  · rintro ⟨rest, suffix, matched⟩
    rw [items] at matched
    exact ⟨rest, suffix, glob_nonempty icase single matched, items ▸ matched⟩
  · rintro ⟨rest, suffix, -, matched⟩
    exact ⟨rest, suffix, matched⟩

lemma globMatch_iff (icase : Bool) (pat str : List UInt8) : globMatch icase pat str = true ↔ Glob icase pat str := by
  fun_induction globMatch icase pat str with
  | case1 str => rw [List.isEmpty_iff, Glob, map_nil, nil_iff]
  | case2 pat str after trailing =>
    refine iff_of_true rfl ?_
    rw [glob_skip_stars, show pat.dropWhile (· = star) = [] from trailing]
    exact many_only
  | case3 pat str after more ih =>
    rw [anyStart_iff, glob_after_stars icase more]
    simp [ih, after]
  | case4 p pat single =>
    refine iff_of_false Bool.false_ne_true ?_
    intro matched
    exact glob_nonempty icase single matched rfl
  | case5 p pat single s str apart =>
    refine iff_of_false Bool.false_ne_true ?_
    rw [glob_single icase single]
    rintro ⟨here | here, -⟩
    · exact apart.1 here
    · exact apart.2 here
  | case6 p pat single s str allowed ih =>
    rw [glob_single icase single, ih]
    refine (and_iff_right ?_).symm
    by_contra neither
    exact allowed (not_or.mp neither)

instance (icase : Bool) (pattern key : List UInt8) : Decidable (Glob icase pattern key) :=
  decidable_of_iff _ (globMatch_iff icase pattern key)

variable [Inhabited P] {icase : Bool} {t : OpTrie P} {m : List UInt8 → Option P}

lemma holding_start (ud : σ) : Holding [] (startCtx ud) := ⟨rfl, rfl⟩

omit [Inhabited P] in
lemma ud_of_walked (walked : Walked [] outcome result) : result.map EachCtx.ud = some outcome.1 := by
  obtain ⟨ctx, rfl, -, rfl⟩ := walked
  rfl

omit [Inhabited P] in
lemma fold_of_visit (continues : ∀ ud key val, (fn ud key val).2 = true) (l : List (List UInt8 × P)) (ud : σ) :
    (visitUntil (visit fn accept []) l ud).1 =
      (l.filter fun e => accept e.1).foldl (fun ud e => (fn ud e.1 e.2).1) ud := by
  have all : ∀ ud (e : List UInt8 × P), ((fun (ud : σ) (e : List UInt8 × P) => fn ud e.1 e.2) ud e).2 = true :=
    fun ud e => continues ud e.1 e.2
  rw [← visitUntil_of_continues all, ← visitUntil_filter]
  rfl

omit [Inhabited P] in
lemma Represents.foreach (rep : Represents icase t m) (continues : ∀ ud key val, (fn ud key val).2 = true) (ud : σ) :
    opTrieForeach junk t fn ud = some (t.root.entries.foldl (fun ud e => (fn ud e.1 e.2).1) ud) := by
  have walked := walkEach_walked junk fn (fun _ => true) rep.symbols (holding_start ud) not_mem_nil rfl
  rw [opTrieForeach, tstEach, ud_of_walked walked, fold_of_visit continues, filter_true]
  rfl

omit [Inhabited P] in
lemma Represents.wildcard (rep : Represents icase t m)
    (continues : ∀ ud key val, (fn ud key val).2 = true) (pattern : CStr) (ud : σ) :
    opTrieWildcard junk t pattern fn ud =
      some ((t.root.entries.filter fun e => Glob icase pattern.bytes e.1).foldl (fun ud e => (fn ud e.1 e.2).1) ud) := by
  have walked := walkEach_walked junk fn (globMatch icase pattern.bytes) rep.symbols (holding_start ud) not_mem_nil rfl
  have same (e : List UInt8 × P) : globMatch icase pattern.bytes e.1 = decide (Glob icase pattern.bytes e.1) := by
    rw [Bool.eq_iff_iff, globMatch_iff, decide_eq_true_iff]
  rw [opTrieWildcard, wildcardEach, rep.icase, ud_of_walked walked, fold_of_visit continues]
  simp only [same]
  rfl

omit [Inhabited P] in
lemma Represents.startingWith (rep : Represents icase t m)
    (continues : ∀ ud key val, (fn ud key val).2 = true) (start : CStr) (ud : σ) :
    opTriePrefix junk t start fn ud = some ((t.root.entries.filter fun e => foldKey icase start.bytes <+: e.1).foldl
        (fun ud e => (fn ud e.1 e.2).1) ud) := by
  unfold opTriePrefix
  cases start.bytes with
  | nil => simp [rep.foreach continues, foldKey]
  | cons c rest =>
    have walked := prefixEach_walked junk fn rep.symbols icase c rest (holding_start ud) not_mem_nil rfl
    simp only
    rw [rep.icase, ud_of_walked walked, fold_of_visit continues, filter_true, entriesFrom_eq_filter rep.ordered]
    rfl

theorem trie_enumeration_exact (icase : Bool) (ops : List (TrieOp P)) :
    ∃ l : List (List UInt8 × P), l.Pairwise (fun e f => e.1 < f.1) ∧
      (∀ key val, (key, val) ∈ l ↔ (specReplies (mapStep icase) (fun _ => none) ops).1 key = some val) ∧
      ∀ (σ : Type) (fn : σ → List UInt8 → P → σ × Bool) (junk : Nat → UInt8) (ud : σ),
        (∀ ud key val, (fn ud key val).2 = true) →
        opTrieForeach junk (specReplies trieStep (opTrieCreate icase) ops).1 fn ud =
            some (l.foldl (fun ud e => (fn ud e.1 e.2).1) ud) ∧
          (∀ start, opTriePrefix junk (specReplies trieStep (opTrieCreate icase) ops).1 start fn ud =
            some ((l.filter fun e => foldKey icase start.bytes <+: e.1).foldl (fun ud e => (fn ud e.1 e.2).1) ud)) ∧
          ∀ pattern, opTrieWildcard junk (specReplies trieStep (opTrieCreate icase) ops).1 pattern fn ud =
            some ((l.filter fun e => Glob icase pattern.bytes e.1).foldl (fun ud e => (fn ud e.1 e.2).1) ud) := by
  obtain ⟨-, rep⟩ := run_represents icase ops
  refine ⟨_, pairwise_entries rep.ordered, ?_, ?_⟩
  · intro key val
    rw [mem_entries rep.ordered, rep.find]
  · intro σ fn junk ud continues
    exact ⟨rep.foreach continues ud, fun start => rep.startingWith continues start ud,
      fun pattern => rep.wildcard continues pattern ud⟩

end LibOp.Trie

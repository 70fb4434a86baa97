import LibOp.Foundation.Runs
import LibOp.Trie.Nodes

namespace LibOp.Trie

open Foundation Strings TernaryTree Function List

variable {P : Type} [Inhabited P]

def foldKey (icase : Bool) (bytes : List UInt8) : List UInt8 := bytes.map (fold icase)

def replacing : Option P → P × Bool
  | some old => (old, false)
  | none => (default, true)

lemma insert_eq (icase : Bool) (val : P) (n : TNode P) (key : UInt8) (rest : List UInt8) : insert icase val n key rest =
      (n.insert val (foldKey icase (key :: rest)), replacing (n.find (foldKey icase (key :: rest)))) := by
  fun_induction insert icase val n key rest
  all_goals grind [TernaryTree.insert, TernaryTree.find, path, foldKey, replacing]

omit [Inhabited P] in
lemma doDel_eq (icase : Bool) (n : TNode P) (key : UInt8) (rest : List UInt8) :
    doDel icase n key rest = (n.erase (foldKey icase (key :: rest)), n.find (foldKey icase (key :: rest))) := by
  fun_induction doDel icase n key rest
  all_goals grind [erase, TernaryTree.find, foldKey]

omit [Inhabited P] in
lemma val_findNode (icase : Bool) (n : TNode P) (key : UInt8) (rest : List UInt8) :
    (findNode icase n key rest).val = n.find (foldKey icase (key :: rest)) := by
  fun_induction findNode icase n key rest
  all_goals grind [TernaryTree.val, TernaryTree.find, foldKey]

lemma opTrie_find (t : OpTrie P) (key : CStr) :
    opTrieGet t key = (t.root.find (foldKey t.icase key.bytes)).getD default ∧
      opTrieHas t key = (t.root.find (foldKey t.icase key.bytes)).isSome := by
  unfold opTrieGet opTrieHas
  cases key.bytes with
  | nil => simp [foldKey]
  | cons c rest =>
    have found := val_findNode t.icase t.root c rest
    simp only
    rw [← found]
    cases findNode t.icase t.root c rest with
    | nil => exact ⟨rfl, rfl⟩
    | node b val lo eq hi => cases val <;> exact ⟨rfl, rfl⟩

inductive TrieOp (P : Type) where
  | set (key : CStr) (val : P)
  | del (key : CStr)

inductive TrieReply (P : Type) where
  | set (ret : Int) (old : Option P)
  | del (removed : P)

def trieStep (t : OpTrie P) : TrieOp P → OpTrie P × TrieReply P
  | .set key val =>
    let (t, ret, old) := opTrieSet t key val
    (t, .set ret old)
  | .del key =>
    let (t, removed) := opTrieDel t key
    (t, .del removed)

def mapStep (icase : Bool) (m : List UInt8 → Option P) : TrieOp P → (List UInt8 → Option P) × TrieReply P
  | .set key val =>
    if key.bytes = [] then (m, .set (-1) none)
    else
      (Function.update m (foldKey icase key.bytes) (some val),
        match m (foldKey icase key.bytes) with
        | some old => .set 0 (some old)
        | none => .set 1 (some default))
  | .del key =>
    (Function.update m (foldKey icase key.bytes) none, .del ((m (foldKey icase key.bytes)).getD default))

structure Represents (icase : Bool) (t : OpTrie P) (m : List UInt8 → Option P) : Prop where
  icase : t.icase = icase
  find : ∀ key, t.root.find key = m key
  ordered : t.root.Ordered
  symbols : t.root.Symbols (· ≠ 0)
  count : t.count = t.root.entries.length

lemma fold_eq_zero (icase : Bool) (c : UInt8) : fold icase c = 0 ↔ c = 0 := by
  cases icase with
  | false => exact Iff.rfl
  | true => exact tolower_eq_zero c

lemma foldKey_symbols (icase : Bool) (key : CStr) : ∀ c ∈ foldKey icase key.bytes, c ≠ 0 := by
  intro c mem zero
  obtain ⟨b, stored, rfl⟩ := mem_map.mp mem
  rw [fold_eq_zero] at zero
  exact key.noNul (zero ▸ stored)

variable {icase : Bool} {t : OpTrie P} {m : List UInt8 → Option P}

lemma Represents.set (rep : Represents icase t m) (key : CStr) (val : P) :
    (trieStep t (.set key val)).2 = (mapStep icase m (.set key val)).2 ∧
      Represents icase (trieStep t (.set key val)).1 (mapStep icase m (.set key val)).1 := by
  obtain ⟨rfl, find, ordered, symbols, count⟩ := rep
  have nonzero := foldKey_symbols t.icase key
  simp only [trieStep, opTrieSet, mapStep]
  cases bytes : key.bytes with
  | nil => exact ⟨rfl, ⟨rfl, find, ordered, symbols, count⟩⟩
  | cons c rest =>
    rw [bytes] at nonzero
    have ne : foldKey t.icase (c :: rest) ≠ [] := cons_ne_nil _ _
    simp only [insert_eq, if_neg (cons_ne_nil c rest)]
    generalize foldKey t.icase (c :: rest) = folded at ne nonzero ⊢
    have size := length_entries_insert val t.root _ ne
    rw [find] at size ⊢
    have kept : ∀ other, (t.root.insert val folded).find other = update m folded (some val) other := by
      intro other
      rw [find_insert val t.root _ other ne, update_apply, find]
    cases before : m folded with
    | none | some =>
      refine ⟨rfl, rfl, kept, ordered.insert val _, symbols.insert val nonzero, ?_⟩
      simp [replacing, size, before, count]

lemma Represents.del (rep : Represents icase t m) (key : CStr) :
    (trieStep t (.del key)).2 = (mapStep icase m (.del key)).2 ∧
      Represents icase (trieStep t (.del key)).1 (mapStep icase m (.del key)).1 := by
  obtain ⟨rfl, find, ordered, symbols, count⟩ := rep
  simp only [trieStep, opTrieDel, mapStep]
  cases bytes : key.bytes with
  | nil =>
    have absent : m (foldKey t.icase []) = none := (find []).symm.trans (find_empty t.root)
    rw [absent, ← absent, update_eq_self]
    exact ⟨by rw [absent]; rfl, ⟨rfl, find, ordered, symbols, count⟩⟩
  | cons c rest =>
    have ne : foldKey t.icase (c :: rest) ≠ [] := cons_ne_nil _ _
    simp only [doDel_eq]
    generalize foldKey t.icase (c :: rest) = folded at ne ⊢
    have size := length_entries_erase t.root folded
    rw [find] at size ⊢
    have kept : ∀ other, (t.root.erase folded).find other = update m folded none other := by
      intro other
      rw [find_erase t.root _ other ne, update_apply, find]
    cases before : m folded with
    | none =>
      rw [before, if_pos rfl] at size
      exact ⟨rfl, rfl, kept, ordered.erase _, symbols.erase _, count.trans size.symm⟩
    | some old =>
      rw [before, if_neg (Option.some_ne_none old)] at size
      refine ⟨rfl, rfl, kept, ordered.erase _, symbols.erase _, ?_⟩
      simp only [count]
      omega

lemma run_represents (icase : Bool) (ops : List (TrieOp P)) :
    (specReplies trieStep (opTrieCreate icase) ops).2 = (specReplies (mapStep icase) (fun _ => none) ops).2 ∧
      Represents icase (specReplies trieStep (opTrieCreate icase) ops).1
        (specReplies (mapStep icase) (fun _ => none) ops).1 := by
  apply specReplies_simulates
  · intro t m op rep
    cases op with
    | set key val => exact rep.set key val
    | del key => exact rep.del key
  · exact ⟨rfl, fun key => rfl, trivial, trivial, rfl⟩

/-- Every query answers as the map does, and `op_trie_count` counts its keys. -/
structure AnswersAs (icase : Bool) (t : OpTrie P) (m : List UInt8 → Option P) : Prop where
  get : ∀ key, opTrieGet t key = (m (foldKey icase key.bytes)).getD default
  has : ∀ key, opTrieHas t key = (m (foldKey icase key.bytes)).isSome
  count : ∃ keys : List (List UInt8), keys.Nodup ∧ (∀ key, key ∈ keys ↔ m key ≠ none) ∧ opTrieCount t = keys.length

omit [Inhabited P] in
lemma Represents.count_keys (rep : Represents icase t m) :
    ∃ keys : List (List UInt8), keys.Nodup ∧ (∀ key, key ∈ keys ↔ m key ≠ none) ∧ opTrieCount t = keys.length := by
  refine ⟨t.root.entries.map Prod.fst, ?_, ?_, ?_⟩
  · rw [List.Nodup, pairwise_map]
    apply (pairwise_entries rep.ordered).imp
    intro e f less same
    rw [same] at less
    exact List.lt_irrefl f.1 less
  · intro key
    rw [mem_map, Option.ne_none_iff_exists', ← rep.find]
    constructor
    · rintro ⟨e, mem, rfl⟩
      exact ⟨e.2, (mem_entries rep.ordered).mp mem⟩
    · rintro ⟨val, found⟩
      exact ⟨(key, val), (mem_entries rep.ordered).mpr found, rfl⟩
  · rw [length_map]
    exact rep.count

theorem trie_is_finite_map (icase : Bool) (ops : List (TrieOp P)) :
    (specReplies trieStep (opTrieCreate icase) ops).2 = (specReplies (mapStep icase) (fun _ => none) ops).2 ∧
      AnswersAs icase (specReplies trieStep (opTrieCreate icase) ops).1
        (specReplies (mapStep icase) (fun _ => none) ops).1 := by
  obtain ⟨replies, rep⟩ := run_represents icase ops
  refine ⟨replies, ?_, ?_, rep.count_keys⟩
  · intro key
    rw [(opTrie_find _ _).1, rep.icase, rep.find]
  · intro key
    rw [(opTrie_find _ _).2, rep.icase, rep.find]

end LibOp.Trie

import LibOp.Cidr.Table

namespace LibOp.Cidr

open Foundation List Option BitTrie

section Walks

variable {V : Type} {af : Af}

def bitsFrom (addr : Address af) (i n : Nat) : List Bool := (List.range' i n).map (bitAt addr)

lemma bitsFrom_succ (addr : Address af) (i n : Nat) :
    bitsFrom addr i (n + 1) = bitAt addr i :: bitsFrom addr (i + 1) n := by
  rfl

lemma length_bitsFrom (addr : Address af) (i n : Nat) : (bitsFrom addr i n).length = n := by
  rw [bitsFrom, length_map, length_range']

lemma bitsFrom_zero (addr : Address af) (short : n ≤ af.width) : bitsFrom addr 0 n = (addrBits af addr).take n := by
  rw [addrBits, ← map_take, take_range, Nat.min_eq_left short, range_eq_range']
  rfl

variable {left i : Nat}

lemma trieSet_eq (addr : Address af) (val : Option V) (inside : i + left ≤ af.width) (t : CidrNode V) :
    trieSet af addr val left i t = some (t.put val (bitsFrom addr i left),
      (t.find (bitsFrom addr i left)).isNone, t.find (bitsFrom addr i left)) := by
  induction left generalizing i t with
  | zero => rfl
  | succ left ih =>
    rw [trieSet, addrBit_eq addr (by omega), bitsFrom_succ]
    simp only [bind_eq_bind, bind_some, ih (show i + 1 + left ≤ af.width by omega)]
    rfl

variable (addr : Address af) (inside : i + left ≤ af.width)

include addr inside

lemma trieDel_eq (t : CidrNode V) : trieDel af addr left i t =
      some (if t.reaches (bitsFrom addr i left) then t.put none (bitsFrom addr i left) else t,
        t.find (bitsFrom addr i left)) := by
  induction left generalizing i t with
  | zero =>
    cases t with
    | nil | node data zero one => rfl
  | succ left ih =>
    cases t with
    | nil => simp [trieDel]
    | node data zero one =>
      rw [trieDel, addrBit_eq addr (by omega), bitsFrom_succ]
      simp only [bind_eq_bind, bind_some, ih (show i + 1 + left ≤ af.width by omega), reaches_node_cons]
      by_cases reached : ((BitTrie.node data zero one).child (bitAt addr i)).reaches (bitsFrom addr (i + 1) left) = true
      · simp only [reached, if_true]
        rfl
      · simp only [reached, if_false, withChild_self, Bool.false_eq_true]
        rfl

lemma trieMatchAny_eq (t : CidrNode V) :
    trieMatchAny af addr left i t = some (t.firstAlong (bitsFrom addr i left)) := by
  induction left generalizing i t with
  | zero =>
    cases t with
    | nil | node data zero one => rfl
  | succ left ih =>
    cases t with
    | nil => rw [trieMatchAny, firstAlong_nil]
    | node data zero one =>
      rw [trieMatchAny, addrBit_eq addr (by omega), bitsFrom_succ, firstAlong]
      cases data with
      | some v => rfl
      | none => exact ih (by omega) _

lemma trieLpm_eq (best : Option V) (t : CidrNode V) :
    trieLpm af addr left i best t = some ((t.lastAlong (bitsFrom addr i left)).or best) := by
  induction left generalizing i best t with
  | zero =>
    cases t with
    | nil => rfl
    | node data zero one => cases data <;> rfl
  | succ left ih =>
    cases t with
    | nil => rw [trieLpm, lastAlong_nil, none_or]
    | node data zero one =>
      have next : (if data.isSome then data else best) = data.or best := by
        cases data <;> rfl
      rw [trieLpm, addrBit_eq addr (by omega), bitsFrom_succ, lastAlong, next]
      simp only [bind_eq_bind, bind_some, ih (show i + 1 + left ≤ af.width by omega), Option.or_assoc]
      rfl

end Walks

variable {V σ : Type} {af : Af}

def eachPrefix (fn : σ → Address af → Nat → V → σ × Bool) (ud : σ) (e : List Bool × V) : σ × Bool :=
  fn ud (addressOf af e.1) e.1.length e.2

def entriesUnder (p : List Bool) (t : CidrNode V) : List (List Bool × V) := t.entries.map fun e => (p ++ e.1, e.2)

lemma entriesUnder_nil (t : CidrNode V) : entriesUnder [] t = t.entries := by
  exact map_id t.entries

lemma entriesUnder_node (p : List Bool) (data : Option V) (zero one : CidrNode V) :
    entriesUnder p (.node data zero one) =
      (data.map fun v => (p, v)).toList ++ entriesUnder (p ++ [false]) zero ++ entriesUnder (p ++ [true]) one := by
  cases data <;> simp [entriesUnder, entries, Function.comp_def]

def visited (fn : σ → Address af → Nat → V → σ × Bool) (p : List Bool) (l : List (List Bool × V)) (ud : σ) :
    EachCtx af σ :=
  ⟨(visitUntil (eachPrefix fn) l ud).1, addressOf af p, !(visitUntil (eachPrefix fn) l ud).2⟩

lemma eachData_eq (fn : σ → Address af → Nat → V → σ × Bool) (p : List Bool) (data : Option V) (ud : σ) :
    eachData af fn ⟨ud, addressOf af p, false⟩ p.length data = visited fn p (data.map fun v => (p, v)).toList ud := by
  cases data with
  | none => rfl
  | some v =>
    rw [eachData, visited, map_some, toList_some, visitUntil, eachPrefix]
    cases more : (fn ud (addressOf af p) p.length v).2 <;> simp [visitUntil, more]

lemma visited_append (fn : σ → Address af → Nat → V → σ × Bool) (p : List Bool) (l r : List (List Bool × V)) (ud : σ) :
    visited fn p (l ++ r) ud =
      if (visited fn p l ud).stop then visited fn p l ud else visited fn p r (visited fn p l ud).ud := by
  cases more : (visitUntil (eachPrefix fn) l ud).2 <;> simp [visited, visitUntil_append, more]

variable {fn : σ → Address af → Nat → V → σ × Bool} {p : List Bool}

lemma visited_of_go (go : (visited fn p l ud).stop = false) :
    visited fn p l ud = ⟨(visited fn p l ud).ud, addressOf af p, false⟩ := by
  rw [← go]
  rfl

lemma eachChild_eq (short : c.isNil = false → p.length < af.width)
    (visit : ∀ ud, trieForeach af fn c (p ++ [bit]).length ⟨ud, addressOf af (p ++ [bit]), false⟩ =
      some (visited fn (p ++ [bit]) (entriesUnder (p ++ [bit]) c) ud))
    (ud : σ) : eachChild af (trieForeach af fn c (p.length + 1)) p.length bit c.isNil ⟨ud, addressOf af p, false⟩ =
      some (visited fn p (entriesUnder (p ++ [bit]) c) ud) := by
  cases c with
  | nil => rfl
  | node data zero one =>
    have inside := short rfl
    rw [length_append, length_singleton] at visit
    simp only [eachChild, isNil, Bool.false_eq_true, if_false, bind_eq_bind, bind_some,
      setAddrBit_addressOf inside bit, visit, visited, clrAddrBit_addressOf inside bit]

lemma trieForeach_eq (fn : σ → Address af → Nat → V → σ × Bool) (t : CidrNode V) (p : List Bool)
    (fits : t.FitsIn (af.width - p.length)) (ud : σ) :
    trieForeach af fn t p.length ⟨ud, addressOf af p, false⟩ = some (visited fn p (entriesUnder p t) ud) := by
  induction t generalizing p ud with
  | nil => rfl
  | node data zero one left right =>
    have inside (bit : Bool) : ((BitTrie.node data zero one).child bit).FitsIn (af.width - (p ++ [bit]).length) ∧
        (((BitTrie.node data zero one).child bit).isNil = false → p.length < af.width) := by
      rw [length_append, length_singleton, ← Nat.sub_sub]
      cases room : af.width - p.length with
      | zero =>
        rw [room] at fits
        obtain ⟨rfl, rfl⟩ := fits
        cases bit <;> simp [child, isNil]
      | succ n =>
        rw [room] at fits
        exact ⟨fits.child bit, fun _ => by omega⟩
    have low (ud : σ) := eachChild_eq (c := zero) (inside false).2 (left (p ++ [false]) (inside false).1) ud
    have high (ud : σ) := eachChild_eq (c := one) (inside true).2 (right (p ++ [true]) (inside true).1) ud
    rw [trieForeach, if_neg Bool.false_ne_true, eachData_eq, entriesUnder_node, visited_append, visited_append]
    cases first : (visited fn p (data.map fun v => (p, v)).toList ud).stop with
    | true => simp only [first, if_true]
    | false =>
      rw [visited_of_go first]
      simp only [Bool.false_eq_true, if_false, low, bind_eq_bind, bind_some]
      generalize (visited fn p (data.map fun v => (p, v)).toList ud).ud = ud
      cases second : (visited fn p (entriesUnder (p ++ [false]) zero) ud).stop with
      | true => simp only [if_true]
      | false =>
        rw [visited_of_go second]
        simp [high]

end LibOp.Cidr

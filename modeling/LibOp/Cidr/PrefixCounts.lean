import LibOp.Cidr.Lookup

namespace LibOp.Cidr

open Foundation Option List

section InvalidLengths

variable {V : Type} {af : Af}

/-- A negative length stops at the root; one beyond the address runs off its last bit unless the path ends before. -/
def Spared (half : CidrHalf V) (addr : Address af) (plen : Int) : Prop :=
  if plen < 0 then half.root.find [] = none else half.root.reaches (addrBits af addr) = false

variable (addr : Address af)

lemma addrBit_beyond : addrBit af addr af.width = none := by
  cases af <;> rfl

lemma trieDel_beyond {left i : Nat} (inside : i ≤ af.width) (beyond : af.width < i + left)
    (t : CidrNode V) : trieDel af addr left i t =
      if t.reaches (bitsFrom addr i (af.width - i)) then none else some (t, none) := by
  induction left generalizing i t with
  | zero => omega
  | succ left ih =>
    cases t with
    | nil => simp [trieDel]
    | node data zero one =>
      rw [trieDel]
      rcases Nat.lt_or_eq_of_le inside with short | rfl
      · rw [addrBit_eq addr short, show af.width - i = af.width - (i + 1) + 1 by omega, bitsFrom_succ,
          BitTrie.reaches_node_cons]
        simp only [bind_eq_bind, bind_some, ih short (by omega)]
        split <;> simp [BitTrie.withChild_self]
      · rw [addrBit_beyond, Nat.sub_self]
        rfl

variable {half : CidrHalf V} {plen : Int}

lemma delPrefix_invalid (invalid : validPlen af plen = false) :
    delPrefix af half addr plen = some (half, none) ↔ Spared half addr plen := by
  have outside : plen < 0 ∨ af.width < plen := by
    simp only [validPlen, Bool.and_eq_false_iff, decide_eq_false_iff_not] at invalid
    omega
  unfold Spared delPrefix
  by_cases negative : plen < 0
  · rw [if_pos negative, show plen.toNat = 0 by omega]
    rcases half with ⟨root, count⟩
    cases root with
    | nil => exact ⟨fun _ => rfl, fun _ => rfl⟩
    | node data zero one => cases data <;> simp [trieDel, BitTrie.find, BitTrie.data]
  · have walked := trieDel_beyond addr (Nat.zero_le af.width) (show af.width < 0 + plen.toNat by omega) half.root
    rw [Nat.sub_zero, bitsFrom_zero addr le_rfl, take_of_length_le (Nat.le_of_eq (length_addrBits addr))] at walked
    rw [if_neg negative, walked]
    cases half.root.reaches (addrBits af addr) <;> simp

lemma setPrefix_invalid (half : CidrHalf V) (addr : Address af) (invalid : validPlen af plen = false)
    (val : Option V) : setPrefix af half addr plen val = some (half, -1, none) := by
  simp only [validPlen, Bool.and_eq_false_iff, decide_eq_false_iff_not] at invalid
  exact if_pos (by omega)

theorem invalid_delete_iff (t : OpCidrTbl V) :
    (∀ (addr : InAddr) (plen : Int), validPlen .inet plen = false →
      (∀ val, opCidrSet4 t addr plen val = some (t, -1, none)) ∧
      (opCidrDel4 t addr plen = some (t, none) ↔ Spared t.v4 addr plen)) ∧
    ∀ (addr : In6Addr) (plen : Int), validPlen .inet6 plen = false →
      (∀ val, opCidrSet6 t addr plen val = some (t, -1, none)) ∧
      (opCidrDel6 t addr plen = some (t, none) ↔ Spared t.v6 addr plen) := by
  constructor
  all_goals
    intro addr plen invalid
    refine ⟨fun val => by simp [opCidrSet4, opCidrSet6, setPrefix_invalid _ addr invalid], ?_⟩
    rw [← delPrefix_invalid addr invalid]
    constructor
    · intro deleted
      simp only [opCidrDel4, opCidrDel6, bind_eq_bind, bind_eq_some_iff] at deleted
      obtain ⟨⟨half, old⟩, deleted, same⟩ := deleted
      cases t
      cases same
      exact deleted
    · intro deleted
      simp [opCidrDel4, opCidrDel6, deleted]

/-- The prefix length -1 deletes `0.0.0.0/0`. -/
theorem negative_length_deletes : ∃ t next,
    runReplies cidrStep opCidrCreate [.set4 (fun _ => 0#8) 0 (some ())] = some (t, [.set 1 none]) ∧
      opCidrDel4 t (fun _ => 255#8) (-1) = some (next, some ()) ∧ opCidrCount4 t = 1 ∧ opCidrCount4 next = 0 ∧
      opCidrLpm4 t (fun _ => 1#8) = some (some ()) ∧ opCidrLpm4 next (fun _ => 1#8) = some none :=
  ⟨_, _, rfl, rfl, rfl, rfl, rfl, rfl⟩

end InvalidLengths

variable {V : Type}

/-- A null value is stored here as any other. -/
def keepNull : CidrOp V → CidrOp (Option V)
  | .set4 addr plen val => .set4 addr plen (some val)
  | .set6 addr plen val => .set6 addr plen (some val)
  | .del4 addr plen => .del4 addr plen
  | .del6 addr plen => .del6 addr plen

def storedAfter (ops : List (CidrOp V)) (af : Af) (p : List Bool) : Bool :=
  (((specReplies mapsStep emptyMaps (ops.map keepNull)).1.on af) p).isSome

structure CountsPrefixes (af : Af) (stored : List Bool → Bool)
    (set : Address af → Int → Option V → Option (OpCidrTbl V × Int × Option V)) (count : Nat)
    (each : (σ : Type) → (σ → Address af → Nat → V → σ × Bool) → σ → Option σ) : Prop where
  count : each Nat (fun n _ _ _ => (n + 1, true)) 0 = some count
  fresh : ∀ addr plen val, validPlen af plen = true →
    ∃ next r old, set addr plen val = some (next, r, old) ∧ (r = 1 ↔ stored (prefixOf af addr plen) = false)

variable {af : Af} {m : PrefixMaps V}

lemma keepNull_step (present : nullSet af op = 0)
    (same : ∀ p, (r.on af p).isSome = (m.on af p).isSome) (p : List Bool) :
    ((mapsStep r (keepNull op)).1.on af p).isSome = ((mapsStep m op).1.on af p).isSome := by
  cases af <;> cases op <;>
    simp only [keepNull, mapsStep, mapSet, mapDel, PrefixMaps.on, Function.update_apply, nullSet] at same present ⊢ <;>
    grind [cases Option]

variable {ops : List (CidrOp V)}

lemma keepNull_run (present : ∀ op ∈ ops, nullSet af op = 0) (same : ∀ p, (r.on af p).isSome = (m.on af p).isSome)
    (p : List Bool) :
    ((specReplies mapsStep r (ops.map keepNull)).1.on af p).isSome =
      ((specReplies mapsStep m ops).1.on af p).isSome := by
  induction ops generalizing m r with
  | nil => exact same p
  | cons op rest ih =>
    exact ih (forall_mem_cons.mp present).2 (keepNull_step (present op mem_cons_self) same)

lemma run_drifts (valid : ∀ op ∈ ops, validLength op = true) {ahead : Af → Nat} (drifts : Drifts t m ahead) :
    ∃ t', runReplies cidrStep t ops = some (t', (specReplies mapsStep m ops).2) ∧
      Drifts t' (specReplies mapsStep m ops).1 (fun af => ahead af + (ops.map (nullSet af)).sum) := by
  induction ops generalizing t m ahead with
  | nil => exact ⟨t, rfl, drifts⟩
  | cons op rest ih =>
    obtain ⟨next, stepped, drifts⟩ := drifts.step (valid op mem_cons_self)
    obtain ⟨last, ran, drifts⟩ := ih (forall_mem_cons.mp valid).2 drifts
    refine ⟨last, by simp [runReplies, specReplies, stepped, ran], ?_⟩
    simpa only [specReplies, map_cons, sum_cons, Nat.add_assoc] using drifts

lemma HalfDrifts.counts_iff
    (drifts : HalfDrifts af half ((specReplies mapsStep emptyMaps ops).1.on af) (ops.map (nullSet af)).sum)
    {set : Address af → Int → Option V → Option (OpCidrTbl V × Int × Option V)}
    (sets : ∀ addr plen val half' r old, setPrefix af half addr plen val = some (half', r, old) →
      ∃ next, set addr plen val = some (next, r, old)) :
    CountsPrefixes af (storedAfter ops af) set half.count (fun _ => foreachPrefix af half) ↔
      ∀ op ∈ ops, nullSet af op = 0 := by
  have reported : foreachPrefix af half (fun n _ _ _ => (n + 1, true)) 0 = some half.root.entries.length := by
    rw [(foreach_enumerates drifts.fits).all Nat _ 0 (fun _ _ _ _ => rfl)]
    simp
  have none : (ops.map (nullSet af)).sum = 0 ↔ ∀ op ∈ ops, nullSet af op = 0 := by
    rw [List.sum_eq_zero_iff_forall_eq_nat, List.forall_mem_map]
  constructor
  · intro counts
    have same := Option.some.inj (reported.symm.trans counts.count)
    rw [drifts.count] at same
    exact none.mp (by omega)
  · intro present
    refine ⟨?_, ?_⟩
    · rw [reported, drifts.count, none.mpr present, Nat.add_zero]
    · intro addr plen val valid
      obtain ⟨half', done, _⟩ := drifts.set addr val valid
      obtain ⟨next, done⟩ := sets _ _ _ _ _ _ done
      refine ⟨next, _, _, done, ?_⟩
      rw [storedAfter, keepNull_run present (m := emptyMaps) (by cases af <;> exact fun _ => rfl)]
      cases (specReplies mapsStep emptyMaps ops).1.on af (prefixOf af addr plen) <;> simp

theorem count_enumeration_iff (ops : List (CidrOp V)) (valid : ∀ op ∈ ops, validLength op = true) :
    ∃ t, runReplies cidrStep opCidrCreate ops = some (t, (specReplies mapsStep emptyMaps ops).2) ∧
      (CountsPrefixes .inet (storedAfter ops .inet) (opCidrSet4 t) (opCidrCount4 t) (fun _ => opCidrForeach4 t) ↔
        ∀ op ∈ ops, nullSet .inet op = 0) ∧
      (CountsPrefixes .inet6 (storedAfter ops .inet6) (opCidrSet6 t) (opCidrCount6 t) (fun _ => opCidrForeach6 t) ↔
        ∀ op ∈ ops, nullSet .inet6 op = 0) := by
  obtain ⟨t, ran, drifts⟩ := run_drifts valid create_represents.drifts
  simp only [Nat.zero_add] at drifts
  refine ⟨t, ran, (drifts .inet).counts_iff ?_, (drifts .inet6).counts_iff ?_⟩
  · intro addr plen val half r old done
    have here : setPrefix .inet t.v4 addr plen val = _ := done
    exact ⟨{ t with v4 := half }, by simp [opCidrSet4, here]⟩
  · intro addr plen val half r old done
    have here : setPrefix .inet6 t.v6 addr plen val = _ := done
    exact ⟨{ t with v6 := half }, by simp [opCidrSet6, here]⟩

theorem count_enumeration_sample : ∃ t : OpCidrTbl Nat, CountsPrefixes .inet (storedAfter sampleOps .inet) (opCidrSet4 t)
    (opCidrCount4 t) (fun _ => opCidrForeach4 t) := by
  obtain ⟨t, _, counts, _⟩ := count_enumeration_iff sampleOps (by decide)
  exact ⟨t, counts.mpr (by decide)⟩

/-- `0.0.0.0/0` is set to null twice, and each time as new. -/
theorem null_value_counted : ∃ t, runReplies cidrStep opCidrCreate
    ([.set4 (fun _ => 0#8) 0 none, .set4 (fun _ => 0#8) 0 none] : List (CidrOp Unit)) =
      some (t, [.set 1 none, .set 1 none]) ∧ opCidrCount4 t = 2 ∧
    opCidrForeach4 t (fun n _ _ _ => (n + 1, true)) 0 = some 0 :=
  ⟨_, rfl, rfl, rfl⟩

end LibOp.Cidr

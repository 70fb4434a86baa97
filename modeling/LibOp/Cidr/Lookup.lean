import LibOp.Cidr.Refinement

namespace LibOp.Cidr

open Foundation Option Function BitTrie

variable {V : Type}

abbrev PrefixMap (V : Type) := List Bool → Option V

structure PrefixMaps (V : Type) where
  v4 : PrefixMap V
  v6 : PrefixMap V

def prefixOf (af : Af) (addr : Address af) (plen : Int) : List Bool := (addrBits af addr).take plen.toNat

def mapSet (m : PrefixMap V) (p : List Bool) (val : Option V) : PrefixMap V × CidrReply V :=
  (Function.update m p val, .set (if (m p).isNone then 1 else 0) (m p))

def mapDel (m : PrefixMap V) (p : List Bool) : PrefixMap V × CidrReply V := (Function.update m p none, .del (m p))

def mapsStep (m : PrefixMaps V) : CidrOp V → PrefixMaps V × CidrReply V
  | .set4 addr plen val =>
    let (next, reply) := mapSet m.v4 (prefixOf .inet addr plen) val
    ({ m with v4 := next }, reply)
  | .set6 addr plen val =>
    let (next, reply) := mapSet m.v6 (prefixOf .inet6 addr plen) val
    ({ m with v6 := next }, reply)
  | .del4 addr plen =>
    let (next, reply) := mapDel m.v4 (prefixOf .inet addr plen)
    ({ m with v4 := next }, reply)
  | .del6 addr plen =>
    let (next, reply) := mapDel m.v6 (prefixOf .inet6 addr plen)
    ({ m with v6 := next }, reply)

def emptyMaps : PrefixMaps V := ⟨fun _ => none, fun _ => none⟩

def validPlen (af : Af) (plen : Int) : Bool := 0 ≤ plen && plen ≤ af.width

def validOp : CidrOp V → Bool
  | .set4 _ plen val => validPlen .inet plen && val.isSome
  | .set6 _ plen val => validPlen .inet6 plen && val.isSome
  | .del4 _ plen => validPlen .inet plen
  | .del6 _ plen => validPlen .inet6 plen

variable {af : Af}

structure HalfRepresents (af : Af) (half : CidrHalf V) (m : PrefixMap V) : Prop where
  find : ∀ p, half.root.find p = m p
  fits : half.root.FitsIn af.width
  count : half.count = half.root.entries.length

variable {half : CidrHalf V} {m : PrefixMap V}

lemma validPlen_iff (plen : Int) : validPlen af plen = true ↔ 0 ≤ plen ∧ plen ≤ af.width := by
  simp [validPlen]

variable {plen : Int}

lemma bitsFrom_eq_prefixOf (addr : Address af) (valid : validPlen af plen = true) :
    bitsFrom addr 0 plen.toNat = prefixOf af addr plen := by
  have bounds := (validPlen_iff plen).mp valid
  exact bitsFrom_zero addr (by omega)

lemma length_prefixOf (addr : Address af) (valid : validPlen af plen = true) :
    (prefixOf af addr plen).length ≤ af.width := by
  have bounds := (validPlen_iff plen).mp valid
  rw [← bitsFrom_eq_prefixOf addr valid, length_bitsFrom]
  omega

/-- As `HalfRepresents`, with a counter that is ahead. -/
structure HalfDrifts (af : Af) (half : CidrHalf V) (m : PrefixMap V) (ahead : Nat) : Prop where
  find : ∀ p, half.root.find p = m p
  fits : half.root.FitsIn af.width
  count : half.count = half.root.entries.length + ahead

variable {ahead : Nat}

lemma HalfDrifts.set (drifts : HalfDrifts af half m ahead) (addr : Address af) (val : Option V)
    (valid : validPlen af plen = true) :
    ∃ half', setPrefix af half addr plen val =
        some (half', if (m (prefixOf af addr plen)).isNone then 1 else 0, m (prefixOf af addr plen)) ∧
      HalfDrifts af half' (update m (prefixOf af addr plen) val) (ahead + if val.isNone then 1 else 0) := by
  have bounds := (validPlen_iff plen).mp valid
  have accepted : ¬ (plen < 0 ∨ plen > af.width) := by omega
  have walked := trieSet_eq addr val (show 0 + plen.toNat ≤ af.width by omega) half.root
  have size := length_entries_put val half.root (prefixOf af addr plen)
  rw [bitsFrom_eq_prefixOf addr valid, drifts.find] at walked
  rw [drifts.find] at size
  refine ⟨⟨half.root.put val (prefixOf af addr plen),
    if (m (prefixOf af addr plen)).isNone then half.count + 1 else half.count⟩, ?_, ?_, ?_, ?_⟩
  · simp [setPrefix, accepted, walked]
  · intro p
    rw [find_put, drifts.find, update_apply]
  · exact drifts.fits.put val (length_prefixOf addr valid)
  · rw [drifts.count]
    cases found : m (prefixOf af addr plen) <;> cases val <;> simp [found] at size ⊢ <;> omega

lemma HalfDrifts.del (drifts : HalfDrifts af half m ahead) (addr : Address af) (valid : validPlen af plen = true) :
    ∃ half', delPrefix af half addr plen = some (half', m (prefixOf af addr plen)) ∧
      HalfDrifts af half' (update m (prefixOf af addr plen) none) ahead := by
  have bounds := (validPlen_iff plen).mp valid
  have walked := trieDel_eq addr (show 0 + plen.toNat ≤ af.width by omega) half.root
  rw [bitsFrom_eq_prefixOf addr valid, drifts.find] at walked
  by_cases reached : half.root.reaches (prefixOf af addr plen) = true
  · have size := length_entries_put none half.root (prefixOf af addr plen)
    rw [drifts.find] at size
    rw [if_pos reached] at walked
    refine ⟨⟨half.root.put none (prefixOf af addr plen),
      if (m (prefixOf af addr plen)).isSome then half.count - 1 else half.count⟩, ?_, ?_, ?_, ?_⟩
    · simp [delPrefix, walked]
    · intro p
      rw [find_put, drifts.find, update_apply]
    · exact drifts.fits.put none (length_prefixOf addr valid)
    · rw [drifts.count]
      cases found : m (prefixOf af addr plen) <;> simp [found] at size ⊢ <;> omega
  · have absent : m (prefixOf af addr plen) = none := by
      rw [← drifts.find]
      exact find_eq_none_of_not_reaches (Bool.not_eq_true _ ▸ reached)
    rw [if_neg reached, absent] at walked
    refine ⟨half, ?_, ?_, drifts.fits, drifts.count⟩
    · simp [delPrefix, walked, absent, isSome_none]
    · intro p
      rw [drifts.find, ← absent, update_eq_self]

def OpCidrTbl.on (t : OpCidrTbl V) : Af → CidrHalf V
  | .inet => t.v4
  | .inet6 => t.v6

def PrefixMaps.on (m : PrefixMaps V) : Af → PrefixMap V
  | .inet => m.v4
  | .inet6 => m.v6

/-- 1 for a null value set in this half of the table. -/
def nullSet : Af → CidrOp V → Nat
  | .inet, .set4 _ _ val => if val.isNone then 1 else 0
  | .inet6, .set6 _ _ val => if val.isNone then 1 else 0
  | _, _ => 0

def validLength : CidrOp V → Bool
  | .set4 _ plen _ => validPlen .inet plen
  | .set6 _ plen _ => validPlen .inet6 plen
  | .del4 _ plen => validPlen .inet plen
  | .del6 _ plen => validPlen .inet6 plen

def Drifts (t : OpCidrTbl V) (m : PrefixMaps V) (ahead : Af → Nat) : Prop :=
  ∀ af, HalfDrifts af (t.on af) (m.on af) (ahead af)

variable {t : OpCidrTbl V}

lemma Drifts.step {m : PrefixMaps V} {ahead : Af → Nat} (drifts : Drifts t m ahead)
    {op : CidrOp V} (valid : validLength op = true) : ∃ t', cidrStep t op = some (t', (mapsStep m op).2) ∧
      Drifts t' (mapsStep m op).1 (fun af => ahead af + nullSet af op) := by
  have v4 : HalfDrifts .inet t.v4 m.v4 (ahead .inet) := drifts .inet
  have v6 : HalfDrifts .inet6 t.v6 m.v6 (ahead .inet6) := drifts .inet6
  cases op with
  | set4 addr plen val =>
    obtain ⟨half, done, next⟩ := v4.set addr val valid
    refine ⟨{ t with v4 := half }, by simp [cidrStep, opCidrSet4, done, mapsStep, mapSet], ?_⟩
    intro af
    cases af
    · exact next
    · exact v6
  | set6 addr plen val =>
    obtain ⟨half, done, next⟩ := v6.set addr val valid
    refine ⟨{ t with v6 := half }, by simp [cidrStep, opCidrSet6, done, mapsStep, mapSet], ?_⟩
    intro af
    cases af
    · exact v4
    · exact next
  | del4 addr plen =>
    obtain ⟨half, done, next⟩ := v4.del addr valid
    refine ⟨{ t with v4 := half }, by simp [cidrStep, opCidrDel4, done, mapsStep, mapDel], ?_⟩
    intro af
    cases af
    · exact next
    · exact v6
  | del6 addr plen =>
    obtain ⟨half, done, next⟩ := v6.del addr valid
    refine ⟨{ t with v6 := half }, by simp [cidrStep, opCidrDel6, done, mapsStep, mapDel], ?_⟩
    intro af
    cases af
    · exact v4
    · exact next

structure Represents (t : OpCidrTbl V) (m : PrefixMaps V) : Prop where
  v4 : HalfRepresents .inet t.v4 m.v4
  v6 : HalfRepresents .inet6 t.v6 m.v6

lemma create_represents : Represents (opCidrCreate : OpCidrTbl V) emptyMaps :=
  ⟨⟨find_nil, fitsIn_nil _, rfl⟩, ⟨find_nil, fitsIn_nil _, rfl⟩⟩

lemma Represents.drifts {m : PrefixMaps V} (rep : Represents t m) : Drifts t m (fun _ => 0) := by
  intro af
  cases af
  · exact ⟨rep.v4.find, rep.v4.fits, rep.v4.count⟩
  · exact ⟨rep.v6.find, rep.v6.fits, rep.v6.count⟩

lemma validOp_spec (valid : validOp op = true) : validLength op = true ∧ ∀ af, nullSet af op = 0 := by
  cases op with
  | set4 addr plen val | set6 addr plen val =>
    rcases Bool.and_eq_true_iff.mp valid with ⟨inRange, present⟩
    rcases isSome_iff_exists.mp present with ⟨v, rfl⟩
    refine ⟨inRange, ?_⟩
    intro af
    cases af <;> rfl
  | del4 addr plen | del6 addr plen => exact ⟨valid, by intro af; cases af <;> rfl⟩

lemma Represents.step {m : PrefixMaps V} (rep : Represents t m) {op : CidrOp V} (valid : validOp op = true) :
    ∃ t', cidrStep t op = some (t', (mapsStep m op).2) ∧ Represents t' (mapsStep m op).1 := by
  obtain ⟨inRange, present⟩ := validOp_spec valid
  obtain ⟨t', done, drifts⟩ := rep.drifts.step inRange
  have half (af : Af) : HalfRepresents af (t'.on af) ((mapsStep m op).1.on af) := by
    have counted : (t'.on af).count = _ + (0 + nullSet af op) := (drifts af).count
    rw [present] at counted
    exact ⟨(drifts af).find, (drifts af).fits, counted⟩
  exact ⟨t', done, half .inet, half .inet6⟩

lemma length_addrBits (addr : Address af) : (addrBits af addr).length = af.width := by
  rw [addrBits, List.length_map, List.length_range]

/-- The value of the best stored prefix that covers the address, or nothing where none does. -/
def BestMatch (better : List Bool → List Bool → Prop) (m : PrefixMap V) (bits : List Bool) : Option V → Prop
  | none => ∀ p, p <+: bits → m p = none
  | some v => ∃ p, p <+: bits ∧ m p = some v ∧ ∀ q w, q <+: bits → m q = some w → better p q

def Longer (p q : List Bool) : Prop := q.length ≤ p.length

def Shorter (p q : List Bool) : Prop := p.length ≤ q.length

/-- One call of the callback for each of these prefixes, with zeros after the prefix, until it returns `false`. -/
structure Enumerates (each : (σ : Type) → (σ → Address af → Nat → V → σ × Bool) → σ → Option σ)
    (l : List (List Bool × V)) : Prop where
  address : ∀ e ∈ l, addrBits af (addressOf af e.1) = e.1 ++ List.replicate (af.width - e.1.length) false
  all : ∀ (σ : Type) (fn : σ → Address af → Nat → V → σ × Bool) (ud : σ),
    (∀ ud addr plen val, (fn ud addr plen val).2 = true) →
    each σ fn ud = some (l.foldl (fun ud e => (fn ud (addressOf af e.1) e.1.length e.2).1) ud)
  stopped : ∀ (σ : Type) (fn : σ → Address af → Nat → V → σ × Bool) (ud : σ),
    each σ fn ud = some (visitUntil (fun ud e => fn ud (addressOf af e.1) e.1.length e.2) l ud).1

structure AnswersAs (af : Af) (m : PrefixMap V)
    (set : Address af → Int → Option V → Option (OpCidrTbl V × Int × Option V))
    (lpm matchAny : Address af → Option (Option V)) (count : Nat)
    (each : (σ : Type) → (σ → Address af → Nat → V → σ × Bool) → σ → Option σ) : Prop where
  lpm : ∀ addr, ∃ r, lpm addr = some r ∧ BestMatch Longer m (addrBits af addr) r
  matchAny : ∀ addr, ∃ r, matchAny addr = some r ∧ BestMatch Shorter m (addrBits af addr) r
  stored : ∃ l : List (List Bool × V), (l.map Prod.fst).Nodup ∧ (∀ p v, (p, v) ∈ l ↔ m p = some v) ∧
    count = l.length ∧ Enumerates each l
  hostBits : ∀ addr addr' plen val, prefixOf af addr plen = prefixOf af addr' plen →
    set addr plen val = set addr' plen val

lemma foreach_enumerates (fits : half.root.FitsIn af.width) :
    Enumerates (fun _ => foreachPrefix af half) half.root.entries := by
  have stopped (σ : Type) (fn : σ → Address af → Nat → V → σ × Bool) (ud : σ) : foreachPrefix af half fn ud =
      some (visitUntil (fun ud e => fn ud (addressOf af e.1) e.1.length e.2) half.root.entries ud).1 := by
    have walked := trieForeach_eq fn half.root [] fits ud
    rw [← addressOf_nil, List.length_nil, entriesUnder_nil] at walked
    rw [foreachPrefix, walked]
    rfl
  apply Enumerates.mk
  · intro e mem
    exact addrBits_addressOf (fits.length_le (mem_entries.mp mem))
  · intro σ fn ud continues
    rw [stopped]
    exact congrArg some (visitUntil_of_continues (fun ud e => continues ud _ _ _) half.root.entries ud)
  · exact stopped

section

variable (rep : HalfRepresents af half m)

include rep

lemma HalfRepresents.bestMatch {bits : List Bool} (missing : r = none → ∀ q, q <+: bits → half.root.find q = none)
    (best : ∀ v, r = some v → ∃ p, p <+: bits ∧ half.root.find p = some v ∧
      ∀ q w, q <+: bits → half.root.find q = some w → better p q) : BestMatch better m bits r := by
  have same : half.root.find = m := by
    funext p
    exact rep.find p
  rw [same] at missing best
  cases r with
  | none => exact missing rfl
  | some v => exact best v rfl

lemma HalfRepresents.lpm (addr : Address af) :
    ∃ r, trieLpm af addr af.width 0 none half.root = some r ∧ BestMatch Longer m (addrBits af addr) r := by
  have walked := trieLpm_eq addr (Nat.le_of_eq (Nat.zero_add af.width)) none half.root
  rw [bitsFrom_zero addr le_rfl, List.take_of_length_le (Nat.le_of_eq (length_addrBits addr)), or_none] at walked
  exact ⟨_, walked, rep.bestMatch lastAlong_eq_none.mp fun v => lastAlong_longest⟩

lemma HalfRepresents.matchAny (addr : Address af) :
    ∃ r, trieMatchAny af addr af.width 0 half.root = some r ∧ BestMatch Shorter m (addrBits af addr) r := by
  have walked := trieMatchAny_eq addr (Nat.le_of_eq (Nat.zero_add af.width)) half.root
  rw [bitsFrom_zero addr le_rfl, List.take_of_length_le (Nat.le_of_eq (length_addrBits addr))] at walked
  exact ⟨_, walked, rep.bestMatch firstAlong_eq_none.mp fun v => firstAlong_shortest⟩

lemma HalfRepresents.stored : ∃ l : List (List Bool × V), (l.map Prod.fst).Nodup ∧ (∀ p v, (p, v) ∈ l ↔ m p = some v) ∧
      half.count = l.length ∧ Enumerates (fun _ => foreachPrefix af half) l := by
  refine ⟨half.root.entries, half.root.entries_nodup, ?_, rep.count, foreach_enumerates rep.fits⟩
  intro p v
  rw [mem_entries, rep.find]

end

lemma setPrefix_congr (half : CidrHalf V) (val : Option V) (same : prefixOf af addr plen = prefixOf af addr' plen) :
    setPrefix af half addr plen val = setPrefix af half addr' plen val := by
  rw [setPrefix, setPrefix]
  split
  · rfl
  · have inside : 0 + plen.toNat ≤ af.width := by omega
    rw [trieSet_eq addr val inside, trieSet_eq addr' val inside, bitsFrom_zero addr (by omega),
      bitsFrom_zero addr' (by omega)]
    rw [prefixOf, prefixOf] at same
    rw [same]

theorem cidr_lookup_exact (ops : List (CidrOp V)) (valid : ∀ op ∈ ops, validOp op = true) :
    ∃ t, runReplies cidrStep opCidrCreate ops = some (t, (specReplies mapsStep emptyMaps ops).2) ∧
      AnswersAs .inet (specReplies mapsStep emptyMaps ops).1.v4 (opCidrSet4 t) (opCidrLpm4 t) (opCidrMatchAny4 t)
        (opCidrCount4 t) (fun _ => opCidrForeach4 t) ∧
      AnswersAs .inet6 (specReplies mapsStep emptyMaps ops).1.v6 (opCidrSet6 t) (opCidrLpm6 t) (opCidrMatchAny6 t)
        (opCidrCount6 t) (fun _ => opCidrForeach6 t) := by
  obtain ⟨t, ran, v4, v6⟩ := runReplies_simulates
    (fun _ _ op mem rep => Represents.step rep (valid op mem)) create_represents
  refine ⟨t, ran, ⟨v4.lpm, v4.matchAny, v4.stored, ?_⟩, ⟨v6.lpm, v6.matchAny, v6.stored, ?_⟩⟩
  · intro addr addr' plen val same
    rw [opCidrSet4, opCidrSet4, setPrefix_congr t.v4 val same]
  · intro addr addr' plen val same
    rw [opCidrSet6, opCidrSet6, setPrefix_congr t.v6 val same]

def sampleOps : List (CidrOp Nat) :=
  [.set4 (fun i => BitVec.ofNat 8 (10 - i)) 8 (some 1), .set4 (fun i => BitVec.ofNat 8 (10 - 9 * i)) 16 (some 2),
    .set6 (fun _ => 0#8) 0 (some 3), .del4 (fun i => BitVec.ofNat 8 (10 - 9 * i)) 16, .del6 (fun _ => 255#8) 128]

theorem cidr_lookup_exact_sample : (∀ op ∈ sampleOps, validOp op = true) ∧
    ∃ t, runReplies cidrStep opCidrCreate sampleOps =
        some (t, [.set 1 none, .set 1 none, .set 1 none, .del (some 2), .del none]) ∧
      AnswersAs .inet (specReplies mapsStep emptyMaps sampleOps).1.v4 (opCidrSet4 t) (opCidrLpm4 t) (opCidrMatchAny4 t)
        (opCidrCount4 t) (fun _ => opCidrForeach4 t) ∧
      AnswersAs .inet6 (specReplies mapsStep emptyMaps sampleOps).1.v6 (opCidrSet6 t) (opCidrLpm6 t) (opCidrMatchAny6 t)
        (opCidrCount6 t) (fun _ => opCidrForeach6 t) :=
  ⟨by decide, cidr_lookup_exact sampleOps (by decide)⟩

end LibOp.Cidr

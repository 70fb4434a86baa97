import LibOp.Clock.VclockOrder
import LibOp.Foundation.Bytes

namespace LibOp.Clock

open Foundation List

def vclockWireSize (vc : Vclock) : Nat := 1 + vc.entries.length * 16

def encodeEntry (entry : VclockEntry) : List UInt8 :=
  entry.serverKey.toList ++ bigEndianBytes 8 entry.counter.toNat

/-- The bytes stored from `out` on. -/
def vclockEncode (vc : Vclock) (cap : Nat) : List UInt8 :=
  if cap < vclockWireSize vc then [] else UInt8.ofNat vc.entries.length :: vc.entries.flatMap encodeEntry

def decodeEntry (buf : List UInt8) : VclockEntry where
  serverKey := Vector.ofFn (fun i => buf.getD i 0)
  counter := UInt64.ofNat (bigEndian ((buf.drop 8).take 8))

def decodeEntries : Nat → List UInt8 → List VclockEntry
  | 0, _ => []
  | cnt + 1, buf => decodeEntry buf :: decodeEntries cnt (buf.drop 16)

lemma decodeEntries_length (cnt : Nat) (buf : List UInt8) : (decodeEntries cnt buf).length = cnt := by
  induction cnt generalizing buf with
  | zero => rfl
  | succ cnt ih => rw [decodeEntries, length_cons, ih]

/-- The clock and the bytes consumed, or `none` for 0. -/
def vclockDecode : List UInt8 → Option (Vclock × Nat)
  | [] => none
  | cnt :: buf =>
    if bound : cnt.toNat ≤ vclockMaxEntries then
      if buf.length + 1 < 1 + cnt.toNat * 16 then none
      else some (⟨decodeEntries cnt.toNat buf, by rwa [decodeEntries_length]⟩, 1 + cnt.toNat * 16)
    else none

lemma encodeEntry_length (entry : VclockEntry) : (encodeEntry entry).length = 16 := by
  simp [encodeEntry]

lemma decodeEntry_encodeEntry (entry : VclockEntry) (rest : List UInt8) :
    decodeEntry (encodeEntry entry ++ rest) = entry := by
  have key : Vector.ofFn (fun i : Fin 8 => (encodeEntry entry ++ rest).getD i 0) = entry.serverKey := by
    ext i bound
    simp [encodeEntry, getElem?_append_left]
  have tail : ((encodeEntry entry ++ rest).drop 8).take 8 = bigEndianBytes 8 entry.counter.toNat := by
    simp [encodeEntry]
  rw [decodeEntry, key, tail, bigEndian_bigEndianBytes (by simpa using entry.counter.toNat_lt), UInt64.ofNat_toNat]

variable {buf : List UInt8}

lemma serverKey_toList (enough : 8 ≤ buf.length) : (decodeEntry buf).serverKey.toList = buf.take 8 := by
  apply ext_getElem
  · simp [enough]
  · intro i first second
    have bound : i < 8 := by simpa using first
    have inside : i < buf.length := by omega
    simp [decodeEntry, inside]

lemma encodeEntry_decodeEntry (enough : 16 ≤ buf.length) : encodeEntry (decodeEntry buf) = buf.take 16 := by
  have length : ((buf.drop 8).take 8).length = 8 := by
    rw [length_take, length_drop]
    omega
  have bytes := bigEndianBytes_bigEndian ((buf.drop 8).take 8)
  have fits := bigEndian_lt ((buf.drop 8).take 8)
  rw [length] at bytes fits
  rw [encodeEntry, serverKey_toList (by omega), decodeEntry, UInt64.toNat_ofNat_of_lt' fits, bytes, ← take_add]

lemma decodeEntries_encode (entries : List VclockEntry) (rest : List UInt8) :
    decodeEntries entries.length (entries.flatMap encodeEntry ++ rest) = entries := by
  induction entries with
  | nil => rfl
  | cons entry entries ih =>
    rw [length_cons, flatMap_cons, append_assoc, decodeEntries, decodeEntry_encodeEntry,
      drop_left' (encodeEntry_length entry), ih]

lemma encode_decodeEntries (enough : cnt * 16 ≤ buf.length) :
    (decodeEntries cnt buf).flatMap encodeEntry = buf.take (cnt * 16) := by
  induction cnt generalizing buf with
  | zero => simp [decodeEntries]
  | succ cnt ih =>
    have rest := @ih (buf.drop 16) (by rw [length_drop]; omega)
    rw [decodeEntries, flatMap_cons, encodeEntry_decodeEntry (by omega), rest, ← take_add, Nat.succ_mul, add_comm]

lemma flatMap_encode_length (entries : List VclockEntry) :
    (entries.flatMap encodeEntry).length = entries.length * 16 := by
  simp [length_flatMap, encodeEntry_length]

lemma vclockDecode_cases (accepted : vclockDecode buf = some (vc, used)) :
    ∃ cnt body, buf = cnt :: body ∧ cnt.toNat * 16 ≤ body.length ∧ vc.entries = decodeEntries cnt.toNat body ∧
      used = 1 + cnt.toNat * 16 := by
  cases buf with
  | nil => cases accepted
  | cons cnt body =>
    simp only [vclockDecode] at accepted
    split_ifs at accepted with bound short
    cases accepted
    exact ⟨cnt, body, rfl, by omega, rfl, rfl⟩

variable {vc : Vclock} {cap : Nat}

lemma encode_eq (room : vclockWireSize vc ≤ cap) :
    vclockEncode vc cap = UInt8.ofNat vc.entries.length :: vc.entries.flatMap encodeEntry :=
  if_neg (Nat.not_lt.mpr room)

lemma count_toNat (vc : Vclock) : (UInt8.ofNat vc.entries.length).toNat = vc.entries.length := by
  have bound : vc.entries.length ≤ 32 := vc.bounded
  rw [UInt8.toNat_ofNat', Nat.mod_eq_of_lt (by omega)]

lemma decode_encode (vc : Vclock) (rest : List UInt8) :
    vclockDecode (UInt8.ofNat vc.entries.length :: vc.entries.flatMap encodeEntry ++ rest) =
      some (vc, vclockWireSize vc) := by
  have decoded := decodeEntries_encode vc.entries rest
  have enough : ¬ (vc.entries.flatMap encodeEntry ++ rest).length + 1 < 1 + vc.entries.length * 16 := by
    rw [length_append, flatMap_encode_length]
    omega
  simp only [cons_append, vclockDecode, count_toNat, vc.bounded, ↓reduceDIte, enough, ↓reduceIte, decoded]
  rfl

lemma decode_part {part : List UInt8}
    (initial : part <+: UInt8.ofNat vc.entries.length :: vc.entries.flatMap encodeEntry)
    (proper : part.length < vclockWireSize vc) : vclockDecode part = none := by
  cases part with
  | nil => rfl
  | cons cnt body =>
    have first : cnt = UInt8.ofNat vc.entries.length := (List.cons_prefix_cons.mp initial).1
    have short : body.length + 1 < 1 + vc.entries.length * 16 := proper
    simp only [vclockDecode, first, count_toNat, short, ↓reduceIte, dite_eq_ite, ite_self]

theorem vclock_wire_round_trip :
    (∀ (vc : Vclock) (cap : Nat), vclockWireSize vc ≤ cap → (vclockEncode vc cap).length = vclockWireSize vc ∧
        (∀ rest, vclockDecode (vclockEncode vc cap ++ rest) = some (vc, vclockWireSize vc)) ∧
        ∀ part, part <+: vclockEncode vc cap → part ≠ vclockEncode vc cap → vclockDecode part = none) ∧
      (∀ (vc : Vclock) (cap : Nat), cap < vclockWireSize vc → vclockEncode vc cap = []) ∧
      ∀ (buf : List UInt8) (vc : Vclock) (used : Nat), vclockDecode buf = some (vc, used) →
        used ≤ buf.length ∧ vclockWireSize vc = used ∧ ∀ cap, used ≤ cap → vclockEncode vc cap = buf.take used := by
  refine ⟨?_, fun vc cap short => if_pos short, ?_⟩
  · intro vc cap room
    have length : (vclockEncode vc cap).length = vclockWireSize vc := by
      rw [encode_eq room, length_cons, flatMap_encode_length, add_comm]
      rfl
    refine ⟨length, ?_, ?_⟩
    · intro rest
      rw [encode_eq room, decode_encode]
    · intro part initial proper
      have shorter : part.length < vclockWireSize vc := by
        rw [← length]
        apply lt_of_le_of_ne initial.length_le
        intro same
        exact proper (initial.eq_of_length same)
      rw [encode_eq room] at initial
      exact decode_part initial shorter
  · intro buf vc used accepted
    obtain ⟨cnt, body, rfl, enough, entries, rfl⟩ := vclockDecode_cases accepted
    have count : vc.entries.length = cnt.toNat := by rw [entries, decodeEntries_length]
    have size : vclockWireSize vc = 1 + cnt.toNat * 16 := by rw [vclockWireSize, count]
    refine ⟨by rw [length_cons]; omega, size, ?_⟩
    intro cap room
    rw [encode_eq (size ▸ room), count, UInt8.ofNat_toNat, entries, encode_decodeEntries enough, add_comm,
      take_succ_cons]

def vclockZero : Vclock := ⟨[], Nat.zero_le _⟩

/-- The server keys as they lie in the buffer. -/
def wireKeys (buf : List UInt8) : List (List UInt8) :=
  (List.range (buf.headD 0).toNat).map (fun i => (buf.drop (1 + i * 16)).take 8)

lemma decodeEntries_keys (enough : cnt * 16 ≤ buf.length) : (decodeEntries cnt buf).map (fun e => e.serverKey.toList) =
      (List.range cnt).map (fun i => (buf.drop (i * 16)).take 8) := by
  induction cnt generalizing buf with
  | zero => rfl
  | succ cnt ih =>
    have rest := @ih (buf.drop 16) (by rw [length_drop]; omega)
    rw [decodeEntries, map_cons, rest, serverKey_toList (by omega), range_succ_eq_map, map_cons,
      map_map, zero_mul, drop_zero]
    congr 1
    apply map_congr_left
    intro i _
    rw [drop_drop, Function.comp_apply, Nat.succ_mul, add_comm]

lemma decoded_distinct_iff (accepted : vclockDecode buf = some (vc, used)) : vc.Distinct ↔ (wireKeys buf).Nodup := by
  obtain ⟨cnt, body, rfl, enough, entries, rfl⟩ := vclockDecode_cases accepted
  have same : wireKeys (cnt :: body) = (vc.entries.map VclockEntry.serverKey).map Vector.toList := by
    rw [map_map, entries]
    refine Eq.trans ?_ (decodeEntries_keys enough).symm
    simp [wireKeys, add_comm 1]
  rw [same, nodup_map_iff (fun _ _ => Vector.toList_inj.mp)]
  rfl

lemma merge_zero (nodup : vc.Distinct) : vclockCmp (vclockMerge vclockZero vc) vc = 0 := by
  have few : (vclockZero.keys ∪ vc.keys).card ≤ vclockMaxEntries := by
    rw [show vclockZero.keys = ∅ from rfl, Finset.empty_union, card_keys nodup]
    exact vc.bounded
  have merged := vclockMerge_spec (show vclockZero.Distinct from nodup_nil) nodup few
  rw [(vclockCmp_iff merged.1 nodup).1, merged.2.2]
  funext key
  exact Nat.zero_max _

theorem decoded_well_formed_iff (buf : List UInt8) (vc : Vclock) (used : Nat)
    (accepted : vclockDecode buf = some (vc, used)) :
    vc.Distinct ∧ vclockCmp vc vc = 0 ∧ vclockCmp (vclockMerge vclockZero vc) vc = 0 ↔ (wireKeys buf).Nodup := by
  rw [← decoded_distinct_iff accepted]
  constructor
  · exact And.left
  · intro nodup
    exact ⟨nodup, (vclockCmp_iff nodup nodup).1.mpr rfl, merge_zero nodup⟩

def onceKeyed : List UInt8 := [2, 7,7,7,7,7,7,7,7, 0,0,0,0,0,0,0,9, 8,7,7,7,7,7,7,7, 0,0,0,0,0,0,0,3]

theorem decoded_well_formed_two : ∃ vc, vclockDecode onceKeyed = some (vc, 33) ∧ vclockCmp vc vc = 0 :=
  ⟨_, rfl, ((decoded_well_formed_iff onceKeyed _ 33 rfl).mpr (by decide)).2.1⟩

def twiceKeyed : List UInt8 := [2, 7,7,7,7,7,7,7,7, 0,0,0,0,0,0,0,1, 7,7,7,7,7,7,7,7, 0,0,0,0,0,0,0,2]

theorem decoded_clock_differs_from_itself : ∃ vc, vclockDecode twiceKeyed = some (vc, 33) ∧ ¬ vc.Distinct ∧
    vclockCmp vc vc = 2 ∧ vclockCmp (vclockMerge vclockZero vc) vc ≠ 0 := by
  refine ⟨_, rfl, ?_, ?_, ?_⟩
  · unfold Vclock.Distinct
    decide
  · decide
  · decide

end LibOp.Clock

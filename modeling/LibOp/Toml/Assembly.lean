import LibOp.Toml.Trees

namespace LibOp.Toml

open Foundation Strings List CurTab Section Nat

structure PointsInto (cur : CurTab) (context : Table → Table) : Prop where
  tabAt : ∀ t, tabAt (context t) cur = some t
  setTabAt : ∀ t t', setTabAt (context t) t' cur = context t'

lemma pointsInto_root : PointsInto .root id := ⟨fun _ => rfl, fun _ _ => rfl⟩

lemma getElem?_middle {α : Type} (a b : List α) (x : α) : (a ++ x :: b)[a.length]? = some x := by
  rw [getElem?_append_right le_rfl, Nat.sub_self]
  rfl

lemma modify_middle {α : Type} (a b : List α) (x : α) (f : α → α) :
    (a ++ x :: b).modify a.length f = a ++ f x :: b := by
  induction a with
  | nil => rfl
  | cons y a ih => exact congrArg (y :: ·) ih

lemma setVal_tableOf (a b : List (List UInt8 × Tv)) (key : List UInt8) (tv : Tv) (f : Tv → Tv) :
    setVal (tableOf (a ++ (key, tv) :: b)) a.length f = tableOf (a ++ (key, f tv) :: b) := by
  rw [setVal, tableOf, tableOf, modify_middle, length_append, length_append, length_cons, length_cons]

lemma pointsInto_entry (a b : List (List UInt8 × Tv)) (key : List UInt8) :
    PointsInto (.entry a.length) fun t => tableOf (a ++ (key, t.tv) :: b) where
  tabAt t := by
    rw [tabAt, tableOf, getElem?_middle]
    rfl
  setTabAt t t' := setVal_tableOf a b key t.tv fun _ => t'.tv

lemma setItem_arrOf (items : List Tv) (item item' : Tv) :
    setItem items.length item' (arrOf (items ++ [item])).tv = (arrOf (items ++ [item'])).tv := by
  rw [arrOf, Arr.tv, setItem, arrOf, Arr.tv, set_append_right _ _ le_rfl, Nat.sub_self, set_cons_zero,
    length_append, length_append, length_singleton, length_singleton]

lemma pointsInto_element (a b : List (List UInt8 × Tv)) (key : List UInt8) (items : List Tv) :
    PointsInto (.element a.length items.length) fun t => tableOf (a ++ (key, (arrOf (items ++ [t.tv])).tv) :: b) where
  tabAt t := by
    rw [tabAt, tableOf, getElem?_middle, Option.bind_some, Arr.tv, Tv.asArr, Option.bind_some, arrOf, getElem?_middle]
    rfl
  setTabAt t t' := by
    rw [setTabAt, setVal_tableOf, setItem_arrOf]

variable {key : List UInt8}

lemma findFrom_none (fresh : key ∉ kv.map Prod.fst) (i : Nat) : findFrom key i kv = none := by
  induction kv generalizing i with
  | nil => rfl
  | cons e kv ih =>
    rw [map_cons, mem_cons, not_or] at fresh
    rw [findFrom, if_neg (Ne.symm fresh.1), ih fresh.2]

variable {a : List (List UInt8 × Tv)} {t first : Entries}

lemma findFrom_middle (fresh : key ∉ a.map Prod.fst) (tv : Tv) (b : List (List UInt8 × Tv)) (i : Nat) :
    findFrom key i (a ++ (key, tv) :: b) = some (i + a.length, tv) := by
  induction a generalizing i with
  | nil => exact if_pos rfl
  | cons e a ih =>
    rw [map_cons, mem_cons, not_or] at fresh
    rw [cons_append, findFrom, if_neg (Ne.symm fresh.1), ih fresh.2, length_cons, add_assoc, add_comm 1]

lemma tableFind_none (fresh : key ∉ kv.map Prod.fst) : tableFind (tableOf kv) key = none :=
  findFrom_none fresh 0

lemma tableFind_middle (fresh : key ∉ a.map Prod.fst) (tv : Tv) (b : List (List UInt8 × Tv)) :
    tableFind (tableOf (a ++ (key, tv) :: b)) key = some (a.length, tv) := by
  have found := findFrom_middle fresh tv b 0
  rwa [zero_add] at found

variable {cur : CurTab} {context : Table → Table} {kv : List (List UInt8 × Tv)}

lemma yields_line (points : PointsInto cur context) (fresh : k.bytes ∉ kv.map Prod.fst)
    (bound : kv.length ≤ maxCount) (v : Value) :
    YieldsWhen (applyStatement (context (tableOf kv), cur) (.line k v)) (v.Fits ∧ kv.length < maxCount)
      (context (tableOf (kv ++ [(k.bytes, v.tv)])), cur) := by
  have inserted := (tableInsert_tableOf bound k.bytes v.tv).map fun t => (setTabAt (context (tableOf kv)) t cur, cur)
  rw [points.setTabAt] at inserted
  rw [applyStatement, points.tabAt, Option.bind_some, tableFind_none fresh]
  exact v.yields_build.bind fun _ => inserted

lemma yields_lines (points : PointsInto cur context) (bound : kv.length ≤ maxCount)
    (nodup : (kv.map Prod.fst ++ l.map fun e => e.1.bytes).Nodup) :
    YieldsWhen ((entryLines l).foldlM applyStatement (context (tableOf kv), cur))
      (LinesFit l ∧ kv.length + l.length ≤ maxCount) (context (tableOf (kv ++ entryKv l)), cur) := by
  induction l generalizing kv with
  | nil =>
    have none : LinesFit [] := fun _ mem => by cases mem
    rw [entryKv, map_nil, append_nil]
    exact (YieldsWhen.of_some _).congr (iff_of_true trivial ⟨none, bound⟩)
  | cons e l ih =>
    have fresh : e.1.bytes ∉ kv.map Prod.fst := by
      intro mem
      exact (List.nodup_append.mp nodup).2.2 _ mem _ mem_cons_self rfl
    have counted : (kv ++ [(e.1.bytes, e.2.tv)]).length = kv.length + 1 := length_append
    have lines := (yields_line points fresh bound e.2).foldlM_cons (l := entryLines l) fun fits =>
      ih (counted ▸ fits.2) (by simpa using nodup)
    rw [counted, append_assoc, singleton_append] at lines
    apply lines.congr
    simp only [LinesFit, forall_mem_cons, length_cons]
    constructor
    · rintro ⟨⟨head, -⟩, tail, room⟩
      exact ⟨⟨head, tail⟩, by omega⟩
    · rintro ⟨⟨head, tail⟩, room⟩
      exact ⟨⟨head, by omega⟩, tail, by omega⟩

lemma none_bound : ([] : List (List UInt8 × Tv)).length ≤ maxCount := zero_le _

lemma yields_entries (points : PointsInto cur context) (t : Entries) :
    YieldsWhen ((entryLines t.list).foldlM applyStatement (context tableNew, cur)) t.Fits (context t.table, cur) := by
  have lines := yields_lines points none_bound t.distinct
  apply lines.congr
  rw [Entries.Fits, length_nil, zero_add, and_comm]

variable (cur) {name : Name}

lemma yields_openTable (fresh : name.bytes ∉ kv.map Prod.fst) (bound : kv.length ≤ maxCount) :
    YieldsWhen (applyStatement (tableOf kv, cur) (.header false name)) (kv.length < maxCount)
      (tableOf (kv ++ [(name.bytes, tableNew.tv)]), .entry kv.length) := by
  have inserted := (tableInsert_tableOf bound name.bytes tableNew.tv).map fun t => (t, entry kv.length)
  have same : applyStatement (tableOf kv, cur) (.header false name) =
      (tableInsert (tableOf kv) name.bytes tableNew.tv).map fun t => (t, entry kv.length) := by
    change landed (openTable ⟨⟨[], 0⟩, tableOf kv, cur⟩ name.bytes) = _
    rw [openTable]
    simp only [tableFind_none fresh]
    cases tableInsert (tableOf kv) name.bytes tableNew.tv <;> rfl
  rwa [same]

lemma yields_openFirst (fresh : name.bytes ∉ kv.map Prod.fst) (bound : kv.length ≤ maxCount) :
    YieldsWhen (applyStatement (tableOf kv, cur) (.header true name)) (kv.length < maxCount)
      (tableOf (kv ++ [(name.bytes, (arrOf [tableNew.tv]).tv)]), .element kv.length 0) := by
  have inserted := (tableInsert_tableOf bound name.bytes arrNew.tv).map fun t =>
    (setVal t kv.length fun _ => (arrOf [tableNew.tv]).tv, element kv.length 0)
  rw [setVal_tableOf] at inserted
  have pushed : arrPush arrNew tableNew.tv = some (arrOf [tableNew.tv]) := rfl
  have same : applyStatement (tableOf kv, cur) (.header true name) =
      (tableInsert (tableOf kv) name.bytes arrNew.tv).map fun t =>
        (setVal t kv.length fun _ => (arrOf [tableNew.tv]).tv, element kv.length 0) := by
    change landed (openElement ⟨⟨[], 0⟩, tableOf kv, cur⟩ name.bytes) = _
    rw [openElement]
    simp only [tableFind_none fresh, pushed]
    cases tableInsert (tableOf kv) name.bytes arrNew.tv <;> rfl
  rwa [same]

variable {b : List (List UInt8 × Tv)} {items : List Tv}

lemma yields_openNext (fresh : name.bytes ∉ a.map Prod.fst) (bound : items.length ≤ maxCount) :
    YieldsWhen (applyStatement (tableOf (a ++ (name.bytes, (arrOf items).tv) :: b), cur) (.header true name))
      (items.length < maxCount)
      (tableOf (a ++ (name.bytes, (arrOf (items ++ [tableNew.tv])).tv) :: b), .element a.length items.length) := by
  have pushed := (arrPush_arrOf bound tableNew.tv).map fun arr =>
    (setVal (tableOf (a ++ (name.bytes, (arrOf items).tv) :: b)) a.length fun _ => arr.tv,
      element a.length items.length)
  rw [setVal_tableOf] at pushed
  have same : applyStatement (tableOf (a ++ (name.bytes, (arrOf items).tv) :: b), cur) (.header true name) =
      (arrPush (arrOf items) tableNew.tv).map fun arr =>
        (setVal (tableOf (a ++ (name.bytes, (arrOf items).tv) :: b)) a.length fun _ => arr.tv,
          element a.length items.length) := by
    have found := tableFind_middle fresh (arrOf items).tv b
    rw [Arr.tv] at found
    have folded : Arr.mk (arrOf items).items (arrOf items).cap = arrOf items := rfl
    change landed (openElement ⟨⟨[], 0⟩, tableOf (a ++ (name.bytes, Tv.arr _ _) :: b), cur⟩ name.bytes) = _
    rw [openElement]
    simp only [found, folded]
    cases arrPush (arrOf items) tableNew.tv <;> rfl
  rwa [same]

lemma yields_tableBlock (fresh : name.bytes ∉ kv.map Prod.fst) (bound : kv.length ≤ maxCount) (t : Entries) :
    YieldsWhen ((Block.mk false name t).statements.foldlM applyStatement (tableOf kv, cur))
      (kv.length < maxCount ∧ t.Fits) (tableOf (kv ++ [(name.bytes, t.table.tv)]), .entry kv.length) :=
  (yields_openTable cur fresh bound).foldlM_cons fun _ => yields_entries (pointsInto_entry kv [] name.bytes) t

lemma yields_firstBlock (fresh : name.bytes ∉ kv.map Prod.fst) (bound : kv.length ≤ maxCount) (t : Entries) :
    YieldsWhen ((Block.mk true name t).statements.foldlM applyStatement (tableOf kv, cur))
      (kv.length < maxCount ∧ t.Fits) (tableOf (kv ++ [(name.bytes, (arrOf [t.table.tv]).tv)]), .element kv.length 0) :=
  (yields_openFirst cur fresh bound).foldlM_cons fun _ => yields_entries (pointsInto_element kv [] name.bytes []) t

lemma yields_nextBlock (fresh : name.bytes ∉ a.map Prod.fst) (bound : items.length ≤ maxCount) (t : Entries) :
    YieldsWhen ((Block.mk true name t).statements.foldlM applyStatement
        (tableOf (a ++ (name.bytes, (arrOf items).tv) :: b), cur)) (items.length < maxCount ∧ t.Fits)
      (tableOf (a ++ (name.bytes, (arrOf (items ++ [t.table.tv])).tv) :: b), .element a.length items.length) :=
  (yields_openNext cur fresh bound).foldlM_cons fun _ => yields_entries (pointsInto_element a b name.bytes items) t

def rootKeys (values : List (CStr × Value)) (sections : List (Name × Section)) : List (List UInt8) :=
  values.map (fun e => e.1.bytes) ++ sections.map fun e => e.1.bytes

section

variable (values : List (CStr × Value))

lemma keys_rootKv (sections : List (Name × Section)) :
    (rootKv values sections).map Prod.fst = rootKeys values sections := by
  rw [rootKv, rootKeys, entryKv, sectionKv, map_append, map_map, map_map]
  rfl

lemma length_rootKv (sections : List (Name × Section)) :
    (rootKv values sections).length = values.length + sections.length := by
  rw [rootKv, entryKv, sectionKv, length_append, length_map, length_map]

lemma rootKv_append (sections more : List (Name × Section)) :
    rootKv values (sections ++ more) = rootKv values sections ++ sectionKv more := by
  rw [rootKv, sectionKv, map_append, ← append_assoc]
  rfl

end

variable {values : List (CStr × Value)} {sections pre post : List (Name × Section)} {x : Name × Section}

lemma fresh_of_nodup (nodup : (rootKeys values (sections ++ x :: post)).Nodup) :
    x.1.bytes ∉ (rootKv values sections).map Prod.fst := by
  rw [rootKeys, map_append, ← append_assoc] at nodup
  rw [keys_rootKv]
  intro mem
  exact (List.nodup_append.mp nodup).2.2 _ mem _ mem_cons_self rfl

lemma nodup_of_append (nodup : (rootKeys values (sections ++ [x])).Nodup) : (rootKeys values sections).Nodup := by
  rw [rootKeys, map_append, ← append_assoc] at nodup
  exact (List.nodup_append.mp nodup).1

lemma treeFits_append (name : Name) (s : Section) : TreeFits values (sections ++ [(name, s)]) ↔
    TreeFits values sections ∧ values.length + sections.length < maxCount ∧ s.Fits := by
  simp only [TreeFits, length_append, length_singleton, forall_mem_append, forall_mem_singleton]
  constructor
  · rintro ⟨room, lines, fits, last⟩
    exact ⟨⟨by omega, lines, fits⟩, by omega, last⟩
  · rintro ⟨⟨-, lines, fits⟩, room, last⟩
    exact ⟨by omega, lines, fits, last⟩

lemma tables_fits_singleton : (tables t []).Fits ↔ t.Fits := by
  have room : [t].length ≤ maxCount := Nat.one_le_two_pow
  rw [Section.Fits, forall_mem_singleton, and_iff_right room]

variable {others : List Entries}

lemma tables_fits : (tables first (others ++ [t])).Fits ↔
    (tables first others).Fits ∧ (first :: others).length < maxCount ∧ t.Fits := by
  rw [Section.Fits, Section.Fits, ← cons_append, length_append, length_singleton, forall_mem_append,
    forall_mem_singleton]
  constructor
  · rintro ⟨room, fits, last⟩
    exact ⟨⟨by omega, fits⟩, by omega, last⟩
  · rintro ⟨⟨-, fits⟩, room, last⟩
    exact ⟨by omega, fits, last⟩

lemma treeFits_next : TreeFits values (pre ++ (name, .tables first (others ++ [t])) :: post) ↔
      TreeFits values (pre ++ (name, .tables first others) :: post) ∧ (first :: others).length < maxCount ∧ t.Fits := by
  simp only [TreeFits, length_append, length_cons, forall_mem_append, forall_mem_cons, tables_fits]
  constructor
  · rintro ⟨room, lines, before, ⟨fits, more⟩, behind⟩
    exact ⟨⟨room, lines, before, fits, behind⟩, more⟩
  · rintro ⟨⟨room, lines, before, fits, behind⟩, more⟩
    exact ⟨room, lines, before, ⟨fits, more⟩, behind⟩

lemma length_tablesTv (l : List Entries) : (tablesTv l).length = l.length := length_map _

lemma tablesTv_concat (l : List Entries) (t : Entries) : tablesTv (l ++ [t]) = tablesTv l ++ [t.table.tv] :=
  map_append

lemma tables_bound (fits : TreeFits values (pre ++ (name, .tables first others) :: post)) :
    (tablesTv (first :: others)).length ≤ maxCount := by
  have section_ := fits.2.2 (name, .tables first others) (by simp)
  rw [length_tablesTv]
  exact section_.1

lemma treeFits_nil : TreeFits values [] ↔ LinesFit values ∧ values.length ≤ maxCount := by
  have none : ∀ e ∈ ([] : List (Name × Section)), e.2.Fits := fun _ mem => by cases mem
  rw [TreeFits, length_nil, add_zero, and_iff_left none, and_comm]

variable {blocks : List Block}

lemma yields_append_block {b : Block} {st st' : Table × CurTab} {P Q : Prop}
    (built : YieldsWhen ((entryLines values ++ blocks.flatMap Block.statements).foldlM applyStatement (tableNew, .root))
      P st) (block : P → YieldsWhen (b.statements.foldlM applyStatement st) Q st') :
    YieldsWhen ((entryLines values ++ (blocks ++ [b]).flatMap Block.statements).foldlM applyStatement (tableNew, .root))
      (P ∧ Q) st' := by
  rw [flatMap_append, flatMap_singleton, ← append_assoc]
  exact built.foldlM_append block

lemma yields_document (arranged : Arranged blocks sections) (nodup : (rootKeys values sections).Nodup) :
    ∃ last, YieldsWhen ((entryLines values ++ blocks.flatMap Block.statements).foldlM applyStatement (tableNew, .root))
      (TreeFits values sections) (tableOf (rootKv values sections), last) := by
  induction arranged with
  | nil =>
    have lines := yields_lines pointsInto_root none_bound (List.nodup_append.mp nodup).1
    rw [length_nil, zero_add] at lines
    refine ⟨.root, ?_⟩
    rw [flatMap_nil, append_nil, rootKv, sectionKv, map_nil, append_nil]
    exact lines.congr treeFits_nil.symm
  | @table blocks sections name t before ih =>
    obtain ⟨cur, built⟩ := ih (nodup_of_append nodup)
    have grown := yields_append_block (b := ⟨false, name, t⟩) built fun fits =>
      yields_tableBlock cur (fresh_of_nodup nodup) ((length_rootKv values sections).trans_le fits.1) t
    rw [length_rootKv] at grown
    rw [rootKv_append]
    exact ⟨_, grown.congr (treeFits_append name (.table t)).symm⟩
  | @first blocks sections name t before ih =>
    obtain ⟨cur, built⟩ := ih (nodup_of_append nodup)
    have grown := yields_append_block (b := ⟨true, name, t⟩) built fun fits =>
      yields_firstBlock cur (fresh_of_nodup nodup) ((length_rootKv values sections).trans_le fits.1) t
    rw [length_rootKv] at grown
    rw [rootKv_append]
    refine ⟨_, grown.congr ?_⟩
    rw [treeFits_append, tables_fits_singleton]
  | @next blocks pre post first others name t before ih =>
    have sameKeys : rootKeys values (pre ++ (name, .tables first (others ++ [t])) :: post) =
        rootKeys values (pre ++ (name, .tables first others) :: post) := by
      rw [rootKeys, rootKeys, map_append, map_append]
      rfl
    have fresh := fresh_of_nodup nodup
    obtain ⟨cur, built⟩ := ih (sameKeys ▸ nodup)
    rw [rootKv_append] at built ⊢
    have grown := yields_append_block (b := ⟨true, name, t⟩) built fun fits =>
      yields_nextBlock cur fresh (tables_bound fits) t
    rw [length_tablesTv, ← tablesTv_concat, cons_append] at grown
    exact ⟨_, grown.congr treeFits_next.symm⟩

end LibOp.Toml

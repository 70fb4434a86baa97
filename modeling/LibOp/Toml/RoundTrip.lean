import LibOp.Toml.Assembly

namespace LibOp.Toml

open Foundation Strings List

inductive Item where
  | str (s : CStr)
  | int (n : LongInt)
  | table (t : Entries)

inductive Node where
  | str (s : CStr)
  | int (n : LongInt)
  | bool (b : Bool)
  | table (t : Entries)
  | arr (items : List Item)

def Value.node : Value → Node
  | .str s => .str s
  | .int n => .int n
  | .bool b => .bool b
  | .strs l => .arr (l.map .str)
  | .ints l => .arr (l.map .int)

def Section.node : Section → Node
  | .table t => .table t
  | .tables first others => .arr ((first :: others).map .table)

def valueNodes (l : List (CStr × Value)) : List (List UInt8 × Node) := l.map fun e => (e.1.bytes, e.2.node)

def Entries.nodes (t : Entries) : List (List UInt8 × Node) := valueNodes t.list

def Document.nodes (d : Document) : List (List UInt8 × Node) :=
  valueNodes d.values ++ d.sections.map fun e => (e.1.bytes, e.2.node)

def Item.asStr : Item → Option (List UInt8)
  | .str s => some s.bytes
  | _ => none

def Item.asInt : Item → Option Int
  | .int n => some n.1
  | _ => none

def Item.asTable : Item → Option Entries
  | .table t => some t
  | _ => none

def Node.asStr : Node → Option (List UInt8)
  | .str s => some s.bytes
  | _ => none

def Node.asInt : Node → Option Int
  | .int n => some n.1
  | _ => none

def Node.asBool : Node → Option Bool
  | .bool b => some b
  | _ => none

def Node.asTable : Node → Option Entries
  | .table t => some t
  | _ => none

def Node.asArr : Node → Option (List Item)
  | .arr items => some items
  | _ => none

def answer {α : Type} : Option (Option α) → Int × Option α
  | none => (0, none)
  | some none => (-1, none)
  | some (some a) => (1, some a)

def itemAt (items : List Item) (i : Int) : Option Item := if i < 0 then none else items[i.toNat]?

structure ReadsArr (Below : Entries → Table → Prop) (items : List Item) (a : Arr) : Prop where
  len : opTomlArrLen a = items.length
  str : ∀ i, opTomlArrStr a i = answer ((itemAt items i).map Item.asStr)
  int : ∀ i, opTomlArrInt a i = answer ((itemAt items i).map Item.asInt)
  table : ∀ i, Option.Rel Below ((itemAt items i).bind Item.asTable) (opTomlArrTable a i)

/-- Every accessor, asked for any key, answers as the tree does. -/
structure ReadsTable (Below : Entries → Table → Prop) (nodes : List (List UInt8 × Node)) (t : Table) : Prop where
  iter : ∀ {σ : Type} (fn : σ → List UInt8 → σ) (ud : σ), opTomlIter t fn ud = (nodes.map Prod.fst).foldl fn ud
  str : ∀ k, opTomlStr t k = answer ((nodes.lookup k).map Node.asStr)
  int : ∀ k, opTomlInt t k = answer ((nodes.lookup k).map Node.asInt)
  bool : ∀ k, opTomlBool t k = answer ((nodes.lookup k).map Node.asBool)
  table : ∀ k, Option.Rel Below ((nodes.lookup k).bind Node.asTable) (opTomlTable t k)
  arr : ∀ k, Option.Rel (ReadsArr Below) ((nodes.lookup k).bind Node.asArr) (opTomlArr t k)

def ReadsEntries (e : Entries) (t : Table) : Prop := ReadsTable (fun _ _ => False) e.nodes t

def Reads (d : Document) (root : Table) : Prop := ReadsTable ReadsEntries d.nodes root

def Item.tv : Item → Tv
  | .str s => .str s.bytes
  | .int n => .int n.1
  | .table t => t.table.tv

def Node.tv : Node → Tv
  | .str s => .str s.bytes
  | .int n => .int n.1
  | .bool b => .bool b
  | .table t => t.table.tv
  | .arr items => (arrOf (items.map Item.tv)).tv

lemma Value.node_tv (v : Value) : v.node.tv = v.tv := by
  cases v with
  | strs l | ints l => rw [node, Node.tv, map_map]; rfl
  | _ => rfl

lemma Section.node_tv (s : Section) : s.node.tv = s.tv := by
  cases s with
  | table t => rfl
  | tables first others => rw [node, Node.tv, map_map]; rfl

def nodesKv (nodes : List (List UInt8 × Node)) : List (List UInt8 × Tv) := nodes.map fun e => (e.1, e.2.tv)

lemma nodesKv_valueNodes (l : List (CStr × Value)) : nodesKv (valueNodes l) = entryKv l := by
  rw [nodesKv, valueNodes, map_map, entryKv]
  apply map_congr_left
  intro e _
  exact congrArg (Prod.mk e.1.bytes) e.2.node_tv

lemma Entries.table_eq (t : Entries) : t.table = tableOf (nodesKv t.nodes) := by
  rw [table, nodes, nodesKv_valueNodes]

lemma Document.table_eq (d : Document) : d.table = tableOf (nodesKv d.nodes) := by
  have sections : nodesKv (d.sections.map fun e => (e.1.bytes, e.2.node)) = sectionKv d.sections := by
    rw [nodesKv, map_map, sectionKv]
    apply map_congr_left
    intro e _
    exact congrArg (Prod.mk e.1.bytes) e.2.node_tv
  rw [table, nodes, rootKv, ← nodesKv_valueNodes, ← sections, nodesKv, nodesKv, nodesKv, map_append]

lemma readAs_eq {α : Type} (pick : Tv → Option α) (val : Option Tv) : readAs pick val = answer (val.map pick) := by
  cases val with
  | none => rfl
  | some val => cases found : pick val <;> simp [readAs, answer, found]

lemma tableGet_nodesKv (nodes : List (List UInt8 × Node)) (k : List UInt8) :
    tableGet (tableOf (nodesKv nodes)) k = (nodes.lookup k).map Node.tv := by
  have found : ∀ i, (findFrom k i (nodesKv nodes)).map Prod.snd = (nodes.lookup k).map Node.tv := by
    induction nodes with
    | nil => exact fun _ => rfl
    | cons e nodes ih =>
      intro i
      rw [nodesKv, map_cons, findFrom, lookup_cons]
      by_cases same : e.1 = k
      · rw [if_pos same, same, beq_self_eq_true]
        rfl
      · rw [if_neg same, beq_eq_false_iff_ne.mpr (Ne.symm same)]
        exact ih (i + 1)
  exact found 0

lemma arrGet_arrOf (items : List Item) (i : Int) :
    arrGet (arrOf (items.map Item.tv)) i = (itemAt items i).map Item.tv := by
  rw [arrGet, itemAt]
  split_ifs
  · rfl
  · exact getElem?_map

def Node.tables : Node → List Entries
  | .table t => [t]
  | .arr items => items.filterMap Item.asTable
  | _ => []

variable {Below : Entries → Table → Prop} {α β : Type}

lemma rel_map (related : ∀ a ∈ o, r a (f a)) : Option.Rel r o (o.map f) := by
  cases o with
  | none => exact Option.Rel.none
  | some a => exact Option.Rel.some (related a rfl)

lemma bind_map_comm {α β γ δ : Type} {f : α → β} {pick : β → Option γ} {pick' : α → Option δ} {g : δ → γ}
    (same : ∀ a, pick (f a) = (pick' a).map g) (o : Option α) : (o.map f).bind pick = (o.bind pick').map g := by
  cases o with
  | none => rfl
  | some a => exact same a

lemma readAs_map (same : ∀ b, pick (f b) = pick' b) (o : Option β) : readAs pick (o.map f) = answer (o.map pick') := by
  rw [readAs_eq, Option.map_map]
  congr 2
  funext b
  exact same b

lemma readsArr_arrOf {items : List Item} (below : ∀ t ∈ items.filterMap Item.asTable, Below t t.table) :
    ReadsArr Below items (arrOf (items.map Item.tv)) where
  len := length_map _
  str i := by
    rw [opTomlArrStr, arrGet_arrOf]
    exact readAs_map (fun item => by cases item <;> rfl) _
  int i := by
    rw [opTomlArrInt, arrGet_arrOf]
    exact readAs_map (fun item => by cases item <;> rfl) _
  table i := by
    have same : ∀ item : Item, item.tv.asTable = item.asTable.map Entries.table := fun item => by cases item <;> rfl
    rw [opTomlArrTable, arrGet_arrOf, bind_map_comm same]
    apply rel_map
    intro t mem
    obtain ⟨item, found, isTable⟩ := Option.bind_eq_some_iff.mp mem
    apply below
    have member : item ∈ items := by
      rw [itemAt] at found
      split_ifs at found
      exact mem_of_getElem? found
    exact List.mem_filterMap.mpr ⟨item, member, isTable⟩

variable {nodes : List (List UInt8 × Node)}

lemma mem_of_lookup (found : nodes.lookup k = some n) : (k, n) ∈ nodes := by
  obtain ⟨front, back, split, -⟩ := List.lookup_eq_some_iff.mp found
  rw [split]
  exact mem_append_right front mem_cons_self

lemma readsTable_tableOf (below : ∀ e ∈ nodes, ∀ t ∈ e.2.tables, Below t t.table) :
    ReadsTable Below nodes (tableOf (nodesKv nodes)) where
  iter fn ud := by rw [opTomlIter, tableOf, nodesKv, foldl_map, foldl_map]
  str k := by
    rw [opTomlStr, tableGet_nodesKv]
    exact readAs_map (fun n => by cases n <;> rfl) _
  int k := by
    rw [opTomlInt, tableGet_nodesKv]
    exact readAs_map (fun n => by cases n <;> rfl) _
  bool k := by
    rw [opTomlBool, tableGet_nodesKv]
    exact readAs_map (fun n => by cases n <;> rfl) _
  table k := by
    have same : ∀ n : Node, n.tv.asTable = n.asTable.map Entries.table := fun n => by cases n <;> rfl
    rw [opTomlTable, tableGet_nodesKv, bind_map_comm same]
    apply rel_map
    intro t mem
    obtain ⟨n, found, isTable⟩ := Option.bind_eq_some_iff.mp mem
    cases n with
    | table t' =>
      cases isTable
      exact below _ (mem_of_lookup found) t mem_cons_self
    | _ => cases isTable
  arr k := by
    have same : ∀ n : Node, n.tv.asArr = n.asArr.map fun items => arrOf (items.map Item.tv) :=
      fun n => by cases n <;> rfl
    rw [opTomlArr, tableGet_nodesKv, bind_map_comm same]
    apply rel_map
    intro items mem
    obtain ⟨n, found, isArr⟩ := Option.bind_eq_some_iff.mp mem
    cases n with
    | arr items' =>
      cases isArr
      exact readsArr_arrOf (below _ (mem_of_lookup found))
    | _ => cases isArr

lemma Value.tables_node (v : Value) : v.node.tables = [] := by
  cases v with
  | strs l | ints l => rw [node, Node.tables, filterMap_map]; exact List.filterMap_eq_nil_iff.mpr fun _ _ => rfl
  | _ => rfl

lemma readsEntries_table (t : Entries) : ReadsEntries t t.table := by
  rw [ReadsEntries, t.table_eq]
  apply readsTable_tableOf
  intro e mem t' inside
  obtain ⟨entry, -, rfl⟩ := List.mem_map.mp mem
  rw [Value.tables_node] at inside
  cases inside

lemma reads_table (d : Document) : Reads d d.table := by
  rw [Reads, d.table_eq]
  exact readsTable_tableOf fun _ _ t _ => readsEntries_table t

lemma opTomlParse_renders {text : List UInt8} (rendered : Renders d text) :
    YieldsWhen (opTomlParse text).toOption d.Fits d.table := by
  cases rendered with
  | mk arranged lines =>
    obtain ⟨last, built⟩ := yields_document arranged d.distinct
    rw [opTomlParse_text lines]
    exact built.map Prod.fst

theorem toml_document_round_trip (d : Document) {text : List UInt8} (rendered : Renders d text) :
    (∃ root, opTomlParse text = .ok root ∧ Reads d root) ↔ d.Fits := by
  have outcome := opTomlParse_renders rendered
  constructor
  · rintro ⟨root, parsed, -⟩
    rw [parsed] at outcome
    exact (outcome.eq_some_iff.mp rfl).1
  · intro fits
    refine ⟨d.table, ?_, reads_table d⟩
    cases parsed : opTomlParse text with
    | error e =>
      rw [parsed] at outcome
      cases outcome.yields fits
    | ok root =>
      rw [parsed] at outcome
      exact congrArg Except.ok (Option.some.inj (outcome.yields fits))

def letterA : CStr := ⟨[0x61], by decide⟩

def letterT : Name := ⟨[0x74], by decide, List.forall_mem_singleton.mpr rfl⟩

def smallTable : Entries := ⟨[(letterA, .str ⟨[quote], by decide⟩)], by decide⟩

def smallDocument : Document where
  values := [(letterA, .int ⟨-7, by decide⟩)]
  sections := [(letterT, .table smallTable)]
  distinct := by decide

/-- `a=-7`, `[t]` and `a="\""` on three lines. -/
def smallText : List UInt8 :=
  [0x61, equals, minus, 0x37, lf, openBracket, 0x74, closeBracket, lf, 0x61, equals, quote, backslash, quote, quote]

lemma no_blanks : Blanks [] := fun _ mem => by cases mem

lemma letterA_key : KeyText letterA letterA.bytes := KeyText.bare (by decide) (List.forall_mem_singleton.mpr rfl)

lemma smallDocument_renders : Renders smallDocument smallText := by
  have seven : IntegerText (-(digitsValue [0x37])) (minus :: [0x37]) :=
    IntegerText.negative (by decide) (List.forall_mem_singleton.mpr rfl)
  have escaped : StringText [quote] [quote, backslash, quote, quote] :=
    StringText.mk (Quoted.escaped Escape.quote Quoted.nil)
  have rootLine := StatementText.line letterA_key no_blanks no_blanks (ValueText.int (n := ⟨-7, by decide⟩) seven)
  have header : StatementText (.header false letterT) _ := StatementText.table no_blanks no_blanks
  have tableLine := StatementText.line letterA_key no_blanks no_blanks
    (ValueText.str (s := ⟨[quote], by decide⟩) escaped)
  have plain : Trailer [] := Trailer.blanks no_blanks
  have lines := Text.line Gap.nil rootLine plain Newline.lf
    (Text.line Gap.nil header plain Newline.lf (Text.last Gap.nil tableLine plain))
  exact Renders.mk (Arranged.table letterT smallTable Arranged.nil) lines

lemma smallDocument_fits : smallDocument.Fits := by
  refine ⟨by decide, ?_, ?_⟩
  · intro e mem
    cases List.mem_singleton.mp mem
    exact trivial
  · intro e mem
    cases List.mem_singleton.mp mem
    refine ⟨by decide, ?_⟩
    intro e mem
    cases List.mem_singleton.mp mem
    exact trivial

theorem toml_small_round_trip : ∃ root, opTomlParse smallText = .ok root ∧ Reads smallDocument root :=
  (toml_document_round_trip smallDocument smallDocument_renders).mpr smallDocument_fits

def zerosDocument (n : Nat) : Document where
  values := [(letterA, .ints (List.replicate n ⟨0, by decide⟩))]
  sections := []
  distinct := by simp

def zerosItems (n : Nat) : List UInt8 := (List.replicate n [0x30, comma]).flatten ++ [closeBracket]

/-- `a=[0,0,...,]` -/
def zerosText (n : Nat) : List UInt8 := letterA.bytes ++ equals :: openBracket :: zerosItems n

lemma zerosItems_text (n : Nat) :
    ItemsText (fun n : LongInt => IntegerText n.1) (List.replicate n ⟨0, by decide⟩) (zerosItems n) := by
  induction n with
  | zero => exact ItemsText.nil Gap.nil
  | succ n ih =>
    have zero : IntegerText (digitsValue [0x30]) [0x30] :=
      IntegerText.nonneg (by decide) (List.forall_mem_singleton.mpr rfl)
    have items : ItemsText (fun n : LongInt => IntegerText n.1) (⟨0, by decide⟩ :: List.replicate n ⟨0, by decide⟩)
      ([] ++ ([0x30] ++ ([] ++ comma :: zerosItems n))) := ItemsText.cons Gap.nil zero Gap.nil ih
    exact items

lemma zeros_renders (n : Nat) : Renders (zerosDocument n) (zerosText n) := by
  have line := StatementText.line letterA_key no_blanks no_blanks (ValueText.ints (zerosItems_text n))
  have lines := Text.last Gap.nil line (Trailer.blanks no_blanks)
  rw [append_nil] at lines
  exact Renders.mk Arranged.nil lines

lemma zeros_do_not_fit (many : maxCount < n) : ¬ (zerosDocument n).Fits := by
  intro fits
  have array := fits.2.1 _ mem_cons_self
  rw [Value.Fits, length_replicate] at array
  omega

theorem toml_long_array_refused : Renders (zerosDocument (maxCount + 1)) (zerosText (maxCount + 1)) ∧
      ∀ root, opTomlParse (zerosText (maxCount + 1)) ≠ .ok root := by
  refine ⟨zeros_renders _, fun root parsed => ?_⟩
  have outcome := opTomlParse_renders (zeros_renders (maxCount + 1))
  rw [parsed] at outcome
  cases outcome.fails (zeros_do_not_fit (Nat.lt_succ_self maxCount))

end LibOp.Toml

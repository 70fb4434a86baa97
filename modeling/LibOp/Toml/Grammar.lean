import LibOp.Strings.CaseFolding
import LibOp.Toml.Lexer

namespace LibOp.Toml

open Foundation Strings

/-- An integer in `[-LONG_MAX, LONG_MAX]`. -/
abbrev LongInt := { n : Int // n.natAbs ≤ longMax }

inductive Value where
  | str (s : CStr)
  | int (n : LongInt)
  | bool (b : Bool)
  | strs (l : List CStr)
  | ints (l : List LongInt)

structure Entries where
  list : List (CStr × Value)
  distinct : (list.map fun e => e.1.bytes).Nodup

structure Name where
  bytes : List UInt8
  nonempty : bytes ≠ []
  bare : ∀ c ∈ bytes, isBare c = true

inductive Section where
  | table (t : Entries)
  | tables (first : Entries) (others : List Entries)

structure Document where
  values : List (CStr × Value)
  sections : List (Name × Section)
  distinct : (values.map (fun e => e.1.bytes) ++ sections.map fun e => e.1.bytes).Nodup

def Blanks (b : List UInt8) : Prop := ∀ c ∈ b, isBlank c = true

inductive Newline : List UInt8 → Prop
  | lf : Newline [lf]
  | crlf : Newline [cr, lf]

inductive Comment : List UInt8 → Prop
  | mk {body : List UInt8} (inside : ∀ c ∈ body, isEol c = false) : Comment (hash :: body)

/-- Blanks, blank lines and comments. -/
inductive Gap : List UInt8 → Prop
  | nil : Gap []
  | blank {c : UInt8} {rest : List UInt8} (blank : isBlank c = true) (tail : Gap rest) : Gap (c :: rest)
  | newline {n rest : List UInt8} (newline : Newline n) (tail : Gap rest) : Gap (n ++ rest)
  | comment {c n rest : List UInt8} (comment : Comment c) (newline : Newline n) (tail : Gap rest) : Gap (c ++ (n ++ rest))

inductive Escape : UInt8 → UInt8 → Prop
  | quote : Escape quote quote
  | backslash : Escape backslash backslash
  | newline : Escape lf 0x6E
  | tab : Escape tab 0x74
  | cr : Escape cr 0x72

inductive Quoted : List UInt8 → List UInt8 → Prop
  | nil : Quoted [] []
  | plain {c : UInt8} {s t : List UInt8} (notQuote : c ≠ quote) (notBackslash : c ≠ backslash)
    (inside : isEol c = false) (tail : Quoted s t) : Quoted (c :: s) (c :: t)
  | escaped {c e : UInt8} {s t : List UInt8} (escape : Escape c e) (tail : Quoted s t) :
    Quoted (c :: s) (backslash :: e :: t)

inductive StringText (s : List UInt8) : List UInt8 → Prop
  | mk {body : List UInt8} (quoted : Quoted s body) : StringText s (quote :: (body ++ [quote]))

def addDigit (val : Nat) (c : UInt8) : Nat := val * 10 + (c.toNat - 0x30)

def digitsValue (ds : List UInt8) : Nat := ds.foldl addDigit 0

inductive IntegerText : Int → List UInt8 → Prop
  | nonneg {ds : List UInt8} (nonempty : ds ≠ []) (digits : ∀ c ∈ ds, isdigit c = true) :
    IntegerText (digitsValue ds) ds
  | negative {ds : List UInt8} (nonempty : ds ≠ []) (digits : ∀ c ∈ ds, isdigit c = true) :
    IntegerText (-(digitsValue ds)) (minus :: ds)

/-- The elements of an array and its closing bracket, with an optional last comma. -/
inductive ItemsText {τ : Type} (Elem : τ → List UInt8 → Prop) : List τ → List UInt8 → Prop
  | nil {g : List UInt8} (gap : Gap g) : ItemsText Elem [] (g ++ [closeBracket])
  | last {x : τ} {g t g' : List UInt8} (gap : Gap g) (elem : Elem x t) (gap' : Gap g') :
    ItemsText Elem [x] (g ++ (t ++ (g' ++ [closeBracket])))
  | cons {x : τ} {l : List τ} {g t g' rest : List UInt8} (gap : Gap g) (elem : Elem x t) (gap' : Gap g')
    (tail : ItemsText Elem l rest) : ItemsText Elem (x :: l) (g ++ (t ++ (g' ++ comma :: rest)))

inductive ValueText : Value → List UInt8 → Prop
  | str {s : CStr} {t : List UInt8} (text : StringText s.bytes t) : ValueText (.str s) t
  | int {n : LongInt} {t : List UInt8} (text : IntegerText n.1 t) : ValueText (.int n) t
  | true : ValueText (.bool true) trueWord
  | false : ValueText (.bool false) falseWord
  | strs {l : List CStr} {t : List UInt8} (text : ItemsText (fun s : CStr => StringText s.bytes) l t) :
    ValueText (.strs l) (openBracket :: t)
  | ints {l : List LongInt} {t : List UInt8} (text : ItemsText (fun n : LongInt => IntegerText n.1) l t) :
    ValueText (.ints l) (openBracket :: t)

inductive KeyText (k : CStr) : List UInt8 → Prop
  | bare (nonempty : k.bytes ≠ []) (bare : ∀ c ∈ k.bytes, isBare c = Bool.true) : KeyText k k.bytes
  | quoted {t : List UInt8} (text : StringText k.bytes t) : KeyText k t

inductive Statement where
  | line (k : CStr) (v : Value)
  | header (isAot : Bool) (name : Name)

inductive StatementText : Statement → List UInt8 → Prop
  | line {k : CStr} {v : Value} {kt b b' vt : List UInt8} (key : KeyText k kt) (before : Blanks b) (after : Blanks b')
    (value : ValueText v vt) : StatementText (.line k v) (kt ++ (b ++ equals :: (b' ++ vt)))
  | table {name : Name} {b b' : List UInt8} (before : Blanks b) (after : Blanks b') :
    StatementText (.header Bool.false name) (openBracket :: (b ++ (name.bytes ++ (b' ++ [closeBracket]))))
  | element {name : Name} {b b' : List UInt8} (before : Blanks b) (after : Blanks b') :
    StatementText (.header Bool.true name)
      (openBracket :: openBracket :: (b ++ (name.bytes ++ (b' ++ [closeBracket, closeBracket]))))

/-- What may stand behind a statement on its line. -/
inductive Trailer : List UInt8 → Prop
  | blanks {b : List UInt8} (blanks : Blanks b) : Trailer b
  | comment {b c : List UInt8} (blanks : Blanks b) (comment : Comment c) : Trailer (b ++ c)

/-- The statements, each on its line. The last needs no line end. -/
inductive Text : List Statement → List UInt8 → Prop
  | finish {g t : List UInt8} (gap : Gap g) (trailer : Trailer t) : Text [] (g ++ t)
  | last {s : Statement} {g st t : List UInt8} (gap : Gap g) (statement : StatementText s st) (trailer : Trailer t) :
    Text [s] (g ++ (st ++ t))
  | line {s : Statement} {ss : List Statement} {g st t n rest : List UInt8} (gap : Gap g)
    (statement : StatementText s st) (trailer : Trailer t) (newline : Newline n) (others : Text ss rest) :
    Text (s :: ss) (g ++ (st ++ (t ++ (n ++ rest))))

/-- A section of the text: `[name]` or `[[name]]` and the lines of its table. -/
structure Block where
  isAot : Bool
  name : Name
  table : Entries

def entryLines (l : List (CStr × Value)) : List Statement := l.map fun e => .line e.1 e.2

def Block.statements (b : Block) : List Statement := .header b.isAot b.name :: entryLines b.table.list

/-- The sections that the blocks of a text amount to. A table has one block, the tables of an array one each in order,
with others between them. -/
inductive Arranged : List Block → List (Name × Section) → Prop
  | nil : Arranged [] []
  | table {blocks : List Block} {sections : List (Name × Section)} (name : Name) (t : Entries)
    (before : Arranged blocks sections) : Arranged (blocks ++ [⟨Bool.false, name, t⟩]) (sections ++ [(name, .table t)])
  | first {blocks : List Block} {sections : List (Name × Section)} (name : Name) (t : Entries)
    (before : Arranged blocks sections) : Arranged (blocks ++ [⟨Bool.true, name, t⟩]) (sections ++ [(name, .tables t [])])
  | next {blocks : List Block} {pre post : List (Name × Section)} {first : Entries} {others : List Entries}
    (name : Name) (t : Entries) (before : Arranged blocks (pre ++ (name, .tables first others) :: post)) :
    Arranged (blocks ++ [⟨Bool.true, name, t⟩]) (pre ++ (name, .tables first (others ++ [t])) :: post)

inductive Renders (d : Document) : List UInt8 → Prop
  | mk {blocks : List Block} {text : List UInt8} (arranged : Arranged blocks d.sections)
    (lines : Text (entryLines d.values ++ blocks.flatMap Block.statements) text) : Renders d text

end LibOp.Toml

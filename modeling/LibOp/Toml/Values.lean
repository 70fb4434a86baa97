import Mathlib

namespace LibOp.Toml

/-- `tv_t` with its tables and arrays. A string is the bytes before its NUL. -/
inductive Tv where
  | str (s : List UInt8)
  | int (n : Int)
  | bool (b : Bool)
  | table (kv : List (List UInt8 × Tv)) (cap : Int)
  | arr (items : List Tv) (cap : Int)

/-- `struct op_toml_table`; `n` is the length of `kv`. -/
structure Table where
  kv : List (List UInt8 × Tv)
  cap : Int

/-- `struct op_toml_arr`; `n` is the length of `items`. -/
structure Arr where
  items : List Tv
  cap : Int

def tableNew : Table := ⟨[], 0⟩

def arrNew : Arr := ⟨[], 0⟩

def Table.tv (t : Table) : Tv := .table t.kv t.cap

def Arr.tv (a : Arr) : Tv := .arr a.items a.cap

/-- A result of type `int`, in two's complement. -/
def wrapInt (x : Int) : Int := x.bmod (2 ^ 32)

/-- `realloc` of `(size_t)count * size` bytes, with memory up to `PTRDIFF_MAX`. -/
def reallocates (count : Int) (size : Nat) : Bool := count % 2 ^ 64 * size % 2 ^ 64 < 2 ^ 63

/-- `table_grow` and `arr_grow`, for elements of this size. -/
def grow (size n : Nat) (cap : Int) : Option Int :=
  if n < cap then some cap
  else
    let newcap := wrapInt (if cap ≠ 0 then cap * 2 else 8)
    if reallocates newcap size then some newcap else none

def sizeofKv : Nat := 24

def sizeofTv : Nat := 16

def tableGrow (t : Table) : Option Int := grow sizeofKv t.kv.length t.cap

def arrGrow (a : Arr) : Option Int := grow sizeofTv a.items.length a.cap

def findFrom (key : List UInt8) : Nat → List (List UInt8 × Tv) → Option (Nat × Tv)
  | _, [] => none
  | i, e :: kv => if e.1 = key then some (i, e.2) else findFrom key (i + 1) kv

def tableFind (t : Table) (key : List UInt8) : Option (Nat × Tv) := findFrom key 0 t.kv

def tableInsert (t : Table) (key : List UInt8) (val : Tv) : Option Table :=
  (tableGrow t).map fun cap => ⟨t.kv ++ [(key, val)], cap⟩

/-- `a->items[a->n++] = item`, after `arr_grow`. -/
def arrPush (a : Arr) (item : Tv) : Option Arr := (arrGrow a).map fun cap => ⟨a.items ++ [item], cap⟩

def Tv.asStr : Tv → Option (List UInt8)
  | .str s => some s
  | _ => none

def Tv.asInt : Tv → Option Int
  | .int n => some n
  | _ => none

def Tv.asBool : Tv → Option Bool
  | .bool b => some b
  | _ => none

def Tv.asTable : Tv → Option Table
  | .table kv cap => some ⟨kv, cap⟩
  | _ => none

def Tv.asArr : Tv → Option Arr
  | .arr items cap => some ⟨items, cap⟩
  | _ => none

variable {α σ : Type}

/-- The result and `*out`, for a value missing or of another type. -/
def readAs (pick : Tv → Option α) : Option Tv → Int × Option α
  | none => (0, none)
  | some val =>
    match pick val with
    | none => (-1, none)
    | some a => (1, some a)

def tableGet (t : Table) (k : List UInt8) : Option Tv := (tableFind t k).map Prod.snd

def opTomlStr (t : Table) (k : List UInt8) : Int × Option (List UInt8) := readAs Tv.asStr (tableGet t k)

def opTomlInt (t : Table) (k : List UInt8) : Int × Option Int := readAs Tv.asInt (tableGet t k)

def opTomlBool (t : Table) (k : List UInt8) : Int × Option Bool := readAs Tv.asBool (tableGet t k)

def opTomlTable (t : Table) (k : List UInt8) : Option Table := (tableGet t k).bind Tv.asTable

def opTomlArr (t : Table) (k : List UInt8) : Option Arr := (tableGet t k).bind Tv.asArr

def opTomlArrLen (a : Arr) : Nat := a.items.length

/-- `a->items[i]`, where `i` is in range. -/
def arrGet (a : Arr) (i : Int) : Option Tv := if i < 0 then none else a.items[i.toNat]?

def opTomlArrStr (a : Arr) (i : Int) : Int × Option (List UInt8) := readAs Tv.asStr (arrGet a i)

def opTomlArrInt (a : Arr) (i : Int) : Int × Option Int := readAs Tv.asInt (arrGet a i)

def opTomlArrTable (a : Arr) (i : Int) : Option Table := (arrGet a i).bind Tv.asTable

def opTomlIter (t : Table) (fn : σ → List UInt8 → σ) (ud : σ) : σ := t.kv.foldl (fun ud e => fn ud e.1) ud

end LibOp.Toml

import LibOp.Toml.Lexer

namespace LibOp.Toml

open Foundation

/-- `cur_tab`: the root, a table at an entry of it, or an element of an array there. -/
inductive CurTab where
  | root
  | entry (i : Nat)
  | element (i j : Nat)

structure Parser where
  input : Input
  root : Table
  curTab : CurTab

def tabAt (root : Table) : CurTab → Option Table
  | .root => some root
  | .entry i => root.kv[i]?.bind fun e => e.2.asTable
  | .element i j => root.kv[i]?.bind fun e => e.2.asArr.bind fun a => a.items[j]?.bind Tv.asTable

def setVal (t : Table) (i : Nat) (f : Tv → Tv) : Table := { t with kv := t.kv.modify i fun e => (e.1, f e.2) }

def setItem (j : Nat) (val : Tv) : Tv → Tv
  | .arr items cap => .arr (items.set j val) cap
  | tv => tv

def setTabAt (root : Table) (t : Table) : CurTab → Table
  | .root => t
  | .entry i => setVal root i fun _ => t.tv
  | .element i j => setVal root i (setItem j t.tv)

/-- `[[name]]` -/
def openElement (p : Parser) (name : List UInt8) : Except Fail Parser :=
  match tableFind p.root name with
  | some (i, .arr items cap) =>
    match arrPush ⟨items, cap⟩ tableNew.tv with
    | none => p.input.setErr "out of memory"
    | some a => .ok { p with root := setVal p.root i fun _ => a.tv, curTab := .element i items.length }
  | some _ => .error (.useAfterFree p.input.line "key '%s' already exists and is not an array")
  | none =>
    match tableInsert p.root name arrNew.tv with
    | none => p.input.setErr "out of memory"
    | some root =>
      match arrPush arrNew tableNew.tv with
      | none => p.input.setErr "out of memory"
      | some a =>
        .ok { p with root := setVal root p.root.kv.length fun _ => a.tv, curTab := .element p.root.kv.length 0 }

/-- `[name]` -/
def openTable (p : Parser) (name : List UInt8) : Except Fail Parser :=
  match tableFind p.root name with
  | some (i, .table _ _) => .ok { p with curTab := .entry i }
  | some _ => .error (.useAfterFree p.input.line "key '%s' already exists and is not a table")
  | none =>
    match tableInsert p.root name tableNew.tv with
    | none => p.input.setErr "out of memory"
    | some root => .ok { p with root, curTab := .entry p.root.kv.length }

def openSection (isAot : Bool) (p : Parser) (name : List UInt8) : Except Fail Parser :=
  if isAot then openElement p name else openTable p name

/-- A key and its `=`. -/
def parseAssign (p : Input) : Except Fail (List UInt8 × Input) := do
  let (key, p) ← parseKey p
  let p ← expect equals "expected '=' after key" (skipWs p)
  .ok (key, skipWs p)

def addEntry (p : Parser) (key : List UInt8) : Except Fail Parser :=
  match tabAt p.root p.curTab with
  | none => .error .dangling
  | some t =>
    if (tableFind t key).isSome then p.input.setErrf "duplicate key '%s'" key
    else do
      let (val, input) ← parseValue p.input
      match tableInsert t key val with
      | none => input.setErr "out of memory"
      | some t => do
        let input ← lineEnd "unexpected characters after value" input
        .ok { p with input, root := setTabAt p.root t p.curTab }

def keyLine (p : Parser) : Except Fail Parser := do
  let (key, input) ← parseAssign p.input
  addEntry { p with input } key

def documentTurn (p : Parser) : Except Fail (Parser ⊕ Parser) :=
  let p := { p with input := skipWsAndNewlines p.input }
  match p.input.rest with
  | [] => .ok (.inr p)
  | c :: rest =>
    if c = openBracket then do
      let (isAot, name, input) ← parseHeader { p.input with rest }
      let p ← openSection isAot { p with input } name
      .ok (.inl p)
    else if c = hash then .ok (.inl { p with input := skipLine p.input })
    else do
      let p ← keyLine p
      .ok (.inl p)

lemma parseAssign_shrinks (done : parseAssign p = .ok (key, q)) : q.rest.length < p.rest.length := by
  obtain ⟨⟨name, p1⟩, named, done⟩ := bind_ok done
  obtain ⟨p2, assigned, same⟩ := bind_ok done
  cases same
  calc
    (skipWs p2).rest.length ≤ p2.rest.length := length_skipWs_le p2
    _ < (skipWs p1).rest.length := expect_shrinks assigned
    _ ≤ p1.rest.length := length_skipWs_le p1
    _ ≤ p.rest.length := parseKey_shrinks named

variable {p q : Parser}

lemma addEntry_shrinks (done : addEntry p key = .ok q) : q.input.rest.length ≤ p.input.rest.length := by
  unfold addEntry at done
  split at done
  · cases done
  · split_ifs at done
    · cases done
    · obtain ⟨⟨val, p1⟩, read, done⟩ := bind_ok done
      simp only at done
      split at done
      · cases done
      · obtain ⟨p2, ended, same⟩ := bind_ok done
        cases same
        exact le_trans (lineEnd_shrinks ended) (parseValue_shrinks read)

lemma keyLine_shrinks (done : keyLine p = .ok q) : q.input.rest.length < p.input.rest.length := by
  obtain ⟨⟨key, input⟩, assigned, added⟩ := bind_ok done
  exact lt_of_le_of_lt (addEntry_shrinks added) (parseAssign_shrinks assigned)

variable {name : List UInt8}

lemma openElement_input (done : openElement p name = .ok q) : q.input = p.input := by
  unfold openElement at done
  split at done
  · split at done
    · cases done
    · cases done
      rfl
  · cases done
  · split at done
    · cases done
    · split at done
      · cases done
      · cases done
        rfl

lemma openTable_input (done : openTable p name = .ok q) : q.input = p.input := by
  unfold openTable at done
  split at done
  · cases done
    rfl
  · cases done
  · split at done
    · cases done
    · cases done
      rfl

lemma skipLine_shrinks {p : Input} {c : UInt8} {rest : List UInt8} (bytes : p.rest = c :: rest)
    (inside : isEol c = false) : (skipLine p).rest.length < p.rest.length := by
  have shorter := (List.dropWhile_suffix (l := rest) (!isEol ·)).length_le
  unfold skipLine
  rw [bytes, List.dropWhile_cons_of_pos (by simp [inside])]
  split
  · exact Nat.succ_pos _
  next b tail later =>
    rw [later, List.length_cons] at shorter
    have skipped := length_skipLf_le tail
    rw [List.length_cons]
    simp only
    split_ifs
    · omega
    · omega

lemma documentTurn_shrinks (p next : Parser) (more : documentTurn p = .ok (.inl next)) :
    next.input.rest.length < p.input.rest.length := by
  have skipped := length_skipGap_le p.input.rest p.input.line
  unfold documentTurn at more
  simp only at more
  split at more
  · cases more
  next c rest bytes =>
    change (skipGap p.input.rest p.input.line).rest = c :: rest at bytes
    rw [bytes, List.length_cons] at skipped
    split at more
    · obtain ⟨⟨isAot, name, input⟩, read, more⟩ := bind_ok more
      obtain ⟨q, opened, same⟩ := bind_ok more
      cases same
      have shorter := parseHeader_shrinks read
      change input.rest.length ≤ rest.length at shorter
      have kept : next.input = input := by
        unfold openSection at opened
        split at opened
        · exact openElement_input opened
        · exact openTable_input opened
      rw [kept]
      omega
    · split at more
      next comment =>
        cases more
        have shorter := skipLine_shrinks bytes (by rw [comment]; rfl)
        change (skipLine (skipGap p.input.rest p.input.line)).rest.length < _
        rw [bytes, List.length_cons] at shorter
        omega
      · obtain ⟨q, read, same⟩ := bind_ok more
        cases same
        have shorter := keyLine_shrinks read
        change _ < (skipGap p.input.rest p.input.line).rest.length at shorter
        rw [bytes, List.length_cons] at shorter
        omega

def parseDocument : Parser → Except Fail Parser :=
  runLoop documentTurn (fun p => p.input.rest.length) documentTurn_shrinks

def opTomlParse (buf : List UInt8) : Except Fail Table :=
  (parseDocument ⟨⟨buf, 1⟩, tableNew, .root⟩).map Parser.root

end LibOp.Toml

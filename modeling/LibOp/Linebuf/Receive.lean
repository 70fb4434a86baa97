import LibOp.Linebuf.Pieces

namespace LibOp.Linebuf

open List BufLine

inductive LineEvent where
  | parse (chunk : List UInt8)
  | get

/-- `op_linebuf_get(..., LINEBUF_COMPLETE, LINEBUF_PARSED)` until it returns 0. -/
def drain (buflen : Nat) : Nat → BufHead → Option (List (List UInt8))
  | 0, _ => none
  | rounds + 1, head =>
    let (next, bytes) := linebufGet head buflen false false
    if bytes = [] then some []
    else do
      let lines ← drain buflen rounds next
      some (bytes :: lines)

def receive (buflen : Nat) : BufHead → List LineEvent → Option (List (List UInt8))
  | head, [] => drain buflen (head.list.length + 1) head
  | head, .parse chunk :: rest => receive buflen (linebufParse head chunk false).1 rest
  | head, .get :: rest =>
    let (next, bytes) := linebufGet head buflen false false
    if bytes = [] then receive buflen next rest
    else do
      let lines ← receive buflen next rest
      some (bytes :: lines)

def chunks : List LineEvent → List (List UInt8)
  | [] => []
  | .parse chunk :: rest => chunk :: chunks rest
  | .get :: rest => chunks rest

def Cuts (stream : List UInt8) (events : List LineEvent) : Prop :=
  (chunks events).flatten = stream ∧ ∀ chunk ∈ chunks events, chunk ≠ []

def visible (lines : List (List UInt8)) : List (List UInt8) := lines.filter fun line => !line.isEmpty

lemma visible_append (first second : List (List UInt8)) :
    visible (first ++ second) = visible first ++ visible second := filter_append ..

lemma visible_cons_nil (rest : List (List UInt8)) : visible ([] :: rest) = visible rest := rfl

lemma visible_cons (ne : line ≠ []) (rest : List (List UInt8)) : visible (line :: rest) = line :: visible rest := by
  cases line with
  | nil => exact absurd rfl ne
  | cons b line => rfl

variable {buflen : Nat}

lemma getLoop_spec (large : linebufSize < buflen) (done : List BufLine)
    (complete : ∀ line ∈ done, line.terminated = true ∧ line.Received) (tail : List BufLine)
    (waiting : ∀ line ∈ tail, line.terminated = false) (head : BufHead) (whole : head.list = done ++ tail) :
    ∃ rest : List BufLine, (getLoop buflen false false (done ++ tail) head).1.list = rest ++ tail ∧
      (∀ line ∈ rest, line ∈ done) ∧ rest.length ≤ done.length ∧
      (((getLoop buflen false false (done ++ tail) head).2 = [] ∧ visible (done.map buf) = [] ∧ rest = []) ∨
        ((getLoop buflen false false (done ++ tail) head).2 ≠ [] ∧ rest.length < done.length ∧
          visible (done.map buf) = (getLoop buflen false false (done ++ tail) head).2 :: visible (rest.map buf))) := by
  induction done generalizing head with
  | nil =>
    refine ⟨[], ?_, by simp, le_rfl, .inl ⟨?_, rfl, rfl⟩⟩ <;>
    · cases tail with
      | nil | cons line tail => simp_all [getLoop]
  | cons line done ih =>
    obtain ⟨terminated, plain, short⟩ := complete line mem_cons_self
    have all : line.buf.take (min line.len (buflen - 1)) = line.buf := by
      rw [take_of_length_le]
      simp only [len] at short ⊢
      omega
    have step : getLoop buflen false false (line :: done ++ tail) head =
        if line.buf = [] then getLoop buflen false false (done ++ tail) (linebufDoneLine head line (done ++ tail))
        else (linebufDoneLine head line (done ++ tail), line.buf) := by
      rw [cons_append, getLoop, terminated, plain, if_neg (by decide), if_neg (by omega), all]
      rfl
    rw [step]
    by_cases empty : line.buf = []
    · rw [if_pos empty]
      obtain ⟨rest, list, subset, short, outcome⟩ := ih (forall_mem_cons.mp complete).2
        (linebufDoneLine head line (done ++ tail)) rfl
      refine ⟨rest, list, fun other mem => mem_cons_of_mem _ (subset other mem), by
        rw [length_cons]; omega, ?_⟩
      rw [map_cons, empty, visible_cons_nil, length_cons]
      exact outcome.imp_right fun ⟨ne, shorter, lines⟩ => ⟨ne, by omega, lines⟩
    · rw [if_neg empty]
      refine ⟨done, rfl, fun other mem => mem_cons_of_mem _ mem, by simp, .inr ⟨empty, by simp, ?_⟩⟩
      rw [map_cons, visible_cons empty]

variable {head : BufHead} {closed : List (List UInt8)} {part : List UInt8}

lemma linebufGet_holds (large : linebufSize < buflen) (holds : Holds head closed part) :
    ∃ closed', Holds (linebufGet head buflen false false).1 closed' part ∧
      (((linebufGet head buflen false false).2 = [] ∧ visible closed = [] ∧ visible closed' = []) ∨
        ((linebufGet head buflen false false).2 ≠ [] ∧ closed'.length < closed.length ∧
          visible closed = (linebufGet head buflen false false).2 :: visible closed')) := by
  obtain ⟨done, rfl, complete, tailCase⟩ := holds
  obtain ⟨tail, waiting, whole, shape⟩ : ∃ tail : List BufLine, (∀ line ∈ tail, line.terminated = false) ∧
      head.list = done ++ tail ∧ ((part = [] ∧ tail = []) ∨ ∃ line, line.buf = part ∧
        line.terminated = false ∧ line.Received ∧ part ≠ [] ∧ tail = [line]) := by
    rcases tailCase with ⟨empty, whole⟩ | ⟨line, isPart, fresh, plain, ne, whole⟩
    · exact ⟨[], by simp, by simp [whole], .inl ⟨empty, rfl⟩⟩
    · exact ⟨[line], by simp [fresh], whole, .inr ⟨line, isPart, fresh, plain, ne, rfl⟩⟩
  obtain ⟨rest, list, subset, -, outcome⟩ := getLoop_spec large done complete tail waiting head whole
  rw [← whole] at list outcome
  refine ⟨rest.map buf, ⟨rest, rfl, fun line mem => complete line (subset line mem), ?_⟩, ?_⟩
  · rcases shape with ⟨empty, none⟩ | ⟨line, isPart, fresh, plain, ne, one⟩
    · exact .inl ⟨empty, by rw [linebufGet, list, none, append_nil]⟩
    · exact .inr ⟨line, isPart, fresh, plain, ne, by rw [linebufGet, list, one]⟩
  · rcases outcome with ⟨nothing, none, gone⟩ | ⟨ne, shorter, lines⟩
    · exact .inl ⟨nothing, none, by rw [gone]; rfl⟩
    · exact .inr ⟨ne, by simpa using shorter, lines⟩

lemma drain_eq (large : linebufSize < buflen) (rounds : Nat) (holds : Holds head closed part)
    (enough : closed.length < rounds) : drain buflen rounds head = some (visible closed) := by
  induction rounds generalizing head closed with
  | zero => omega
  | succ rounds ih =>
    obtain ⟨closed', holds', outcome⟩ := linebufGet_holds large holds
    simp only [drain]
    rcases outcome with ⟨nothing, none, -⟩ | ⟨ne, shorter, lines⟩
    · rw [if_pos nothing, none]
    · rw [if_neg ne, ih holds' (by omega), lines]
      rfl

lemma holds_length (holds : Holds head closed part) : closed.length ≤ head.list.length := by
  obtain ⟨done, rfl, -, ⟨-, whole⟩ | ⟨line, -, -, -, -, whole⟩⟩ := holds <;> simp [whole]

lemma receive_eq (large : linebufSize < buflen) (events : List LineEvent) (holds : Holds head closed part) :
    receive buflen head events = some (visible closed ++
      visible (feedAll part ((chunks events).flatMap pieces)).2) := by
  induction events generalizing head closed part with
  | nil =>
    rw [receive, drain_eq large _ holds (Nat.lt_succ_of_le (holds_length holds))]
    simp [chunks, feedAll, visible]
  | cons event rest ih =>
    cases event with
    | parse chunk =>
      rw [receive, ih (linebufParse_holds holds chunk), visible_append, append_assoc, chunks,
        flatMap_cons, feedAll_append, visible_append]
    | get =>
      obtain ⟨closed', holds', outcome⟩ := linebufGet_holds large holds
      simp only [receive, chunks]
      rcases outcome with ⟨nothing, none, none'⟩ | ⟨ne, -, lines⟩
      · rw [if_pos nothing, ih holds', none, none']
      · rw [if_neg ne, ih holds', lines]
        rfl

end LibOp.Linebuf

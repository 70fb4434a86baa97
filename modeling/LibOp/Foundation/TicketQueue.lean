import LibOp.Foundation.WordBits

namespace LibOp.Foundation

open List Nat Function

/-- How a ring of cells computes with tickets: the cell of one, the next one, the one a lap later, and the sign of a
difference. -/
structure Ticketing where
  cell : Nat → Nat
  next : Nat → Nat
  lap : Nat → Nat
  compare : (seq pos : Nat) → Ordering

namespace TicketQueue

/-- A thread outside; looking at a cell, claiming its ticket, or loading the counter again; and with a ticket, before
each of the two accesses to the cell. -/
inductive Pc (α : Type*) where
  | idle
  | pushLooking (item : α) (pos : Nat)
  | pushClaiming (item : α) (pos : Nat)
  | pushReloading (item : α)
  | pushStoring (item : α) (pos : Nat)
  | pushPublishing (item : α) (pos : Nat)
  | popLooking (pos : Nat)
  | popClaiming (pos : Nat)
  | popReloading
  | popReading (pos : Nat)
  | popReleasing (pos : Nat) (item : α)
deriving DecidableEq, Repr

variable {T α : Type*}

/-- The shared memory and the threads. The four lists only record what happened. -/
structure State (T α : Type*) where
  head : Nat
  tail : Nat
  seq : Nat → Nat
  data : Nat → α
  pc : T → Pc α
  pushes : List α
  stored : List (Nat × α)
  pops : List Nat
  returned : List (Nat × α)

def State.init (null : α) : State T α :=
  { head := 0, tail := 0, seq := fun i => i, data := fun _ => null, pc := fun _ => .idle, pushes := [], stored := [],
    pops := [], returned := [] }

/-- A call, which loads the counter, or the next step of a thread. A weak exchange may fail at any time. -/
inductive Action (T α : Type*) where
  | push (t : T) (item : α)
  | pop (t : T)
  | advance (t : T) (spurious : Bool)
deriving Repr

variable [DecidableEq T]

def State.goto (s : State T α) (t : T) (pc : Pc α) : State T α := { s with pc := update s.pc t pc }

variable (q : Ticketing)

def State.claimPush (s : State T α) (t : T) (item : α) (pos : Nat) : State T α :=
  { s.goto t (.pushStoring item pos) with head := q.next pos, pushes := s.pushes ++ [item] }

def State.store (s : State T α) (t : T) (item : α) (pos : Nat) : State T α :=
  { s.goto t (.pushPublishing item pos) with
    data := update s.data (q.cell pos) item
    stored := s.stored ++ [(pos, item)] }

def State.publish (s : State T α) (t : T) (pos : Nat) : State T α :=
  { s.goto t .idle with seq := update s.seq (q.cell pos) (q.next pos) }

def State.claimPop (s : State T α) (t : T) (pos : Nat) : State T α :=
  { s.goto t (.popReading pos) with tail := q.next pos, pops := s.pops ++ [pos] }

def State.release (s : State T α) (t : T) (pos : Nat) (item : α) : State T α :=
  { s.goto t .idle with
    seq := update s.seq (q.cell pos) (q.lap pos)
    returned := s.returned ++ [(pos, item)] }

def advance (s : State T α) (t : T) (spurious : Bool) : State T α :=
  match s.pc t with
  | .idle => s
  | .pushLooking item pos =>
    match q.compare (s.seq (q.cell pos)) pos with
    | .eq => s.goto t (.pushClaiming item pos)
    | .lt => s.goto t .idle
    | .gt => s.goto t (.pushReloading item)
  | .pushClaiming item pos =>
    if s.head = pos ∧ spurious = false then s.claimPush q t item pos else s.goto t (.pushLooking item s.head)
  | .pushReloading item => s.goto t (.pushLooking item s.head)
  | .pushStoring item pos => s.store q t item pos
  | .pushPublishing _ pos => s.publish q t pos
  | .popLooking pos =>
    match q.compare (s.seq (q.cell pos)) (q.next pos) with
    | .eq => s.goto t (.popClaiming pos)
    | .lt => s.goto t .idle
    | .gt => s.goto t .popReloading
  | .popClaiming pos =>
    if s.tail = pos ∧ spurious = false then s.claimPop q t pos else s.goto t (.popLooking s.tail)
  | .popReloading => s.goto t (.popLooking s.tail)
  | .popReading pos => s.goto t (.popReleasing pos (s.data (q.cell pos)))
  | .popReleasing pos item => s.release q t pos item

def step (s : State T α) : Action T α → State T α
  | .push t item =>
    match s.pc t with
    | .idle => s.goto t (.pushLooking item s.head)
    | _ => s
  | .pop t =>
    match s.pc t with
    | .idle => s.goto t (.popLooking s.tail)
    | _ => s
  | .advance t spurious => advance q s t spurious

end TicketQueue

open TicketQueue

/-- Exact for the tickets below `limit` in a ring of `cells` cells. -/
structure Ticketing.Lawful (q : Ticketing) (cells limit : Nat) : Prop where
  several : 2 ≤ cells
  cell_eq : ∀ k, q.cell k = k % cells
  next_eq : ∀ k, k < limit → q.next k = k + 1
  lap_eq : ∀ k, k < limit → q.lap k = k + cells
  eq_of_compare : ∀ a b, a ≤ limit + cells → b ≤ limit → q.compare a b = .eq → a = b

namespace TicketQueue

def Pc.pushTicket : Pc α → Option Nat
  | .pushStoring _ pos => some pos
  | .pushPublishing _ pos => some pos
  | _ => none

def Pc.popTicket : Pc α → Option Nat
  | .popReading pos => some pos
  | .popReleasing pos _ => some pos
  | _ => none

structure Turns where
  ticket : Nat → Nat
  full : Nat → Bool

def Turns.seq (turns : Turns) (i : Nat) : Nat := if turns.full i then turns.ticket i + 1 else turns.ticket i

def Turns.At (turns : Turns) (cells pos : Nat) (full : Bool) : Prop :=
  turns.ticket (pos % cells) = pos ∧ turns.full (pos % cells) = full

def PcOk (cells : Nat) (turns : Turns) (pushes : List α) (pops : List Nat) (stored : List (Nat × α)) (data : Nat → α) :
    Pc α → Prop
  | .idle => True
  | .pushLooking _ pos => pos ≤ pushes.length
  | .pushClaiming _ pos => pos ≤ pushes.length ∧ (pos = pushes.length → turns.At cells pos false)
  | .pushReloading _ => True
  | .pushStoring item pos => pushes[pos]? = some item ∧ turns.At cells pos false
  | .pushPublishing item pos =>
    pushes[pos]? = some item ∧ turns.At cells pos false ∧ data (pos % cells) = item ∧ (pos, item) ∈ stored
  | .popLooking pos => pos ≤ pops.length
  | .popClaiming pos => pos ≤ pops.length ∧ (pos = pops.length → turns.At cells pos true)
  | .popReloading => True
  | .popReading pos => pos < pops.length ∧ turns.At cells pos true
  | .popReleasing pos item => pos < pops.length ∧ turns.At cells pos true ∧ data (pos % cells) = item

def Unique (ticket : Pc α → Option Nat) (pc : T → Pc α) : Prop :=
  ∀ t u k, ticket (pc t) = some k → ticket (pc u) = some k → t = u

structure Inv (cells : Nat) (turns : Turns) (s : State T α) : Prop where
  head : s.head = s.pushes.length
  tail : s.tail = s.pops.length
  pops : s.pops = List.range s.pops.length
  pops_le : s.pops.length ≤ s.pushes.length
  seq : ∀ i, i < cells → s.seq i = turns.seq i
  mod : ∀ i, i < cells → turns.ticket i % cells = i
  ticket_lt : ∀ i, i < cells → turns.ticket i < s.pops.length + cells
  filled : ∀ i, i < cells → turns.full i = true →
    s.pushes[turns.ticket i]? = some (s.data i) ∧ (turns.ticket i, s.data i) ∈ s.stored
  stored : ∀ e ∈ s.stored, s.pushes[e.1]? = some e.2
  pops_stored : ∀ k ∈ s.pops, ∃ item, (k, item) ∈ s.stored
  returned : ∀ e ∈ s.returned, e ∈ s.stored ∧ e.1 ∈ s.pops ∧ e.1 < turns.ticket (e.1 % cells)
  nodup : (s.returned.map Prod.fst).Nodup
  place : ∀ t, PcOk cells turns s.pushes s.pops s.stored s.data (s.pc t)
  pushers : Unique Pc.pushTicket s.pc
  poppers : Unique Pc.popTicket s.pc

variable {q : Ticketing} {cells limit : Nat} {turns : Turns} {s : State T α} {t : T} {pc : Pc α} {item : α} {pos : Nat}
  {pushes : List α} {pops : List Nat} {stored : List (Nat × α)} {data : Nat → α}

lemma init_inv (cells : Nat) (null : α) : Inv cells ⟨fun i => i, fun _ => false⟩ (State.init null : State T α) where
  head := rfl
  tail := rfl
  pops := rfl
  pops_le := le_rfl
  seq _ _ := rfl
  mod _ inside := mod_eq_of_lt inside
  ticket_lt _ inside := (zero_add cells).symm ▸ inside
  filled _ _ bad := absurd bad Bool.false_ne_true
  stored _ bad := absurd bad not_mem_nil
  pops_stored _ bad := absurd bad not_mem_nil
  returned _ bad := absurd bad not_mem_nil
  nodup := nodup_nil
  place _ := trivial
  pushers _ _ _ bad := absurd bad (Option.some_ne_none _).symm
  poppers _ _ _ bad := absurd bad (Option.some_ne_none _).symm

section

variable (inv : Inv cells turns s)

include inv

lemma Inv.at_place (here : s.pc t = pc) : PcOk cells turns s.pushes s.pops s.stored s.data pc := here ▸ inv.place t

variable (lawful : q.Lawful cells limit)

include lawful

lemma Inv.seq_at (pos : Nat) : s.seq (q.cell pos) = turns.seq (pos % cells) := by
  rw [lawful.cell_eq]
  exact inv.seq _ (mod_lt _ (lt_of_lt_of_le Nat.two_pos lawful.several))

lemma Inv.seq_le (pos : Nat) : turns.seq (pos % cells) ≤ s.pops.length + cells := by
  have bound := inv.ticket_lt _ (mod_lt pos (lt_of_lt_of_le Nat.two_pos lawful.several))
  rw [Turns.seq]
  split <;> omega

lemma Inv.ticket_ne (pos : Nat) : turns.ticket (pos % cells) + 1 ≠ pos ∧ turns.ticket (pos % cells) ≠ pos + 1 := by
  have several := lawful.several
  have same := inv.mod _ (mod_lt pos (lt_of_lt_of_le Nat.two_pos several))
  have apart (k : Nat) : k % cells ≠ (k + 1) % cells := mod_ne_of_near (lt_succ_self k) (by omega)
  constructor
  · intro before
    rw [← before] at same
    exact apart _ (by rw [before] at same ⊢; exact same)
  · intro after
    rw [after] at same
    exact apart pos same.symm

lemma Inv.push_ready (small : s.pushes.length < limit) (low : pos ≤ s.pushes.length)
    (equal : q.compare (s.seq (q.cell pos)) pos = .eq) : turns.At cells pos false := by
  have bound := inv.seq_le lawful pos
  have few := inv.pops_le
  have seq : turns.seq (pos % cells) = pos := by
    rw [inv.seq_at lawful] at equal
    exact lawful.eq_of_compare _ _ (by omega) (by omega) equal
  rw [Turns.seq] at seq
  split at seq
  · exact absurd seq (inv.ticket_ne lawful pos).1
  next empty => exact ⟨seq, Bool.eq_false_iff.mpr empty⟩

lemma Inv.pop_ready (small : s.pushes.length < limit) (low : pos ≤ s.pops.length)
    (equal : q.compare (s.seq (q.cell pos)) (q.next pos) = .eq) : turns.At cells pos true := by
  have bound := inv.seq_le lawful pos
  have few := inv.pops_le
  have seq : turns.seq (pos % cells) = pos + 1 := by
    rw [inv.seq_at lawful, lawful.next_eq pos (by omega)] at equal
    exact lawful.eq_of_compare _ _ (by omega) (by omega) equal
  rw [Turns.seq] at seq
  split at seq
  next full => exact ⟨Nat.succ.inj seq, full⟩
  · exact absurd seq (inv.ticket_ne lawful pos).2

end

variable [DecidableEq T] {pcs : T → Pc α}

lemma Unique.move (unique : Unique ticket pcs) (t : T) (pc : Pc α)
    (fresh : ∀ k, ticket pc = some k → ∀ u, u ≠ t → ticket (pcs u) ≠ some k) : Unique ticket (update pcs t pc) := by
  intro a b k first second
  have old := unique a b k
  grind [Function.update_apply]

lemma Unique.keep (unique : Unique ticket pcs)
    (kept : ∀ k, ticket pc = some k → ticket (pcs t) = some k) : Unique ticket (update pcs t pc) :=
  unique.move t pc fun k mine u other theirs => other (unique u t k theirs (kept k mine))

lemma place_update {P : Pc α → Prop} (self : P pc) (others : ∀ u, u ≠ t → P (pcs u)) (u : T) :
    P (update pcs t pc u) := (Function.forall_update_iff pcs fun _ pc => P pc).mpr ⟨self, others⟩ u

lemma Inv.goto (inv : Inv cells turns s) (ok : PcOk cells turns s.pushes s.pops s.stored s.data pc)
    (pushKept : ∀ k, pc.pushTicket = some k → (s.pc t).pushTicket = some k)
    (popKept : ∀ k, pc.popTicket = some k → (s.pc t).popTicket = some k) : Inv cells turns (s.goto t pc) :=
  { inv with
    place := place_update ok fun u _ => inv.place u
    pushers := inv.pushers.keep pushKept
    poppers := inv.poppers.keep popKept }

lemma Inv.goto_free (inv : Inv cells turns s) (t : T) (ok : PcOk cells turns s.pushes s.pops s.stored s.data pc)
    (noPush : pc.pushTicket = none) (noPop : pc.popTicket = none) : Inv cells turns (s.goto t pc) :=
  inv.goto ok (fun k mine => by rw [noPush] at mine; cases mine) (fun k mine => by rw [noPop] at mine; cases mine)

lemma getElem?_lt {items : List α} {k : Nat} {x : α} (found : items[k]? = some x) : k < items.length :=
  (List.getElem?_eq_some_iff.mp found).1

lemma getElem?_concat_of_some {items : List α} {k : Nat} {x : α} (found : items[k]? = some x) (last : α) :
    (items ++ [last])[k]? = some x := (getElem?_append_left (getElem?_lt found)).trans found

section

variable (ok : PcOk cells turns pushes pops stored data pc)

include ok

lemma PcOk.pushed (last : α) : PcOk cells turns (pushes ++ [last]) pops stored data pc := by
  have length : (pushes ++ [last]).length = pushes.length + 1 := length_append
  cases pc with
  | pushLooking item pos =>
    change pos ≤ (pushes ++ [last]).length
    rw [length]
    exact le_succ_of_le ok
  | pushClaiming item pos =>
    obtain ⟨low, -⟩ := ok
    rw [PcOk, length]
    exact ⟨le_succ_of_le low, fun bad => absurd bad (by omega)⟩
  | pushStoring item pos | pushPublishing item pos => exact ⟨getElem?_concat_of_some ok.1 last, ok.2⟩
  | _ => exact ok

lemma pushTicket_lt {k : Nat} (mine : pc.pushTicket = some k) : k < pushes.length := by
  cases pc <;> cases mine <;> exact getElem?_lt ok.1

lemma pushTicket_at (mine : pc.pushTicket = some k) : turns.At cells k false := by
  cases pc <;> cases mine
  · exact ok.2
  · exact ok.2.1

lemma popTicket_lt (mine : pc.popTicket = some k) : k < pops.length := by
  cases pc <;> cases mine <;> exact ok.1

end

lemma Inv.claimPush (inv : Inv cells turns s) (lawful : q.Lawful cells limit) (small : s.pushes.length < limit)
    (here : s.pc t = .pushClaiming item pos) (next : s.head = pos) : Inv cells turns (s.claimPush q t item pos) := by
  obtain ⟨-, ready⟩ := inv.at_place here
  have ticket := next.symm.trans inv.head
  have length : (s.pushes ++ [item]).length = s.pushes.length + 1 := length_append
  exact
    { inv with
      head := by
        change q.next pos = (s.pushes ++ [item]).length
        rw [ticket, lawful.next_eq _ small, length]
      pops_le := by
        change s.pops.length ≤ (s.pushes ++ [item]).length
        rw [length]
        exact le_succ_of_le inv.pops_le
      filled := fun i inside full => (inv.filled i inside full).imp_left fun found => getElem?_concat_of_some found item
      stored := fun e mem => getElem?_concat_of_some (inv.stored e mem) item
      place := by
        apply place_update _ fun u _ => (inv.place u).pushed item
        rw [ticket]
        exact ⟨getElem?_concat_length, ticket ▸ ready ticket⟩
      pushers := by
        apply inv.pushers.move
        intro k mine u _ theirs
        cases mine
        exact absurd (pushTicket_lt (inv.place u) theirs) (by omega)
      poppers := by
        apply inv.poppers.keep
        intro k mine
        cases mine }

lemma PcOk.popped (ok : PcOk cells turns pushes pops stored data pc) (last : Nat) :
    PcOk cells turns pushes (pops ++ [last]) stored data pc := by
  have length : (pops ++ [last]).length = pops.length + 1 := length_append
  cases pc with
  | popLooking pos =>
    change pos ≤ (pops ++ [last]).length
    rw [length]
    exact le_succ_of_le ok
  | popClaiming pos =>
    obtain ⟨low, -⟩ := ok
    rw [PcOk, length]
    exact ⟨le_succ_of_le low, fun bad => absurd bad (by omega)⟩
  | popReading pos | popReleasing pos item =>
    rw [PcOk, length]
    exact ⟨lt_succ_of_lt ok.1, ok.2⟩
  | _ => exact ok

lemma Inv.claimPop (inv : Inv cells turns s) (lawful : q.Lawful cells limit) (small : s.pushes.length < limit)
    (here : s.pc t = .popClaiming pos) (next : s.tail = pos) : Inv cells turns (s.claimPop q t pos) := by
  obtain ⟨-, ready⟩ := inv.at_place here
  have ticket := next.symm.trans inv.tail
  obtain ⟨current, full⟩ := ready ticket
  have inside : pos % cells < cells := mod_lt _ (lt_of_lt_of_le Nat.two_pos lawful.several)
  obtain ⟨pushed, stored⟩ := inv.filled _ inside full
  rw [current] at pushed stored
  have claimed := getElem?_lt pushed
  have length : (s.pops ++ [pos]).length = s.pops.length + 1 := length_append
  exact
    { inv with
      tail := by
        change q.next pos = (s.pops ++ [pos]).length
        rw [lawful.next_eq _ (lt_trans claimed small), length, ticket]
      pops := by
        change s.pops ++ [pos] = List.range (s.pops ++ [pos]).length
        rw [length, range_succ, ← inv.pops, ticket]
      pops_le := by
        change (s.pops ++ [pos]).length ≤ s.pushes.length
        omega
      ticket_lt := by
        intro i within
        change _ < (s.pops ++ [pos]).length + cells
        have before := inv.ticket_lt i within
        omega
      pops_stored := by
        exact List.forall_mem_append.mpr ⟨inv.pops_stored, List.forall_mem_singleton.mpr ⟨_, stored⟩⟩
      returned := fun e mem =>
        (inv.returned e mem).imp_right fun known => known.imp_left (mem_append_left _)
      place := by
        apply place_update _ fun u _ => (inv.place u).popped pos
        exact ⟨by rw [length, ticket]; exact lt_succ_self _, current, full⟩
      pushers := by
        apply inv.pushers.keep
        intro k mine
        cases mine
      poppers := by
        apply inv.poppers.move
        intro k mine u _ theirs
        cases mine
        exact absurd (popTicket_lt (inv.place u) theirs) (by omega) }

lemma Turns.At.not_both (first : turns.At cells k true) (second : turns.At cells l false) : k % cells ≠ l % cells := by
  intro same
  rw [Turns.At, same] at first
  exact absurd (first.2.symm.trans second.2) Bool.false_ne_true.symm

lemma Turns.At.eq (first : turns.At cells k a) (second : turns.At cells l b)
    (same : k % cells = l % cells) : k = l := by
  rw [← first.1, ← second.1, same]

lemma PcOk.storing (ok : PcOk cells turns pushes pops stored data pc) (mine : turns.At cells pos false)
    (other : pc.pushTicket ≠ some pos) (item : α) :
    PcOk cells turns pushes pops (stored ++ [(pos, item)]) (update data (pos % cells) item) pc := by
  cases pc with
  | pushPublishing theirs k =>
    obtain ⟨pushed, current, here, known⟩ := ok
    apply And.intro pushed
    apply And.intro current
    apply And.intro _ (mem_append_left _ known)
    rw [update_of_ne]
    · exact here
    · intro same
      exact other (congrArg some (current.eq mine same))
  | popReleasing k theirs =>
    obtain ⟨claimed, current, here⟩ := ok
    apply And.intro claimed
    apply And.intro current
    rw [update_of_ne (current.not_both mine)]
    exact here
  | _ => exact ok

lemma Inv.store (inv : Inv cells turns s) (lawful : q.Lawful cells limit)
    (here : s.pc t = .pushStoring item pos) : Inv cells turns (s.store q t item pos) := by
  obtain ⟨pushed, current⟩ := inv.at_place here
  have ticket : (s.pc t).pushTicket = some pos := by rw [here]; rfl
  have data : (s.store q t item pos).data = update s.data (pos % cells) item := by
    rw [← lawful.cell_eq]
    rfl
  exact
    { inv with
      filled := by
        intro i inside full
        have before := inv.filled i inside full
        rw [data, update_of_ne]
        · exact before.imp_right (mem_append_left _)
        · intro same
          rw [same, current.2] at full
          cases full
      stored := by
        exact List.forall_mem_append.mpr ⟨inv.stored, List.forall_mem_singleton.mpr pushed⟩
      pops_stored := by
        intro k mem
        obtain ⟨theirs, known⟩ := inv.pops_stored k mem
        exact ⟨theirs, mem_append_left _ known⟩
      returned := fun e mem => (inv.returned e mem).imp_left (mem_append_left _)
      place := by
        rw [data]
        apply place_update
        · exact ⟨pushed, current, update_self _ _ _, mem_append_right _ mem_cons_self⟩
        · intro u other
          exact (inv.place u).storing current (fun theirs => other (inv.pushers u t pos theirs ticket)) item
      pushers := by
        apply inv.pushers.keep
        intro k mine
        cases mine
        exact ticket
      poppers := by
        apply inv.poppers.keep
        intro k mine
        cases mine }

def Turns.fill (turns : Turns) (i : Nat) : Turns := { turns with full := update turns.full i true }

def Turns.next (turns : Turns) (i ticket : Nat) : Turns :=
  { ticket := update turns.ticket i ticket, full := update turns.full i false }

section Fields

variable {i j k : Nat}

lemma Turns.seq_fill_self : (turns.fill i).seq i = turns.ticket i + 1 := by simp [Turns.seq, Turns.fill]

lemma Turns.seq_fill_other (other : j ≠ i) : (turns.fill i).seq j = turns.seq j := by
  simp [Turns.seq, Turns.fill, update_of_ne other]

lemma Turns.seq_next_self : (turns.next i k).seq i = k := by simp [Turns.seq, Turns.next]

lemma Turns.seq_next_other (other : j ≠ i) : (turns.next i k).seq j = turns.seq j := by
  simp [Turns.seq, Turns.next, update_of_ne other]

lemma Turns.next_ticket_self : (turns.next i k).ticket i = k := update_self _ _ _

lemma Turns.next_ticket_other (other : j ≠ i) : (turns.next i k).ticket j = turns.ticket j :=
  update_of_ne other _ _

lemma Turns.next_full_self : (turns.next i k).full i = false := update_self _ _ _

lemma Turns.next_full_other (other : j ≠ i) : (turns.next i k).full j = turns.full j :=
  update_of_ne other _ _

end Fields

lemma Turns.At.fill_other {full : Bool} (here : turns.At cells k full) (other : k % cells ≠ i) :
    (turns.fill i).At cells k full := ⟨here.1, (update_of_ne other _ _).trans here.2⟩

lemma Turns.At.fill_full (here : turns.At cells k true) : (turns.fill i).At cells k true := by
  by_cases same : k % cells = i
  · apply And.intro here.1
    change update turns.full i true (k % cells) = true
    rw [same, update_self]
  · exact here.fill_other same

lemma Turns.At.next_other {k i ticket : Nat} {full : Bool} (here : turns.At cells k full) (other : k % cells ≠ i) :
    (turns.next i ticket).At cells k full :=
  ⟨(Turns.next_ticket_other other).trans here.1, (Turns.next_full_other other).trans here.2⟩

section

variable (ok : PcOk cells turns pushes pops stored data pc)

include ok

lemma PcOk.retimed
    (push : ∀ k, pc.pushTicket = some k ∨ k = pushes.length → turns.At cells k false → turns'.At cells k false)
    (pop : ∀ k, pc.popTicket = some k ∨ k = pops.length → turns.At cells k true → turns'.At cells k true) :
    PcOk cells turns' pushes pops stored data pc := by
  cases pc with
  | pushClaiming theirs k => exact ⟨ok.1, fun last => push k (.inr last) (ok.2 last)⟩
  | pushStoring theirs k => exact ⟨ok.1, push k (.inl rfl) ok.2⟩
  | pushPublishing theirs k => exact ⟨ok.1, push k (.inl rfl) ok.2.1, ok.2.2⟩
  | popClaiming k => exact ⟨ok.1, fun last => pop k (.inr last) (ok.2 last)⟩
  | popReading k => exact ⟨ok.1, pop k (.inl rfl) ok.2⟩
  | popReleasing k theirs => exact ⟨ok.1, pop k (.inl rfl) ok.2.1, ok.2.2⟩
  | _ => exact ok

omit ok in
lemma Turns.At.apart {k length : Nat} {full : Bool} {ticket : Option Nat} (current : turns.At cells k full)
    (mine : turns.At cells pos full) (claimed : pos < length) (other : ticket ≠ some pos)
    (which : ticket = some k ∨ k = length) : k % cells ≠ pos % cells := by
  intro same
  obtain rfl := current.eq mine same
  exact which.elim other (by omega)

lemma PcOk.published (mine : turns.At cells pos false)
    (claimed : pos < pushes.length) (other : pc.pushTicket ≠ some pos) :
    PcOk cells (turns.fill (pos % cells)) pushes pops stored data pc :=
  ok.retimed (fun _ which current => current.fill_other (current.apart mine claimed other which))
    fun _ _ current => current.fill_full

omit ok in
lemma Inv.publish (inv : Inv cells turns s) (lawful : q.Lawful cells limit) (small : s.pushes.length < limit)
    (here : s.pc t = .pushPublishing item pos) : Inv cells (turns.fill (pos % cells)) (s.publish q t pos) := by
  obtain ⟨pushed, current, stored, known⟩ := inv.at_place here
  have claimed := getElem?_lt pushed
  have ticket : (s.pc t).pushTicket = some pos := by rw [here]; rfl
  have seq : (s.publish q t pos).seq = update s.seq (pos % cells) (pos + 1) := by
    rw [← lawful.cell_eq, ← lawful.next_eq pos (lt_trans claimed small)]
    rfl
  exact
    { inv with
      seq := by
        intro i inside
        rw [seq]
        by_cases same : i = pos % cells
        · rw [same, update_self, Turns.seq_fill_self, current.1]
        · rw [update_of_ne same, inv.seq i inside, Turns.seq_fill_other same]
      mod := inv.mod
      ticket_lt := inv.ticket_lt
      filled := by
        intro i inside full
        by_cases same : i = pos % cells
        · rw [same]
          change s.pushes[turns.ticket (pos % cells)]? = some (s.data (pos % cells)) ∧
            (turns.ticket (pos % cells), s.data (pos % cells)) ∈ s.stored
          rw [current.1, stored]
          exact ⟨pushed, known⟩
        · apply inv.filled i inside
          exact (update_of_ne same _ _).symm.trans full
      returned := inv.returned
      place := by
        apply place_update
        · exact trivial
        · intro u other
          exact (inv.place u).published current claimed (fun theirs => other (inv.pushers u t pos theirs ticket))
      pushers := by
        apply inv.pushers.keep
        intro k mine
        cases mine
      poppers := by
        apply inv.poppers.keep
        intro k mine
        cases mine }

lemma PcOk.released (mine : turns.At cells pos true)
    (claimed : pos < pops.length) (other : pc.popTicket ≠ some pos) (ticket : Nat) :
    PcOk cells (turns.next (pos % cells) ticket) pushes pops stored data pc :=
  ok.retimed (fun _ _ current => current.next_other (mine.not_both current).symm)
    fun _ which current => current.next_other (current.apart mine claimed other which)

end

section

variable (inv : Inv cells turns s) (lawful : q.Lawful cells limit) (small : s.pushes.length < limit)

include inv lawful small

lemma Inv.release (here : s.pc t = .popReleasing pos item) :
    Inv cells (turns.next (pos % cells) (pos + cells)) (s.release q t pos item) := by
  obtain ⟨claimed, current, taken⟩ := inv.at_place here
  have positive : 0 < cells := lt_of_lt_of_le Nat.two_pos lawful.several
  have inside : pos % cells < cells := mod_lt _ positive
  have popTicket : (s.pc t).popTicket = some pos := by rw [here]; rfl
  obtain ⟨-, stored⟩ := inv.filled _ inside current.2
  rw [current.1, taken] at stored
  have seq : (s.release q t pos item).seq = update s.seq (pos % cells) (pos + cells) := by
    rw [← lawful.cell_eq, ← lawful.lap_eq pos (by have := inv.pops_le; omega)]
    rfl
  have mem : pos ∈ s.pops := by
    rw [inv.pops]
    exact List.mem_range.mpr claimed
  exact
    { inv with
      seq := by
        intro i within
        rw [seq]
        by_cases same : i = pos % cells
        · rw [same, update_self, Turns.seq_next_self]
        · rw [update_of_ne same, inv.seq i within, Turns.seq_next_other same]
      mod := by
        intro i within
        by_cases same : i = pos % cells
        · rw [same, Turns.next_ticket_self, add_mod_right]
        · rw [Turns.next_ticket_other same]
          exact inv.mod i within
      ticket_lt := by
        intro i within
        change _ < s.pops.length + cells
        grind [Turns.next_ticket_self, Turns.next_ticket_other, inv.ticket_lt i within]
      filled := by
        intro i within full
        by_cases same : i = pos % cells
        · rw [same, Turns.next_full_self] at full
          cases full
        · rw [Turns.next_full_other same] at full
          rw [Turns.next_ticket_other same]
          exact inv.filled i within full
      returned := by
        intro e listed
        rcases List.mem_append.mp listed with earlier | last
        · obtain ⟨found, popped, passed⟩ := inv.returned e earlier
          apply And.intro found
          apply And.intro popped
          grind [Turns.next_ticket_self, Turns.next_ticket_other, current.1]
        · rw [List.mem_singleton.mp last, Turns.next_ticket_self]
          exact ⟨stored, mem, by omega⟩
      nodup := by
        change ((s.returned ++ [(pos, item)]).map Prod.fst).Nodup
        rw [map_append]
        apply List.Nodup.append inv.nodup (nodup_singleton _)
        intro k earlier last
        rw [List.mem_singleton.mp last] at earlier
        obtain ⟨e, listed, same⟩ := List.mem_map.mp earlier
        have passed := (inv.returned e listed).2.2
        rw [same, current.1] at passed
        exact lt_irrefl _ passed
      place := by
        apply place_update
        · exact trivial
        · intro u other
          exact (inv.place u).released current claimed (fun theirs => other (inv.poppers u t pos theirs popTicket)) _
      pushers := by
        apply inv.pushers.keep
        intro k mine
        cases mine
      poppers := by
        apply inv.poppers.keep
        intro k mine
        cases mine }

lemma Inv.advance (t : T) (spurious : Bool) : ∃ turns', Inv cells turns' (advance q s t spurious) := by
  have headLe := le_of_eq inv.head
  have tailLe := le_of_eq inv.tail
  unfold TicketQueue.advance
  split
  · exact ⟨turns, inv⟩
  next item pos here =>
    have low := inv.at_place here
    split
    next equal => exact ⟨turns, inv.goto_free t ⟨low, fun _ => inv.push_ready lawful small low equal⟩ rfl rfl⟩
    · exact ⟨turns, inv.goto_free t trivial rfl rfl⟩
    · exact ⟨turns, inv.goto_free t trivial rfl rfl⟩
  next item pos here =>
    split
    next claims => exact ⟨turns, inv.claimPush lawful small here claims.1⟩
    · exact ⟨turns, inv.goto_free t headLe rfl rfl⟩
  · exact ⟨turns, inv.goto_free t headLe rfl rfl⟩
  next item pos here => exact ⟨turns, inv.store lawful here⟩
  next item pos here => exact ⟨_, inv.publish lawful small here⟩
  next pos here =>
    have low := inv.at_place here
    split
    next equal => exact ⟨turns, inv.goto_free t ⟨low, fun _ => inv.pop_ready lawful small low equal⟩ rfl rfl⟩
    · exact ⟨turns, inv.goto_free t trivial rfl rfl⟩
    · exact ⟨turns, inv.goto_free t trivial rfl rfl⟩
  next pos here =>
    split
    next claims => exact ⟨turns, inv.claimPop lawful small here claims.1⟩
    · exact ⟨turns, inv.goto_free t tailLe rfl rfl⟩
  · exact ⟨turns, inv.goto_free t tailLe rfl rfl⟩
  next pos here =>
    obtain ⟨claimed, current⟩ := inv.at_place here
    have ok : PcOk cells turns s.pushes s.pops s.stored s.data (.popReleasing pos (s.data (q.cell pos))) :=
      ⟨claimed, current, by rw [lawful.cell_eq]⟩
    apply Exists.intro turns
    apply inv.goto ok
    · intro k mine
      cases mine
    · intro k mine
      cases mine
      rw [here]
      rfl
  next pos item here => exact ⟨_, inv.release lawful small here⟩

lemma Inv.step (action : Action T α) : ∃ turns', Inv cells turns' (step q s action) := by
  cases action with
  | push t item =>
    rw [TicketQueue.step]
    split
    · exact ⟨turns, inv.goto_free t (le_of_eq inv.head) rfl rfl⟩
    · exact ⟨turns, inv⟩
  | pop t =>
    rw [TicketQueue.step]
    split
    · exact ⟨turns, inv.goto_free t (le_of_eq inv.tail) rfl rfl⟩
    · exact ⟨turns, inv⟩
  | advance t spurious => exact inv.advance lawful small t spurious

end

def Action.isCall : Action T α → Bool
  | .push _ _ => true
  | .pop _ => true
  | .advance _ _ => false

def Pc.waiting : Pc α → Bool
  | .pushLooking _ _ => true
  | .pushClaiming _ _ => true
  | .pushReloading _ => true
  | .popLooking _ => true
  | .popClaiming _ => true
  | .popReloading => true
  | _ => false

def Counted (calls : Nat) (s : State T α) : Prop :=
  ∃ inside : List T, (∀ t, (s.pc t).waiting = true → t ∈ inside) ∧
    s.pushes.length + s.pops.length + inside.length ≤ calls

lemma waiting_update {inside : List T} (listed : ∀ t, (pcs t).waiting = true → t ∈ inside)
    (self : pc.waiting = true → t ∈ inside) (u : T) (waits : (update pcs t pc u).waiting = true) : u ∈ inside := by
  grind [Function.update_apply]

lemma waiting_erase {inside : List T} (listed : ∀ t, (pcs t).waiting = true → t ∈ inside) (done : pc.waiting = false)
    (u : T) (waits : (update pcs t pc u).waiting = true) : u ∈ inside.erase t := by
  grind [Function.update_apply]

variable {calls : Nat}

lemma Counted.advance (counted : Counted calls s) (q : Ticketing) (t : T) (spurious : Bool) :
    Counted calls (advance q s t spurious) := by
  obtain ⟨inside, listed, few⟩ := counted
  have self (pc : Pc α) (here : s.pc t = pc) (waits : pc.waiting = true) : t ∈ inside := by
    apply listed t
    rw [here]
    exact waits
  have move (pc : Pc α) (known : pc.waiting = true → t ∈ inside) : Counted calls (s.goto t pc) :=
    ⟨inside, waiting_update listed known, few⟩
  have claim {u : State T α} (mem : t ∈ inside) (left : ∀ v, (u.pc v).waiting = true → v ∈ inside.erase t)
      (count : u.pushes.length + u.pops.length ≤ s.pushes.length + s.pops.length + 1) : Counted calls u := by
    apply Exists.intro (inside.erase t)
    apply And.intro left
    have shorter := length_erase_add_one mem
    omega
  unfold TicketQueue.advance
  split
  · exact ⟨inside, listed, few⟩
  next item pos here =>
    split
    · exact move _ fun _ => self _ here rfl
    · exact move _ fun bad => by cases bad
    · exact move _ fun _ => self _ here rfl
  next item pos here =>
    have mem := self _ here rfl
    split
    · apply claim mem (waiting_erase listed rfl)
      simp [State.claimPush, State.goto]
      omega
    · exact move _ fun _ => mem
  next item here => exact move _ fun _ => self _ here rfl
  · exact ⟨inside, waiting_update listed (fun bad => by cases bad), few⟩
  · exact ⟨inside, waiting_update listed (fun bad => by cases bad), few⟩
  next pos here =>
    split
    · exact move _ fun _ => self _ here rfl
    · exact move _ fun bad => by cases bad
    · exact move _ fun _ => self _ here rfl
  next pos here =>
    have mem := self _ here rfl
    split
    · apply claim mem (waiting_erase listed rfl)
      simp [State.claimPop, State.goto]
      omega
    · exact move _ fun _ => mem
  next here => exact move _ fun _ => self _ here rfl
  · exact move _ fun bad => by cases bad
  · exact ⟨inside, waiting_update listed (fun bad => by cases bad), few⟩

lemma Counted.call (counted : Counted calls s) (t : T) (pc : Pc α) : Counted (calls + 1) (s.goto t pc) := by
  obtain ⟨inside, listed, few⟩ := counted
  apply Exists.intro (t :: inside)
  apply And.intro
  · exact waiting_update (fun u waits => mem_cons_of_mem t (listed u waits)) fun _ => mem_cons_self
  · change s.pushes.length + s.pops.length + (t :: inside).length ≤ calls + 1
    rw [length_cons]
    omega

omit [DecidableEq T] in
lemma Counted.mono (counted : Counted calls s) (atMost : calls ≤ more) : Counted more s := by
  obtain ⟨inside, listed, few⟩ := counted
  exact ⟨inside, listed, le_trans few atMost⟩

lemma Counted.step (counted : Counted calls s) (q : Ticketing) (action : Action T α) :
    Counted (calls + if action.isCall then 1 else 0) (step q s action) := by
  cases action with
  | push t item | pop t =>
    change Counted (calls + 1) _
    rw [TicketQueue.step]
    split
    · exact counted.call t _
    · exact counted.mono (le_succ _)
  | advance t spurious => exact counted.advance q t spurious

def Pc.PushesFrom (low : Nat) (pc : Pc α) : Prop := ∀ k, pc.pushTicket = some k → low ≤ k

/-- At most `cells` items are pushed and not popped, the stored ones of them are in their cells, and no popped ticket is
about to be stored. -/
structure Bounded (cells : Nat) (s : State T α) : Prop where
  room : s.pushes.length ≤ s.pops.length + cells
  kept : ∀ k item, s.pops.length ≤ k → (k, item) ∈ s.stored → s.data (k % cells) = item
  ahead : ∀ t, (s.pc t).PushesFrom s.pops.length

lemma Bounded.goto (bounded : Bounded cells s) (none : pc.pushTicket = none) : Bounded cells (s.goto t pc) :=
  { bounded with
    ahead := by
      apply place_update _ fun u _ => bounded.ahead u
      intro k mine
      rw [none] at mine
      cases mine }

lemma Bounded.advance (bounded : Bounded cells s) (inv : Inv cells turns s) (lawful : q.Lawful cells limit) (t : T)
    (spurious : Bool) : Bounded cells (advance q s t spurious) := by
  have room := bounded.room
  unfold TicketQueue.advance
  split
  · exact bounded
  · split <;> exact bounded.goto rfl
  next item pos here =>
    split
    next claims =>
      have ticket := claims.1.symm.trans inv.head
      have below := inv.ticket_lt _ (mod_lt pos (lt_of_lt_of_le Nat.two_pos lawful.several))
      rw [((inv.at_place here).2 ticket).1, ticket] at below
      exact
        { bounded with
          room := by
            change (s.pushes ++ [item]).length ≤ _
            rw [length_append]
            exact below
          ahead := by
            apply place_update _ fun u _ => bounded.ahead u
            intro k mine
            cases mine
            exact ticket ▸ inv.pops_le }
    · exact bounded.goto rfl
  · exact bounded.goto rfl
  next item pos here =>
    have pushed := (inv.at_place here).1
    have claimed := getElem?_lt pushed
    have low := bounded.ahead t pos (here ▸ rfl)
    exact
      { bounded with
        kept := by
          intro k last unpopped listed
          change s.pops.length ≤ k at unpopped
          change update s.data (q.cell pos) item (k % cells) = last
          rw [lawful.cell_eq]
          rcases mem_append.mp listed with earlier | new
          · have known := inv.stored _ earlier
            have inside := getElem?_lt known
            rcases lt_trichotomy k pos with before | rfl | after
            · rw [update_of_ne (mod_ne_of_near before (by omega))]
              exact bounded.kept k last unpopped earlier
            · rw [update_self]
              exact Option.some.inj (pushed.symm.trans known)
            · rw [update_of_ne (mod_ne_of_near after (by omega)).symm]
              exact bounded.kept k last unpopped earlier
          · cases List.mem_singleton.mp new
            exact update_self _ _ _
        ahead := by
          apply place_update _ fun u _ => bounded.ahead u
          intro k mine
          cases mine
          exact low }
  · exact { (bounded.goto rfl : Bounded cells (s.goto t .idle)) with }
  · split <;> exact bounded.goto rfl
  next pos here =>
    split
    next claims =>
      have ticket := claims.1.symm.trans inv.tail
      have length : (s.pops ++ [pos]).length = s.pops.length + 1 := length_append
      have others (u : T) : (s.pc u).PushesFrom (s.pops ++ [pos]).length := by
        intro k mine
        have low := bounded.ahead u k mine
        have other : k ≠ pos := by
          rintro rfl
          exact ((inv.at_place here).2 ticket).not_both (pushTicket_at (inv.place u) mine) rfl
        omega
      exact
        { room := by
            change s.pushes.length ≤ (s.pops ++ [pos]).length + cells
            omega
          kept := by
            intro k item unpopped listed
            change (s.pops ++ [pos]).length ≤ k at unpopped
            exact bounded.kept k item (by omega) listed
          ahead := by
            apply place_update _ fun u _ => others u
            intro k mine
            cases mine }
    · exact bounded.goto rfl
  · exact bounded.goto rfl
  · exact bounded.goto rfl
  · exact { (bounded.goto rfl : Bounded cells (s.goto t .idle)) with }

lemma Bounded.step (bounded : Bounded cells s) (inv : Inv cells turns s) (lawful : q.Lawful cells limit)
    (action : Action T α) : Bounded cells (step q s action) := by
  cases action with
  | push t item | pop t =>
    rw [TicketQueue.step]
    split
    · exact bounded.goto rfl
    · exact bounded
  | advance t spurious => exact bounded.advance inv lawful t spurious

lemma Inv.run (inv : Inv cells turns s) (lawful : q.Lawful cells limit) (counted : Counted calls s)
    (actions : List (Action T α)) (few : calls + actions.countP Action.isCall < limit) :
    ∃ turns', Inv cells turns' (actions.foldl (TicketQueue.step q) s) ∧
      (Bounded cells s → Bounded cells (actions.foldl (TicketQueue.step q) s)) := by
  induction actions generalizing s turns calls with
  | nil => exact ⟨turns, inv, id⟩
  | cons action rest ih =>
    have small : s.pushes.length < limit := by
      obtain ⟨inside, -, atMost⟩ := counted
      omega
    obtain ⟨next, kept⟩ := inv.step lawful small action
    rw [countP_cons] at few
    obtain ⟨last, final, bounds⟩ := ih kept (counted.step q action) (by omega)
    exact ⟨last, final, fun bounded => bounds (bounded.step inv lawful action)⟩

end TicketQueue

end LibOp.Foundation

import LibOp.Foundation.Chains
import LibOp.Sendbuf.Inbox

namespace LibOp.Sendbuf

open Foundation Linebuf Websocket List Function

variable {n : Nat}

def Producer.held : Producer → Option Addr
  | .pushing push => some push.chunk
  | .loaded push _ => some push.chunk
  | .linked push _ => some push.chunk
  | _ => none

def Consumer.stack : Consumer → Option Addr
  | .reversing _ stack _ => stack
  | _ => none

def Consumer.fifo : Consumer → Option Addr
  | .reversing _ _ prev => prev
  | .walking _ fifoHead _ => some fifoHead
  | _ => none

/-- The pushed chunks: the active list, the drained stack before and after its reversal, and the inbox. -/
structure View where
  active : List Addr
  stack : List Addr
  fifo : List Addr
  inbox : List Addr

def View.chunks (v : View) : List Addr := v.active ++ v.stack.reverse ++ v.fifo ++ v.inbox.reverse

structure View.Reads (v : View) (s : Mpsc n) : Prop where
  active : LinkedFrom s.next s.head v.active
  tail : s.tail = v.active.getLast?
  stack : LinkedFrom s.next s.consumer.stack v.stack
  fifo : LinkedFrom s.next s.consumer.fifo v.fifo
  inbox : LinkedFrom s.next s.inbox v.inbox

/-- A chunk about to be pushed is in the hands of its producer only, and linked once that says so. -/
structure Mpsc.OwnChunk (s : Mpsc n) (chunks : List Addr) (p : Fin n) (pc : Producer) : Prop where
  held : ∀ a, pc.held = some a → s.allocated a = true ∧ a ∉ chunks ∧ s.tag a = some ⟨p, pushesOf s.pushed p⟩
  linked : ∀ push oldTop, pc = .linked push oldTop → s.next push.chunk = oldTop

def Numbered (pushed : List (Tag n)) : Prop :=
  ∀ p, pushed.filter (·.producer = p) = (List.range (pushesOf pushed p)).map (Tag.mk p)

/-- The chunks are in use, owned by no producer, and with the consumed ones all the pushes. -/
structure Mpsc.Keeps (s : Mpsc n) (chunks : List Addr) : Prop where
  separate : chunks.Nodup
  allocated : ∀ a ∈ chunks, s.allocated a = true
  tagged : ∀ a ∈ chunks, (s.tag a).isSome = true
  own : ∀ p, s.OwnChunk chunks p (s.producers p)
  order : s.pushed = s.consumed ++ chunks.filterMap s.tag
  numbered : Numbered s.pushed

structure Mpsc.Sound (s : Mpsc n) (v : View) : Prop extends v.Reads s, s.Keeps v.chunks where
  walking : ∀ job fifoHead fifoTail, s.consumer = .walking job fifoHead fifoTail → fifoTail ∈ v.fifo
  reversing : ∀ job stack prev, s.consumer = .reversing job stack prev → v.stack ++ v.fifo ≠ []
  safe : s.consumer ≠ .fault

variable {s : Mpsc n} {chunks : List Addr} {p : Fin n} {pc : Producer}

lemma ownChunk_of_free (free : pc.held = none) : s.OwnChunk chunks p pc where
  held a holds := by
    rw [free] at holds
    cases holds
  linked push oldTop at_ := by
    rw [at_] at free
    cases free

lemma start_sound (n : Nat) : (Mpsc.start n).Sound ⟨[], [], [], []⟩ where
  active := rfl
  tail := rfl
  stack := rfl
  fifo := rfl
  inbox := rfl
  separate := nodup_nil
  allocated _ mem := absurd mem not_mem_nil
  tagged _ mem := absurd mem not_mem_nil
  own _ := ownChunk_of_free rfl
  walking _ _ _ at_ := Consumer.noConfusion at_
  reversing _ _ _ at_ := Consumer.noConfusion at_
  safe := Consumer.noConfusion
  order := rfl
  numbered _ := rfl

variable {v : View}

lemma Mpsc.Sound.goto (sound : s.Sound v) (own : s.OwnChunk v.chunks p pc) : (s.goto p pc).Sound v :=
  { sound with
    own := by
      apply (Function.forall_update_iff s.producers (p := fun q pc => (s.goto p _).OwnChunk v.chunks q pc)).mpr
      exact ⟨{ own with }, fun q _ => { sound.own q with }⟩ }

variable {a chunk fifoHead : Addr} {q : Fin n}

lemma filterMap_update {l : List Addr} {tag : Addr → Option (Tag n)} (value : Option (Tag n)) (absent : a ∉ l) :
    l.filterMap (update tag a value) = l.filterMap tag := by
  apply filterMap_congr
  intro b mem
  apply update_of_ne
  rintro rfl
  exact absent mem

lemma View.Reads.write (reads : v.Reads s) (absent : a ∉ v.chunks) (value : Option Addr) :
    v.Reads { s with next := update s.next a value } := by
  simp only [View.chunks, mem_append, mem_reverse, not_or] at absent
  obtain ⟨⟨⟨active, stack⟩, fifo⟩, inbox⟩ := absent
  exact { reads with
    active := reads.active.frame value active
    stack := reads.stack.frame value stack
    fifo := reads.fifo.frame value fifo
    inbox := reads.inbox.frame value inbox }

variable {push : Push} {oldTop : Option Addr}

lemma held_of_linked (at_ : pc = .linked push oldTop) : pc.held = some push.chunk := by
  rw [at_]
  rfl

lemma Mpsc.Sound.alloc (sound : s.Sound v) {fresh : Addr} (unused : s.allocated fresh = false) (p : Fin n)
    (chunk : SendbufChunk) : (s.alloc p fresh chunk).Sound v ∧ fresh ∉ v.chunks := by
  have used {a : Addr} (allocated : s.allocated a = true) : a ≠ fresh := by
    rintro rfl
    rw [unused] at allocated
    cases allocated
  have absent : fresh ∉ v.chunks := fun mem => used (sound.allocated fresh mem) rfl
  apply And.intro _ absent
  exact { sound.toReads.write absent none, sound with
    allocated := by
      intro a mem
      simp only [Mpsc.alloc, update_of_ne (used (sound.allocated a mem))]
      exact sound.allocated a mem
    tagged := by
      intro a mem
      simp only [Mpsc.alloc, update_of_ne (used (sound.allocated a mem))]
      exact sound.tagged a mem
    own := by
      intro q
      have own := sound.own q
      constructor
      · intro a holds
        obtain ⟨allocated, outside, tag⟩ := own.held a holds
        simp only [Mpsc.alloc, update_of_ne (used allocated)]
        exact ⟨allocated, outside, tag⟩
      · intro push oldTop at_
        simp only [Mpsc.alloc, update_of_ne (used (own.held _ (held_of_linked at_)).1)]
        exact own.linked push oldTop at_
    order := by
      rw [Mpsc.alloc, filterMap_update _ absent]
      exact sound.order }

variable {p : Fin n}

lemma Mpsc.Sound.held_by_one (sound : s.Sound v) (first : (s.producers p).held = some a)
    (second : (s.producers q).held = some a) : p = q := by
  have one := ((sound.own p).held a first).2.2
  rw [((sound.own q).held a second).2.2] at one
  cases one
  rfl

lemma Mpsc.Sound.link (sound : s.Sound v) (at_ : s.producers p = .loaded push oldTop) :
    (s.link p push oldTop).Sound v := by
  have holds : (s.producers p).held = some push.chunk := by
    rw [at_]
    rfl
  have mine := (sound.own p).held push.chunk holds
  exact { sound.toReads.write mine.2.1 oldTop, sound with
    own := by
      apply (Function.forall_update_iff s.producers
        (p := fun q pc => (s.link p push oldTop).OwnChunk v.chunks q pc)).mpr
      constructor
      · constructor
        · intro a same
          cases same
          exact mine
        · intro same top linked
          cases linked
          exact update_self _ _ _
      · intro q other
        have own := sound.own q
        constructor
        · exact own.held
        · intro theirs top linked
          have apart : theirs.chunk ≠ push.chunk := by
            intro same
            apply other
            apply sound.held_by_one (held_of_linked linked)
            rw [same, holds]
          simp only [Mpsc.link, update_of_ne apart]
          exact own.linked theirs top linked }

section

variable (tags : List (Tag n))

lemma filter_own_append (p : Fin n) (seq : Nat) :
    (tags ++ [Tag.mk p seq]).filter (·.producer = p) = tags.filter (·.producer = p) ++ [Tag.mk p seq] := by
  rw [filter_append, filter_cons_of_pos (by simp), filter_nil]

lemma filter_other_append (other : q ≠ p) (seq : Nat) :
    (tags ++ [Tag.mk p seq]).filter (·.producer = q) = tags.filter (·.producer = q) := by
  rw [filter_append, filter_cons_of_neg (by simpa using Ne.symm other), filter_nil, append_nil]

lemma pushesOf_own_append (p : Fin n) (seq : Nat) : pushesOf (tags ++ [Tag.mk p seq]) p = pushesOf tags p + 1 := by
  rw [pushesOf, filter_own_append, length_append, length_singleton, pushesOf]

lemma pushesOf_other_append (other : q ≠ p) (seq : Nat) : pushesOf (tags ++ [Tag.mk p seq]) q = pushesOf tags q := by
  rw [pushesOf, filter_other_append _ other, pushesOf]

end

variable {pushed : List (Tag n)}

lemma Numbered.append (numbered : Numbered pushed) (p : Fin n) :
    Numbered (pushed ++ [Tag.mk p (pushesOf pushed p)]) := by
  intro q
  by_cases same : q = p
  · subst same
    rw [filter_own_append, pushesOf_own_append, range_succ, map_append, ← numbered q]
    rfl
  · rw [filter_other_append _ same, pushesOf_other_append _ same]
    exact numbered q

lemma View.chunks_push (v : View) (a : Addr) : View.chunks { v with inbox := a :: v.inbox } = v.chunks ++ [a] := by
  simp [View.chunks]

lemma Mpsc.Sound.publish (sound : s.Sound v) (at_ : s.producers p = .linked push s.inbox) :
    (s.publish p push).Sound { v with inbox := push.chunk :: v.inbox } := by
  have holds := held_of_linked at_
  obtain ⟨allocated, outside, tag⟩ := (sound.own p).held push.chunk holds
  have chain : LinkedFrom s.next (s.next push.chunk) v.inbox := by
    rw [(sound.own p).linked push s.inbox at_]
    exact sound.inbox
  have pushed : (s.publish p push).pushed = s.pushed ++ [Tag.mk p (pushesOf s.pushed p)] := by
    rw [Mpsc.publish, tag, Option.toList_some]
  have members {P : Addr → Prop} (all : ∀ a ∈ v.chunks, P a) (new : P push.chunk) :
      ∀ a ∈ View.chunks { v with inbox := push.chunk :: v.inbox }, P a := by
    rw [View.chunks_push]
    exact List.forall_mem_append.mpr ⟨all, List.forall_mem_singleton.mpr new⟩
  exact { sound with
    inbox := ⟨rfl, chain⟩
    separate := by
      rw [View.chunks_push, nodup_append_comm]
      exact List.nodup_cons.mpr ⟨outside, sound.separate⟩
    allocated := members sound.allocated allocated
    tagged := members sound.tagged (Option.isSome_of_mem tag)
    own := by
      apply (Function.forall_update_iff s.producers (p := fun q pc => (s.publish p push).OwnChunk _ q pc)).mpr
      refine ⟨ownChunk_of_free rfl, fun q other => ⟨fun a theirs => ?_, (sound.own q).linked⟩⟩
      obtain ⟨inUse, away, name⟩ := (sound.own q).held a theirs
      have apart : a ≠ push.chunk := by
        rintro rfl
        exact other (sound.held_by_one theirs holds)
      rw [View.chunks_push, pushed, pushesOf_other_append _ other]
      exact ⟨inUse, by simp [away, apart], name⟩
    order := by
      have extended : s.pushed ++ [Tag.mk p (pushesOf s.pushed p)] =
          s.consumed ++ (v.chunks ++ [push.chunk]).filterMap s.tag := by
        rw [filterMap_append, ← append_assoc, ← sound.order, filterMap_cons_some tag, filterMap_nil]
      rw [pushed, View.chunks_push]
      exact extended
    numbered := by
      rw [pushed]
      exact sound.numbered.append p }

def Consumer.Plain : Consumer → Prop
  | .reversing _ _ _ => False
  | .walking _ _ _ => False
  | .fault => False
  | _ => True

lemma Consumer.Plain.parts {pc : Consumer} (plain : pc.Plain) : pc.stack = none ∧ pc.fifo = none := by
  cases pc <;> first | exact ⟨rfl, rfl⟩ | exact plain.elim

lemma Mpsc.Sound.of_plain (reads : v.Reads s) (keeps : s.Keeps v.chunks) (plain : s.consumer.Plain) : s.Sound v :=
  { reads, keeps with
    walking := by
      intro job fifoHead fifoTail at_
      rw [at_] at plain
      exact plain.elim
    reversing := by
      intro job stack prev at_
      rw [at_] at plain
      exact plain.elim
    safe := by
      intro at_
      rw [at_] at plain
      exact plain }

lemma Mpsc.Sound.nothing_drained (sound : s.Sound v) (plain : s.consumer.Plain) : v.stack = [] ∧ v.fifo = [] := by
  have stack := sound.stack
  have fifo := sound.fifo
  rw [plain.parts.1] at stack
  rw [plain.parts.2] at fifo
  exact ⟨stack.eq_nil, fifo.eq_nil⟩

lemma Mpsc.Sound.moveTo (sound : s.Sound v) {old : Consumer} (at_ : s.consumer = old) (plain : old.Plain)
    (pc : Consumer) (also : pc.Plain) : Mpsc.Sound { s with consumer := pc } v := by
  rw [← at_] at plain
  obtain ⟨stack, fifo⟩ := sound.nothing_drained plain
  have reads : View.Reads v { s with consumer := pc } :=
    { sound with
      stack := by
        rw [also.parts.1, stack]
        rfl
      fifo := by
        rw [also.parts.2, fifo]
        rfl }
  exact .of_plain reads { sound with own := fun p => { sound.own p with } } also

variable {job : Job}

lemma Mpsc.Sound.exchange (sound : s.Sound v) (at_ : s.consumer = .draining job) {top : Addr}
    (found : s.inbox = some top) :
    Mpsc.Sound { s with consumer := .reversing job (some top) none, inbox := none } ⟨v.active, v.inbox, [], []⟩ := by
  have plain : s.consumer.Plain := by
    rw [at_]
    exact trivial
  obtain ⟨stack, fifo⟩ := sound.nothing_drained plain
  have same : v.chunks = View.chunks ⟨v.active, v.inbox, [], []⟩ := by simp [View.chunks, stack, fifo]
  have keeps := sound.toKeeps
  have inbox := sound.inbox
  rw [same] at keeps
  rw [found] at inbox
  obtain ⟨rest, shape, -⟩ := inbox.eq_cons
  exact { keeps with
    active := sound.active
    tail := sound.tail
    stack := inbox
    fifo := rfl
    inbox := rfl
    own p := { keeps.own p with }
    walking := by
      intro _ _ _ at_
      cases at_
    reversing := by
      intro _ _ _ _
      rw [shape]
      exact cons_ne_nil _ _
    safe := Consumer.noConfusion }

lemma Mpsc.Keeps.own_write (keeps : s.Keeps chunks) (mem : a ∈ chunks) (value : Option Addr) (p : Fin n) :
    Mpsc.OwnChunk { s with next := update s.next a value } chunks p (s.producers p) := by
  constructor
  · exact (keeps.own p).held
  · intro push oldTop linked
    have apart : push.chunk ≠ a := by
      rintro rfl
      exact ((keeps.own p).held push.chunk (held_of_linked linked)).2.1 mem
    simp only [update_of_ne apart]
    exact (keeps.own p).linked push oldTop linked

section

variable (sound : s.Sound v)

include sound

lemma Mpsc.Sound.reverse {prev : Option Addr} (at_ : s.consumer = .reversing job (some chunk) prev) :
    ∃ rest, v.stack = chunk :: rest ∧
      Mpsc.Sound { s with next := update s.next chunk prev, consumer := .reversing job (s.next chunk) (some chunk) }
        ⟨v.active, rest, chunk :: v.fifo, v.inbox⟩ := by
  have stack := sound.stack
  have fifo := sound.fifo
  have keeps := sound.toKeeps
  rw [at_] at stack fifo
  obtain ⟨rest, shape, after⟩ := stack.eq_cons
  have same : v.chunks = View.chunks ⟨v.active, rest, chunk :: v.fifo, v.inbox⟩ := by simp [View.chunks, shape]
  rw [same] at keeps
  have apart : chunk ∉ (v.active ++ rest.reverse) ++ (v.fifo ++ v.inbox.reverse) := by
    apply (List.nodup_cons.mp (List.nodup_middle.mp _)).1
    simpa [View.chunks] using keeps.separate
  simp only [mem_append, mem_reverse, not_or] at apart
  have inQueue : chunk ∈ View.chunks ⟨v.active, rest, chunk :: v.fifo, v.inbox⟩ := by simp [View.chunks]
  apply Exists.intro rest
  apply And.intro shape
  exact { keeps with
    active := sound.active.frame prev apart.1.1
    tail := sound.tail
    stack := after.frame prev apart.1.2
    fifo := fifo.push apart.2.1
    inbox := sound.inbox.frame prev apart.2.2
    own p := { keeps.own_write inQueue prev p with }
    walking := by
      intro _ _ _ other
      cases other
    reversing := by simp
    safe := Consumer.noConfusion }

lemma Mpsc.Sound.reversed (at_ : s.consumer = .reversing job none (some fifoHead)) :
    Mpsc.Sound { s with consumer := .walking job fifoHead fifoHead } v := by
  have stack := sound.stack
  have fifo := sound.fifo
  rw [at_] at stack fifo
  obtain ⟨rest, shape, -⟩ := fifo.eq_cons
  exact { sound with
    stack := stack
    fifo := fifo
    own p := { sound.own p with }
    walking := by
      intro _ _ _ same
      cases same
      rw [shape]
      exact mem_cons_self
    reversing := by
      intro _ _ _ other
      cases other
    safe := Consumer.noConfusion }

lemma Mpsc.Sound.not_both_null : s.consumer ≠ .reversing job none none := by
  intro at_
  have stack := sound.stack
  have fifo := sound.fifo
  rw [at_] at stack fifo
  apply sound.reversing job none none at_
  rw [stack.eq_nil, fifo.eq_nil]
  rfl

lemma Mpsc.Sound.walk (at_ : s.consumer = .walking job fifoHead fifoTail)
    (link : s.next fifoTail = some further) : Mpsc.Sound { s with consumer := .walking job fifoHead further } v := by
  have stack := sound.stack
  have fifo := sound.fifo
  rw [at_] at stack fifo
  exact { sound with
    stack := stack
    fifo := fifo
    own p := { sound.own p with }
    walking := by
      intro _ _ _ same
      cases same
      exact fifo.next_mem (sound.walking job fifoHead fifoTail at_) link
    reversing := by
      intro _ _ _ other
      cases other
    safe := Consumer.noConfusion }

lemma Mpsc.Sound.append (at_ : s.consumer = .walking job fifoHead fifoTail)
    (stop : s.next fifoTail = none) : Mpsc.Sound { s.appendFifo fifoHead fifoTail with consumer := .drained job }
      ⟨v.active ++ v.fifo, [], [], v.inbox⟩ := by
  have stack := sound.stack
  have fifo := sound.fifo
  have keeps := sound.toKeeps
  rw [at_] at stack fifo
  have none_left := stack.eq_nil
  obtain ⟨front, shape⟩ := fifo.last_of_next_none (sound.walking job fifoHead fifoTail at_) stop
  have same : v.chunks = View.chunks ⟨v.active ++ v.fifo, [], [], v.inbox⟩ := by simp [View.chunks, none_left]
  have tail : (v.active ++ v.fifo).getLast? = some fifoTail := by rw [shape, ← append_assoc, getLast?_concat]
  rw [same] at keeps
  rcases eq_nil_or_concat v.active with empty | ⟨before, last, shown⟩
  · have noTail : s.tail = none := by rw [sound.tail, empty, getLast?_nil]
    rw [Mpsc.appendFifo, noTail]
    refine .of_plain ⟨?_, tail.symm, rfl, rfl, sound.inbox⟩ ?_ trivial
    · rw [empty]
      exact fifo
    · exact { keeps with own := fun p => { keeps.own p with } }
  · rw [concat_eq_append] at shown
    have oldTail : s.tail = some last := by rw [sound.tail, shown, getLast?_concat]
    have active := sound.active
    rw [shown] at active
    have apart : last ∉ before ++ (v.fifo ++ v.inbox.reverse) := by
      apply (List.nodup_cons.mp (List.nodup_middle.mp _)).1
      simpa [View.chunks, shown] using keeps.separate
    simp only [mem_append, mem_reverse, not_or] at apart
    have inQueue : last ∈ View.chunks ⟨v.active ++ v.fifo, [], [], v.inbox⟩ := by simp [View.chunks, shown]
    rw [Mpsc.appendFifo, oldTail]
    refine .of_plain ⟨?_, tail.symm, rfl, rfl, sound.inbox.frame _ apart.2.2⟩ ?_ trivial
    · rw [shown, append_assoc]
      exact active.redirect fifo apart.1 apart.2.1
    · exact { keeps with own := fun p => { keeps.own_write inQueue _ p with } }

lemma Mpsc.Sound.freeHead (at_ : s.head = some chunk) :
    ∃ rest, v.active = chunk :: rest ∧ (s.freeHead chunk).Sound { v with active := rest } := by
  have active := sound.active
  rw [at_] at active
  obtain ⟨rest, shape, after⟩ := active.eq_cons
  have chunks : v.chunks = chunk :: View.chunks { v with active := rest } := by simp [View.chunks, shape]
  have separate := sound.separate
  rw [chunks, nodup_cons] at separate
  have others {a : Addr} (mem : a ∈ View.chunks { v with active := rest }) : a ≠ chunk := by
    rintro rfl
    exact separate.1 mem
  have members {a : Addr} (mem : a ∈ View.chunks { v with active := rest }) : a ∈ v.chunks := by
    rw [chunks]
    exact mem_cons_of_mem chunk mem
  apply Exists.intro rest
  apply And.intro shape
  exact { sound with
    active := after
    tail := by
      have tail := sound.tail
      rw [shape] at tail
      cases rest with
      | nil =>
        have stop : s.next chunk = none := after
        exact if_pos stop
      | cons second rest =>
        rw [getLast?_cons_cons] at tail
        rw [← tail]
        exact if_neg (by simp [after.1])
    separate := separate.2
    allocated := by
      intro a mem
      simp only [Mpsc.freeHead, update_of_ne (others mem)]
      exact sound.allocated a (members mem)
    tagged a mem := sound.tagged a (members mem)
    own := by
      intro p
      constructor
      · intro a holds
        obtain ⟨allocated, outside, tag⟩ := (sound.own p).held a holds
        have apart : a ≠ chunk := by
          rintro rfl
          apply outside
          rw [chunks]
          exact mem_cons_self
        simp only [Mpsc.freeHead, update_of_ne apart]
        exact ⟨allocated, fun mem => outside (members mem), tag⟩
      · exact (sound.own p).linked
    order := by
      have order := sound.order
      obtain ⟨name, tag⟩ := Option.isSome_iff_exists.mp (sound.tagged chunk (by simp [chunks]))
      rw [chunks, filterMap_cons_some tag] at order
      simp only [Mpsc.freeHead, tag, Option.toList_some, append_assoc, singleton_append]
      exact order }

lemma Mpsc.Sound.consumePart {bytes : Nat} (inside : bytes < (s.chunk chunk).avail) :
    (s.consumePart chunk bytes inside).Sound v :=
  { sound with own := fun p => { sound.own p with } }

lemma Mpsc.Sound.counted (len : UInt64) : Mpsc.Sound { s with len } v :=
  { sound with own := fun p => { sound.own p with } }

end

lemma Mpsc.OwnChunk.loaded (own : s.OwnChunk chunks p pc) (same : pc.held = some push.chunk) (top : Option Addr) :
    s.OwnChunk chunks p (.loaded push top) where
  held a holds := own.held a (same.trans holds)
  linked _ _ other := Producer.noConfusion other

lemma produceStep_sound (sound : s.Sound v) (p : Fin n) (fresh : Addr) (spurious : Bool) :
    ∃ w, (produceStep s p fresh spurious).Sound w := by
  have own := sound.own p
  have leaves {pc : Producer} (free : pc.held = none) : (s.goto p pc).Sound v := sound.goto (ownChunk_of_free free)
  unfold produceStep
  cases at_ : s.producers p with
  | idle => exact ⟨v, sound⟩
  | scanning lines totalBytes =>
    cases lines with
    | nil =>
      dsimp only
      split
      · exact ⟨v, (leaves rfl).counted _⟩
      · exact ⟨v, leaves rfl⟩
    | cons line rest =>
      dsimp only
      cases lineChunk line with
      | none => exact ⟨v, leaves rfl⟩
      | some chunk =>
        dsimp only
        split
        next => exact ⟨v, sound⟩
        next unused =>
          rw [Bool.not_eq_true] at unused
          obtain ⟨extended, absent⟩ := sound.alloc unused p chunk
          apply Exists.intro v
          apply extended.goto
          constructor
          · intro a holds
            cases holds
            exact ⟨update_self _ _ _, absent, update_self _ _ _⟩
          · intro _ _ other
            cases other
  | pushing push =>
    rw [at_] at own
    exact ⟨v, sound.goto (own.loaded rfl _)⟩
  | loaded push oldTop => exact ⟨v, sound.link at_⟩
  | linked push oldTop =>
    rw [at_] at own
    dsimp only
    split
    next success =>
      rw [← success.1] at at_
      exact ⟨_, sound.publish at_⟩
    next => exact ⟨v, sound.goto (own.loaded rfl _)⟩

lemma Mpsc.Sound.writeOut (sound : s.Sound v) (at_ : s.consumer = old) (plain : old.Plain)
    (sock : SockResult) (nvec offered : Nat) : (s.writeOut sock nvec offered).Sound v := by
  unfold Mpsc.writeOut
  split
  · split
    · exact sound.moveTo at_ plain .idle trivial
    · exact sound.moveTo at_ plain (.wrote _) trivial
  · exact sound.moveTo at_ plain .idle trivial

lemma consumeStep_sound (sound : s.Sound v) : ∃ w, (consumeStep s).Sound w := by
  unfold consumeStep
  cases at_ : s.consumer with
  | idle => exact ⟨v, sound⟩
  | fault => exact absurd at_ sound.safe
  | draining job =>
    dsimp only
    split
    next => exact ⟨v, sound.moveTo at_ trivial (.drained job) trivial⟩
    next top found => exact ⟨_, sound.exchange at_ found⟩
  | reversing job stack prev =>
    cases stack with
    | some chunk =>
      obtain ⟨rest, -, reversed⟩ := sound.reverse at_
      exact ⟨_, reversed⟩
    | none =>
      cases prev with
      | some fifoHead => exact ⟨v, sound.reversed at_⟩
      | none => exact absurd at_ sound.not_both_null
  | walking job fifoHead fifoTail =>
    dsimp only
    split
    next further link => exact ⟨v, sound.walk at_ link⟩
    next link => exact ⟨_, sound.append at_ link⟩
  | drained job =>
    cases job with
    | drainToBuf limit => exact ⟨v, sound.moveTo at_ trivial (.copying limit 0) trivial⟩
    | flush vectored sock =>
      dsimp only
      split
      · exact ⟨v, sound.moveTo at_ trivial .idle trivial⟩
      · exact ⟨v, sound.moveTo at_ trivial (.gathering s.head vectored sock 0 0) trivial⟩
  | copying room done =>
    dsimp only
    split
    next => exact ⟨v, sound.moveTo at_ trivial (.subtracting done) trivial⟩
    next chunk first =>
      split
      · exact ⟨v, sound.moveTo at_ trivial (.subtracting done) trivial⟩
      · split
        next inside =>
          have part := sound.consumePart inside
          exact ⟨v, part.moveTo at_ trivial (.copying 0 (done + room)) trivial⟩
        next =>
          obtain ⟨rest, -, freed⟩ := sound.freeHead first
          exact ⟨_, freed.moveTo at_ trivial (.copying _ _) trivial⟩
  | subtracting done => exact ⟨v, (sound.moveTo at_ trivial .idle trivial).counted _⟩
  | gathering chunk vectored sock nvec offered =>
    cases chunk with
    | none => exact ⟨v, sound.writeOut at_ trivial _ _ _⟩
    | some chunk =>
      dsimp only
      generalize (if vectored = true then uioMaxiov else 1) = limit
      split
      · split
        · exact ⟨v, sound.moveTo at_ trivial (.gathering _ _ _ _ _) trivial⟩
        · exact ⟨v, sound.moveTo at_ trivial (.gathering _ _ _ _ _) trivial⟩
      · exact ⟨v, sound.writeOut at_ trivial _ _ _⟩
  | wrote total => exact ⟨v, (sound.moveTo at_ trivial (.advancing total) trivial).counted _⟩
  | advancing consumed =>
    dsimp only
    split
    next => exact ⟨v, sound.moveTo at_ trivial .idle trivial⟩
    next chunk first =>
      split
      · exact ⟨v, sound.moveTo at_ trivial .idle trivial⟩
      · split
        next inside => exact ⟨v, (sound.consumePart inside).moveTo at_ trivial .idle trivial⟩
        next =>
          obtain ⟨rest, -, freed⟩ := sound.freeHead first
          exact ⟨_, freed.moveTo at_ trivial (.advancing _) trivial⟩

lemma mpscStep_sound (sound : s.Sound v) (action : MpscAction n) : ∃ w, (mpscStep s action).Sound w := by
  cases action with
  | call p linebuf =>
    rw [mpscStep]
    split
    · exact ⟨v, sound.goto (ownChunk_of_free rfl)⟩
    · exact ⟨v, sound⟩
  | produce p fresh spurious => exact produceStep_sound sound p fresh spurious
  | request job =>
    rw [mpscStep]
    split
    next at_ => exact ⟨v, sound.moveTo at_ trivial (.draining job) trivial⟩
    next => exact ⟨v, sound⟩
  | consume => exact consumeStep_sound sound

lemma mpscRun_sound (actions : List (MpscAction n)) : ∃ v, (mpscRun n actions).Sound v := by
  apply List.foldlRecOn actions mpscStep (motive := fun s => ∃ v, s.Sound v) ⟨_, start_sound n⟩
  intro s known action _
  obtain ⟨v, sound⟩ := known
  exact mpscStep_sound sound action

lemma View.Reads.unique (reads : v.Reads s) (again : w.Reads s) : w = v := by
  obtain ⟨active, stack, fifo, inbox⟩ := v
  obtain ⟨otherActive, otherStack, otherFifo, otherInbox⟩ := w
  rw [show otherActive = active from again.active.unique reads.active,
    show otherStack = stack from again.stack.unique reads.stack,
    show otherFifo = fifo from again.fifo.unique reads.fifo,
    show otherInbox = inbox from again.inbox.unique reads.inbox]

lemma Numbered.nodup (numbered : Numbered pushed) : pushed.Nodup := by
  rw [nodup_iff_count_le_one]
  intro tag
  have own : (pushed.filter (·.producer = tag.producer)).Nodup := by
    rw [numbered tag.producer]
    apply List.nodup_range.map
    intro first second same
    cases same
    rfl
  rw [← count_filter (p := fun other => decide (other.producer = tag.producer)) (by simp)]
  exact List.nodup_iff_count_le_one.mp own tag

def Mpsc.tags (s : Mpsc n) (chunks : List Addr) : List (Tag n) := chunks.filterMap s.tag

lemma Mpsc.Sound.pushed_eq (sound : s.Sound v) :
    s.pushed = s.consumed ++ s.tags v.active ++ s.tags v.stack.reverse ++ s.tags v.fifo ++ s.tags v.inbox.reverse := by
  rw [sound.order, View.chunks]
  simp [Mpsc.tags, filterMap_append]

/-- In any interleaving the lists are well formed, no null pointer is followed, every push is in one place, and what was
consumed and is active of a producer are its first pushes in order. -/
theorem inbox_keeps_every_push_once (n : Nat) (actions : List (MpscAction n)) :
    ∃ v : View, v.Reads (mpscRun n actions) ∧ (∀ w : View, w.Reads (mpscRun n actions) → w = v) ∧
      (mpscRun n actions).consumer ≠ .fault ∧ (mpscRun n actions).pushed.Nodup ∧
      (∀ tag, (mpscRun n actions).pushed.count tag =
        ((mpscRun n actions).tags v.inbox).count tag + ((mpscRun n actions).tags (v.stack ++ v.fifo)).count tag +
          ((mpscRun n actions).tags v.active).count tag + (mpscRun n actions).consumed.count tag) ∧
      ∀ p, ((mpscRun n actions).consumed ++ (mpscRun n actions).tags v.active).filter (·.producer = p) <+:
          (mpscRun n actions).pushed.filter (·.producer = p) ∧
        (mpscRun n actions).pushed.filter (·.producer = p) =
          (List.range (pushesOf (mpscRun n actions).pushed p)).map (Tag.mk p) := by
  obtain ⟨v, sound⟩ := mpscRun_sound actions
  generalize mpscRun n actions = s at sound
  have counts (tag : Tag n) : s.pushed.count tag = (s.tags v.inbox).count tag +
      (s.tags (v.stack ++ v.fifo)).count tag + (s.tags v.active).count tag + s.consumed.count tag := by
    rw [sound.pushed_eq]
    simp only [Mpsc.tags, count_append, filterMap_append, filterMap_reverse, count_reverse]
    omega
  have first (p : Fin n) : (s.consumed ++ s.tags v.active).filter (·.producer = p) <+:
      s.pushed.filter (·.producer = p) := by
    apply List.IsPrefix.filter
    rw [sound.pushed_eq, append_assoc, append_assoc]
    exact prefix_append _ _
  exact ⟨v, sound.toReads, fun w again => sound.toReads.unique again, sound.safe, sound.numbered.nodup, counts,
    fun p => ⟨first p, sound.numbered p⟩⟩

end LibOp.Sendbuf

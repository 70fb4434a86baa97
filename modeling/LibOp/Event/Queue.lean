import LibOp.Foundation.BinaryHeap
import LibOp.Strings.Paths

namespace LibOp.Event

open Foundation.BinaryHeap Function

abbrev Name := List UInt8

def evNameLen : Nat := 33

def opStrndup (x : Name) (y : Nat) : Name := x.take (y - 1)

/-- Every copy here is of `EV_NAME_LEN` bytes, so it is never the one without a NUL. -/
lemma opStrndup_copies (x : Name) : Strings.opStrndup x evNameLen = some (opStrndup x evNameLen) :=
  Strings.opStrndup_eq x (by decide)

def timeT (x : Int) : Int := x.bmod (2 ^ 64)

/-- `struct ev_entry` but for `hidx`. No function reads `owner`, the whole name of the module being loaded. -/
structure Entry where
  func : Nat
  arg : Nat
  name : Name
  frequency : Int
  when : Int
  dead : Bool
  modName : Option Name
  owner : Option Name
deriving DecidableEq, Repr, Inhabited

/-- The entries, the array `heap` and the module being loaded. Addresses from `fresh` on are not allocated. -/
structure State where
  entries : Nat → Entry
  hidx : Nat → Nat
  heap : Nat → Nat
  heapLen : Nat
  fresh : Nat
  currentLoadingModule : Option Name
  lastEventRan : Name

def State.init : State :=
  { entries := fun _ => default, hidx := fun _ => 0, heap := fun _ => 0, heapLen := 0, fresh := 0,
    currentLoadingModule := none, lastEventRan := [78, 79, 78, 69] }

def heapSet (s : State) (i ev : Nat) : State :=
  { s with heap := update s.heap i ev, hidx := update s.hidx ev i }

def heapSwap (s : State) (i j : Nat) : State :=
  let tmp := s.heap i
  heapSet (heapSet s i (s.heap j)) j tmp

def heapArray : Exchange State Int where
  key s i := (s.entries (s.heap i)).when
  swap := heapSwap
  key_swap s i j k := by
    change (s.entries (update (update s.heap i (s.heap j)) j (s.heap i) k)).when = _
    by_cases second : k = j
    · rw [second, update_self, if_pos rfl]
      split
      · rename_i same
        rw [same]
      · rfl
    · rw [update_of_ne second, if_neg second]
      by_cases first : k = i
      · rw [first, update_self, if_pos rfl]
      · rw [update_of_ne first, if_neg first]

def heapSiftUp (s : State) (i : Nat) : State := heapArray.siftUp s i

def heapSiftDown (s : State) (i : Nat) : State := heapArray.siftDown s.heapLen s i

def heapPush (s : State) (ev : Nat) : State :=
  let s' := heapSet s s.heapLen ev
  heapSiftUp { s' with heapLen := s.heapLen + 1 } s.heapLen

def heapRemove (s : State) (i : Nat) : State :=
  if i = s.heapLen - 1 then { s with heapLen := s.heapLen - 1 }
  else
    let last := s.heap (s.heapLen - 1)
    let s := heapSiftUp (heapSet { s with heapLen := s.heapLen - 1 } i last) i
    heapSiftDown s (s.hidx last)

/-- Floyd's loop, which sifts down from `heap_len / 2 - 1` to 0. -/
def heapRebuild (s : State) : State := heapArray.heapify s.heapLen s

def heapResift (s : State) (ev : Nat) : State :=
  let s := heapSiftUp s (s.hidx ev)
  heapSiftDown s (s.hidx ev)

def llabs (x : Int) : Int := timeT |x|

/-- The number `draw` is what `arc4random` returns. -/
def opEventFrequency (draw : Nat) (frequency : Int) : Int :=
  if frequency < 0 then
    let twoThird := (timeT (2 * llabs frequency)).tdiv 3
    timeT (twoThird + (timeT ((draw % 1000 : Nat) * twoThird)).tdiv 1000)
  else frequency

def opEventAddCommon (s : State) (now : Int) (name : Name) (func arg : Nat) (when frequency : Int) : State × Nat :=
  let ev : Entry :=
    { func := func, name := opStrndup name evNameLen, arg := arg, when := timeT (now + when), frequency := frequency,
      dead := false, modName := s.currentLoadingModule.map (opStrndup · evNameLen), owner := s.currentLoadingModule }
  (heapPush { s with entries := update s.entries s.fresh ev, fresh := s.fresh + 1 } s.fresh, s.fresh)

def opEventAdd (s : State) (now : Int) (name : Name) (func arg : Nat) (when : Int) : State × Nat :=
  let when := if when ≤ 0 then 1 else when
  opEventAddCommon s now name func arg when when

def opEventAddonce (s : State) (now : Int) (name : Name) (func arg : Nat) (when : Int) : State × Nat :=
  let when := if when ≤ 0 then 1 else when
  opEventAddCommon s now name func arg when 0

def opEventAddish (s : State) (now : Int) (draw : Nat) (name : Name) (func arg : Nat) (deltaIsh : Int) : State × Nat :=
  let deltaIsh := llabs deltaIsh
  let deltaIsh := if deltaIsh ≥ 3 then -deltaIsh else deltaIsh
  opEventAddCommon s now name func arg (opEventFrequency draw deltaIsh) deltaIsh

def State.setEntry (s : State) (ev : Nat) (f : Entry → Entry) : State :=
  { s with entries := update s.entries ev (f (s.entries ev)) }

def opEventDelete (s : State) (ev : Nat) : State := s.setEntry ev fun e => { e with dead := true }

def Entry.isFor (e : Entry) (func arg : Nat) : Bool := e.func == func && e.arg == arg

def opEventFindDelete (s : State) (func arg : Nat) : State :=
  match (List.range s.heapLen).find? fun i => (s.entries (s.heap i)).isFor func arg with
  | some i => opEventDelete s (s.heap i)
  | none => s

def reschedule (now : Int) (draw : Nat) (e : Entry) : Entry :=
  { e with when := timeT (now + opEventFrequency draw e.frequency) }

def opEventUpdate (s : State) (now : Int) (draw ev : Nat) (freq : Int) : State :=
  heapResift (s.setEntry ev fun e => reschedule now draw { e with frequency := freq }) ev

/-- The loop of `op_event_purge_module` over the indices left. -/
def purgeLoop (modName : Name) : List Nat → State → Nat → State × Nat
  | [], s, newLen => (s, newLen)
  | i :: rest, s, newLen =>
    let ev := s.heap i
    if (s.entries ev).modName = some modName then purgeLoop modName rest s newLen
    else purgeLoop modName rest (heapSet s newLen ev) (newLen + 1)

def opEventPurgeModule (s : State) (modName : Option Name) : State :=
  match modName with
  | none => s
  | some modName =>
    let result := purgeLoop modName (List.range s.heapLen) s 0
    let s : State := { result.1 with heapLen := result.2 }
    if s.heapLen > 1 then heapRebuild s else s

def setBack (by' : Int) (e : Entry) : Entry := { e with when := if e.when > by' then timeT (e.when - by') else 0 }

def opSetBackEvents (s : State) (by' : Int) : State :=
  heapRebuild ((List.range s.heapLen).foldl (fun s i => s.setEntry (s.heap i) (setBack by')) s)

/-- A turn of `op_event_run`: nothing if the loop ends, else the state and the entry called. -/
def runTurn (now : Int) (draw : Nat) (s : State) : Option (State × Option Nat) :=
  if s.heapLen = 0 then none
  else
    let ev := s.heap 0
    let e := s.entries ev
    if e.dead then some (heapRemove s 0, none)
    else if e.when > now then none
    else
      let s := { s with lastEventRan := opStrndup e.name evNameLen }
      if e.frequency = 0 then some (heapRemove s (s.hidx ev), some ev)
      else some (heapResift (s.setEntry ev (reschedule now draw)) ev, some ev)

/-- `op_event_run` with its calls; `draws` are the numbers of `arc4random` in each turn. It is `none` after `turns`
turns. -/
def opEventRun (now : Int) : (turns : Nat) → (draws : Nat → Nat) → State → Option (State × List Nat)
  | 0, _, _ => none
  | turns + 1, draws, s =>
    match runTurn now (draws 0) s with
    | none => some (s, [])
    | some (s, called) =>
      (opEventRun now turns (fun n => draws (n + 1)) s).map fun result => (result.1, called.toList ++ result.2)

def State.Queued (s : State) (ev : Nat) : Prop := ∃ i, i < s.heapLen ∧ s.heap i = ev

instance (s : State) (ev : Nat) : Decidable (s.Queued ev) :=
  decidable_of_iff (∃ i ∈ List.range s.heapLen, s.heap i = ev) (by simp [State.Queued])

inductive Call where
  | load (modName : Option Name)
  | add (now : Int) (name : Name) (func arg : Nat) (when : Int)
  | addonce (now : Int) (name : Name) (func arg : Nat) (when : Int)
  | addish (now : Int) (draw : Nat) (name : Name) (func arg : Nat) (deltaIsh : Int)
  | delete (ev : Nat)
  | findDelete (func arg : Nat)
  | update (now : Int) (draw ev : Nat) (freq : Int)
  | purgeModule (modName : Option Name)
  | setBackEvents (by' : Int)
deriving DecidableEq, Repr

def State.call (s : State) : Call → State
  | .load modName => { s with currentLoadingModule := modName }
  | .add now name func arg when => (opEventAdd s now name func arg when).1
  | .addonce now name func arg when => (opEventAddonce s now name func arg when).1
  | .addish now draw name func arg deltaIsh => (opEventAddish s now draw name func arg deltaIsh).1
  | .delete ev => if s.Queued ev then opEventDelete s ev else s
  | .findDelete func arg => opEventFindDelete s func arg
  | .update now draw ev freq => if s.Queued ev then opEventUpdate s now draw ev freq else s
  | .purgeModule modName => opEventPurgeModule s modName
  | .setBackEvents by' => opSetBackEvents s by'

/-- The states between calls, of which `op_event_run` may not return. -/
inductive Reached : State → Prop where
  | init : Reached State.init
  | call {s : State} (reached : Reached s) (c : Call) : Reached (s.call c)
  | run {s s' : State} (reached : Reached s) {now : Int} {turns : Nat} {draws : Nat → Nat} {calls : List Nat}
      (returns : opEventRun now turns draws s = some (s', calls)) : Reached s'

end LibOp.Event

import LibOp.Foundation.Runs
import LibOp.Websocket.Queue

namespace LibOp.Websocket

open Foundation List

def CloseLast (frames : List OutFrame) : Prop := frames.Pairwise fun first _ => first.isClose = false

instance : DecidablePred CloseLast :=
  fun frames => inferInstanceAs (Decidable (frames.Pairwise fun first _ => first.isClose = false))

variable {frames : List OutFrame}

lemma CloseLast.at_most_one (last : CloseLast frames) : (frames.filter (·.isClose)).length ≤ 1 := by
  induction frames with
  | nil => exact Nat.zero_le _
  | cons first rest ih =>
    obtain ⟨front, others⟩ := List.pairwise_cons.mp last
    cases isClose : first.isClose with
    | false =>
      rw [filter_cons_of_neg (by simp [isClose])]
      exact ih others
    | true =>
      have none : rest = [] := List.eq_nil_iff_forall_not_mem.mpr fun frame mem => by
        have other := front frame mem
        rw [isClose] at other
        cases other
      rw [none]
      exact length_filter_le _ _

lemma closeLast_snoc (frames : List OutFrame) (frame : OutFrame) :
    CloseLast (frames ++ [frame]) ↔ CloseLast frames ∧ frames.any (·.isClose) = false := by
  rw [CloseLast, pairwise_append]
  simp [CloseLast, any_eq_false]

lemma CloseLast.of_append {first second : List OutFrame} (last : CloseLast (first ++ second)) : CloseLast first :=
  (List.pairwise_append.mp last).1

def FrameScan.isPing : FrameScan → Bool
  | .frame _ .ping _ _ => true
  | _ => false

def QuietPass (ws : WsState) : Prop := ws.sentClose = true → (wsFrame ws.inFragment ws.inbuf).isPing = false

instance : DecidablePred QuietPass :=
  fun ws => inferInstanceAs (Decidable (ws.sentClose = true → (wsFrame ws.inFragment ws.inbuf).isPing = false))

def ClosesKnown (ws : WsState) : Prop := ws.sentClose = (queuedFrames ws.log).any (·.isClose)

lemma isPing_iff {scan : FrameScan} :
    scan.isPing = true ↔ ∃ fin payload start, scan = .frame fin .ping payload start := by
  cases scan with
  | incomplete | reject code => simp [FrameScan.isPing]
  | frame fin op payload start => cases op <;> simp [FrameScan.isPing]

lemma not_ping {ws : WsState}
    (quiet : ∀ fin payload start, wsFrame ws.inFragment ws.inbuf ≠ .frame fin .ping payload start) :
    (wsFrame ws.inFragment ws.inbuf).isPing = false := by
  by_contra isPing
  obtain ⟨fin, payload, start, scan⟩ := isPing_iff.mp (Bool.of_not_eq_false isPing)
  exact quiet fin payload start scan

lemma ClosesKnown.advance {ws after : WsState} {events : List WsEvent} (known : ClosesKnown ws)
    (log : after.log = ws.log ++ events)
    (closes : after.sentClose = (ws.sentClose || (queuedFrames events).any (·.isClose))) : ClosesKnown after := by
  rw [ClosesKnown, closes, log, queuedFrames_append, any_append, known]

section

variable {stray : WsState → Bool} {ws : WsState}

lemma PassQueues.closeLast_iff (queues : PassQueues ws frames) (known : ClosesKnown ws)
    (last : CloseLast (queuedFrames ws.log)) : CloseLast (queuedFrames ws.log ++ frames) ↔ QuietPass ws := by
  cases queues with
  | nothing quiet =>
    rw [append_nil]
    exact ⟨fun _ _ => not_ping quiet, fun _ => last⟩
  | pong scan =>
    have isPing := isPing_iff.mpr ⟨_, _, _, scan⟩
    rw [closeLast_snoc, ← known, QuietPass, isPing]
    refine ⟨fun both sent => absurd (sent.symm.trans both.2) (by decide), fun quiet => ⟨last, ?_⟩⟩
    by_contra sent
    exact absurd (quiet (Bool.of_not_eq_false sent)) (by decide)
  | close code first quiet =>
    rw [closeLast_snoc, ← known]
    exact ⟨fun _ _ => not_ping quiet, fun _ => ⟨last, first⟩⟩

lemma wsParseLoop_grows (stray : WsState → Bool) (rounds : Nat) (ws : WsState) :
    ∃ events, (wsParseLoop stray rounds ws).1.log = ws.log ++ events := by
  obtain ⟨events, advance, _⟩ := wsParseLoop_advances stray rounds ws
  exact ⟨events, advance.log⟩

lemma wsParseLoop_closeLast_iff (rounds : Nat) (known : ClosesKnown ws) (last : CloseLast (queuedFrames ws.log)) :
    CloseLast (queuedFrames (wsParseLoop stray rounds ws).1.log) ↔ EachPass stray QuietPass rounds ws := by
  induction rounds generalizing ws with
  | zero => exact ⟨fun _ => trivial, fun _ => last⟩
  | succ rounds ih =>
    obtain ⟨events, advance, queues⟩ := wsParsePass_advances stray ws
    have one := queues.closeLast_iff known last
    have next := known.advance advance.log advance.closes
    have log := advance.log
    rw [← queuedFrames_append, ← log] at one
    rw [wsParseLoop, EachPass]
    cases pass : wsParsePass stray ws with
    | leave after | fail after =>
      rw [pass] at one
      exact one.trans (iff_of_eq (and_true _)).symm
    | again after =>
      rw [pass] at one next
      constructor
      · intro final
        -- A frame behind the CLOSE frame stays there.
        obtain ⟨more, grown⟩ := wsParseLoop_grows stray rounds after
        have here : CloseLast (queuedFrames after.log) := by
          rw [grown, queuedFrames_append] at final
          exact final.of_append
        exact ⟨one.mp here, (ih next here).mp final⟩
      · rintro ⟨quiet, others⟩
        exact (ih next (one.mpr quiet)).mpr others

end

def Quiet (stray : WsState → Bool) (F : Fde) : WsAction → Prop
  | .write buf _ => ∀ ws ∈ F.ws, ws.sentClose = true → ws.keyed = true → buf ≠ [] →
      buf.length ≤ wsMaxMessageSize → 0 < rawbufLength ws.frameOut
  | .parse bytes _ => ∀ ws ∈ F.ws,
      EachPass stray QuietPass (ws.inbuf ++ bytes).length { ws with inbuf := ws.inbuf ++ bytes }
  | .read count recv _ => ∀ ws ∈ F.ws, 0 < count → ws.keyed = true → ws.decoded.length ≤ ws.decodedPos →
      recv.bytes ≠ [] →
      EachPass stray QuietPass (ws.inbuf ++ recv.bytes).length { ws with inbuf := ws.inbuf ++ recv.bytes }
  | .shutdown _ => True

def Fde.ClosesKnown (F : Fde) : Prop := ∀ ws ∈ F.ws, F.past = [] ∧ Websocket.ClosesKnown ws

lemma events_alive {F : Fde} {ws : WsState} (alive : F.ws = some ws) (past : F.past = []) : F.events = ws.log := by
  rw [Fde.events, alive, past]
  rfl

section

variable {stray : WsState → Bool} {F F' : Fde} {ws after : WsState} {events : List WsEvent}

lemma Serves.closes_known (serves : Serves F F' ws after events) (past : F.past = [])
    (known : ClosesKnown ws) : F'.ClosesKnown := by
  intro other mem
  have same := Option.some.inj (mem.symm.trans serves.state)
  rw [same]
  exact ⟨serves.past.trans past, known.advance serves.log serves.closes⟩

lemma Serves.events_eq (serves : Serves F F' ws after events) (past : F.past = []) : F'.events = ws.log ++ events := by
  rw [events_alive serves.state (serves.past.trans past), serves.log]

lemma fdeParse_closeLast_iff (F : Fde) (bytes : List UInt8) (sock : SockResult) (known : ClosesKnown ws)
    (last : CloseLast (queuedFrames ws.log)) :
    CloseLast (queuedFrames (fdeParse stray F ws bytes sock).2.1.log) ↔
      EachPass stray QuietPass (ws.inbuf ++ bytes).length { ws with inbuf := ws.inbuf ++ bytes } := by
  have grown : ClosesKnown { ws with inbuf := ws.inbuf ++ bytes } := known
  exact wsParseLoop_closeLast_iff _ grown last

section

variable (alive : F.ws = some ws) (past : F.past = []) (known : ClosesKnown ws)
  (last : CloseLast (queuedFrames F.events))

include alive past known last

lemma write_closeLast (buf : List UInt8) (sock : SockResult) : (opWsWrite F buf sock).1.ClosesKnown ∧
      (CloseLast (queuedFrames (opWsWrite F buf sock).1.events) ↔ Quiet stray F (.write buf sock)) := by
  have same := events_alive alive past
  have only (other : WsState) (mem : other ∈ F.ws) : other = ws := Option.some.inj (mem.symm.trans alive)
  -- Calls that return before they look at `frame_out`.
  have idle (unchanged : (opWsWrite F buf sock).1 = F) (vacuous : ¬ (ws.keyed = true ∧ buf ≠ [] ∧
      buf.length ≤ wsMaxMessageSize)) : (opWsWrite F buf sock).1.ClosesKnown ∧
        (CloseLast (queuedFrames (opWsWrite F buf sock).1.events) ↔ Quiet stray F (.write buf sock)) := by
    rw [unchanged]
    refine ⟨fun other mem => ?_, fun _ other mem _ keyed some_ short => ?_, fun _ => last⟩
    · rw [only other mem]
      exact ⟨past, known⟩
    · rw [only other mem] at keyed
      exact absurd ⟨keyed, some_, short⟩ vacuous
  by_cases empty : buf = []
  · exact idle (by rw [opWsWrite, if_pos (by rw [empty]; rfl)]) fun all => all.2.1 empty
  by_cases short : buf.length ≤ wsMaxMessageSize
  · cases keyed : ws.keyed with
    | false =>
      refine idle ?_ fun all => by rw [keyed] at all; cases all.1
      rw [opWsWrite, if_neg fun none => empty (eq_nil_of_length_eq_zero none), if_neg (Nat.not_lt.mpr short), alive]
      dsimp only
      rw [keyed]
      rfl
    | true =>
      obtain ⟨⟨after, events, serves, queued⟩, _⟩ := opWsWrite_serves alive keyed empty short sock
      refine ⟨serves.closes_known past known, ?_⟩
      rw [serves.events_eq past, queuedFrames_append, queued]
      rw [same] at last
      split
      next busy =>
        rw [append_nil]
        refine ⟨fun _ other mem _ _ _ _ => ?_, fun _ => last⟩
        rw [only other mem]
        exact busy
      next idle =>
        rw [closeLast_snoc, ← known]
        constructor
        · intro both other mem sent
          rw [only other mem, both.2] at sent
          cases sent
        · intro quiet
          refine ⟨last, ?_⟩
          by_contra sent
          exact idle (quiet ws alive (Bool.of_not_eq_false sent) keyed empty short)
  · refine idle ?_ fun all => short all.2.2
    rw [opWsWrite, if_neg fun none => empty (eq_nil_of_length_eq_zero none), if_pos (Nat.lt_of_not_le short)]

lemma read_closeLast (count : Nat) (recv : RecvResult) (sock : SockResult) :
    (opWsRead stray F count recv sock).1.ClosesKnown ∧
      (CloseLast (queuedFrames (opWsRead stray F count recv sock).1.events) ↔
        Quiet stray F (.read count recv sock)) := by
  have same := events_alive alive past
  have only {other : WsState} (mem : F.ws = some other) : other = ws := Option.some.inj (mem.symm.trans alive)
  have stays : F.ClosesKnown := fun other mem => by
    rw [only mem]
    exact ⟨past, known⟩
  have lastLog : CloseLast (queuedFrames ws.log) := by
    rw [← same]
    exact last
  have parse (bytes : List UInt8) : CloseLast (queuedFrames (fdeParse stray F ws bytes sock).1.events) ↔
      EachPass stray QuietPass (ws.inbuf ++ bytes).length { ws with inbuf := ws.inbuf ++ bytes } := by
    rw [events_alive (fdeParse_state stray F ws bytes sock) past]
    exact fdeParse_closeLast_iff F bytes sock known lastLog
  have quiet_iff {bytes : List UInt8} (asked : 0 < count ∧ ws.keyed = true)
      (drained : ws.decoded.length ≤ ws.decodedPos) (answer : recv = .got bytes) (some_ : bytes ≠ []) :
      CloseLast (queuedFrames (fdeParse stray F ws bytes sock).1.events) ↔ Quiet stray F (.read count recv sock) := by
    subst answer
    refine (parse bytes).trans ⟨fun each other mem _ _ _ _ => ?_, fun quiet => ?_⟩
    · rw [only mem]
      exact each
    · exact quiet ws alive asked.1 asked.2 drained some_
  have outcome := opWsRead_outcome stray F count recv sock
  generalize opWsRead stray F count recv sock = result at outcome ⊢
  cases outcome with
  | zero none => exact ⟨stays, fun _ _ _ pos => absurd none (by omega), fun _ => last⟩
  | unkeyed closed =>
    refine ⟨stays, fun _ other mem _ keyed => ?_, fun _ => last⟩
    rw [closed other mem] at keyed
    cases keyed
  | buffered mem asked left =>
    cases only mem
    have serves := (Serves.refl alive).deliver count
    refine ⟨serves.closes_known past known, fun _ other mem _ _ drained => ?_, fun _ => ?_⟩
    · rw [only mem] at drained
      omega
    · rw [serves.events_eq past, queuedFrames_append]
      exact (append_nil _).symm ▸ lastLog
  | blocked mem drained answer | failed mem answer | ended mem drained answer =>
    exact ⟨stays, fun _ _ _ _ _ _ some_ => absurd (by rw [answer]; rfl) some_, fun _ => last⟩
  | torn mem asked drained answer some_ | nothing mem asked drained answer some_ =>
    cases only mem
    obtain ⟨events, serves, _⟩ := fdeParse_serves stray F ws _ sock
    exact ⟨serves.closes_known past known, quiet_iff asked drained answer some_⟩
  | fresh mem asked drained answer some_ =>
    cases only mem
    obtain ⟨events, serves, _⟩ := fdeParse_serves stray F ws _ sock
    have delivered := serves.deliver count
    refine ⟨delivered.closes_known past known, ?_⟩
    rw [← quiet_iff asked drained answer some_, delivered.events_eq past, serves.events_eq past, ← append_assoc,
      queuedFrames_append (ws.log ++ events)]
    exact iff_of_eq (congrArg CloseLast (append_nil _))

lemma shutdown_closeLast (sock : SockResult) :
    (opWsShutdown F sock).ClosesKnown ∧ CloseLast (queuedFrames (opWsShutdown F sock).events) := by
  rw [events_alive alive past] at last
  have freed : (opWsShutdown F sock).ws = none := by
    rw [opWsShutdown, alive]
    dsimp only
    split <;> rfl
  have none (other : WsState) (mem : other ∈ (opWsShutdown F sock).ws) : False := by
    rw [freed] at mem
    cases mem
  refine ⟨fun other mem => (none other mem).elim, ?_⟩
  rw [Fde.events, freed, opWsShutdown, alive]
  dsimp only
  cases sends : ws.keyed && !ws.sentClose with
  | false =>
    rw [past]
    exact last
  | true =>
    have first : ws.sentClose = false := by
      rw [Bool.and_eq_true, Bool.not_eq_true'] at sends
      exact sends.2
    have log := (wsWriteCloseFrame_advances ws wsCloseNormal).log
    rw [first] at log
    show CloseLast (queuedFrames (F.past ++ (wsWriteCloseFrame ws wsCloseNormal).log))
    rw [past, nil_append, log, queuedFrames_append]
    exact (closeLast_snoc _ _).mpr ⟨last, known.symm.trans first⟩

end

lemma fdeStep_closeLast (stray : WsState → Bool) (known : F.ClosesKnown)
    (last : CloseLast (queuedFrames F.events)) (action : WsAction) :
    (fdeStep stray F action).ClosesKnown ∧
      (CloseLast (queuedFrames (fdeStep stray F action).events) ↔ Quiet stray F action) := by
  cases alive : F.ws with
  | none =>
    have gone (ws : WsState) (mem : ws ∈ F.ws) : False := by
      rw [alive] at mem
      cases mem
    rw [fdeStep_freed stray alive action]
    refine ⟨known, fun _ => ?_, fun _ => last⟩
    cases action with
    | shutdown sock => exact trivial
    | write | parse | read => exact fun ws mem => (gone ws mem).elim
  | some ws =>
    obtain ⟨past, closes⟩ := known ws alive
    cases action with
    | write buf sock => exact write_closeLast alive past closes last buf sock
    | read count recv sock => exact read_closeLast alive past closes last count recv sock
    | shutdown sock =>
      obtain ⟨next, after⟩ := shutdown_closeLast alive past closes last sock
      exact ⟨next, fun _ => trivial, fun _ => after⟩
    | parse bytes sock =>
      obtain ⟨events, serves, _⟩ := fdeParse_serves stray F ws bytes sock
      rw [events_alive alive past] at last
      simp only [fdeStep, alive]
      refine ⟨serves.closes_known past closes, ?_⟩
      rw [events_alive (fdeParse_state stray F ws bytes sock) past]
      refine (fdeParse_closeLast_iff F bytes sock closes last).trans ⟨fun each other mem => ?_, fun quiet => ?_⟩
      · rw [Option.some.inj (mem.symm.trans alive)]
        exact each
      · exact quiet ws alive

end

/-- There is at most one CLOSE frame and nothing behind it exactly when no step queues a TEXT frame or a PONG after
`sent_close` is set. -/
theorem nothing_after_close_iff (stray : WsState → Bool) (ssl : Bool) (early : List UInt8) (actions : List WsAction) :
    (∀ before, before <+: actions →
      ((queuedFrames (before.foldl (fdeStep stray) (fdeKeyed ssl early)).events).filter (·.isClose)).length ≤ 1 ∧
        CloseLast (queuedFrames (before.foldl (fdeStep stray) (fdeKeyed ssl early)).events)) ↔
      Permitted (Quiet stray) (fdeStep stray) (fdeKeyed ssl early) actions := by
  have start : (fdeKeyed ssl early).ClosesKnown := by
    intro ws mem
    cases mem
    exact ⟨rfl, rfl⟩
  have keep (F : Fde) (action : WsAction) (known : F.ClosesKnown) (_ : True)
      (last : CloseLast (queuedFrames F.events)) : (fdeStep stray F action).ClosesKnown :=
    (fdeStep_closeLast stray known last action).1
  have exact (F : Fde) (action : WsAction) (known : F.ClosesKnown) (_ : True)
      (last : CloseLast (queuedFrames F.events)) :
      CloseLast (queuedFrames (fdeStep stray F action).events) ↔ Quiet stray F action :=
    (fdeStep_closeLast stray known last action).2
  have rule := (Permitted.of_forall (fun _ _ => trivial) (fdeKeyed ssl early) actions).throughout_iff
    keep exact start List.Pairwise.nil
  constructor
  · intro both
    exact rule.mp fun before initialPart => (both before initialPart).2
  · intro quiet before initialPart
    have last := rule.mpr quiet before initialPart
    exact ⟨last.at_most_one, last⟩

/-- The CLOSE frame is answered, and a buffer written after that is framed all the same. -/
theorem text_follows_close :
    queuedFrames ([.parse [0x88, 0x80, 0, 0, 0, 0] (.accepted 4), .write [104, 105] (.accepted 4)].foldl
      (fdeStep fun _ => false) (fdeKeyed false [])).events = [closeFrame wsCloseNormal, ⟨textByte, [104, 105]⟩] := by
  decide

end LibOp.Websocket

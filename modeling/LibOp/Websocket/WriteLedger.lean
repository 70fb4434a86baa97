import LibOp.Foundation.Runs
import LibOp.Websocket.Queue

namespace LibOp.Websocket

open Foundation List Option

/-- A connection with the buffers of which `op_ws_write` has returned the length, and the one to be written again. -/
structure Ledger where
  fde : Fde
  accepted : List (List UInt8)
  retry : Option (List UInt8)
deriving DecidableEq

def ledgerStart (ssl : Bool) (early : List UInt8) : Ledger := ⟨fdeKeyed ssl early, [], none⟩

def ledgerStep (stray : WsState → Bool) (s : Ledger) : WsAction → Ledger
  | .write buf sock =>
    let (F, result) := opWsWrite s.fde buf sock
    match result with
    | .needWrite => ⟨F, s.accepted, some buf⟩
    | .ioError => ⟨F, s.accepted, none⟩
    | .returned n => ⟨F, if n = buf.length then s.accepted ++ [buf] else s.accepted, none⟩
  | action => { s with fde := fdeStep stray s.fde action }

/-- A buffer to be written again is the next one, and the socket may take any part but does not fail. -/
def Ledger.Legal (s : Ledger) : WsAction → Prop
  | .write buf sock => sock ≠ .failed ∧ (s.retry = none ∨ s.retry = some buf)
  | .shutdown _ => False
  | _ => True

instance (s : Ledger) (action : WsAction) : Decidable (s.Legal action) :=
  match action with
  | .write buf sock => inferInstanceAs (Decidable (sock ≠ .failed ∧ (s.retry = none ∨ s.retry = some buf)))
  | .shutdown _ => inferInstanceAs (Decidable False)
  | .parse _ _ | .read _ _ _ => inferInstanceAs (Decidable True)

def Fde.outgoing (F : Fde) : List UInt8 :=
  match F.ws with
  | some ws => F.wire ++ ws.frameOut.pending
  | none => F.wire

def Fde.waiting (F : Fde) : Nat :=
  match F.ws with
  | some ws => rawbufLength ws.frameOut
  | none => 0

def textPayloads (frames : List OutFrame) : List (List UInt8) := (frames.filter (·.isText)).map (·.payload)

def Ledger.Exact (s : Ledger) : Prop :=
  textPayloads (framesOf s.fde.outgoing) = s.accepted ++ s.retry.toList

instance (s : Ledger) : Decidable s.Exact :=
  inferInstanceAs (Decidable (textPayloads (framesOf s.fde.outgoing) = s.accepted ++ s.retry.toList))

/-- A new buffer is not empty and finds `frame_out` empty, one written again does not. -/
def Ledger.InStep (s : Ledger) : WsAction → Prop
  | .write buf _ => buf.length ≤ wsMaxMessageSize →
      if s.retry = none then buf ≠ [] ∧ s.fde.waiting = 0 else 0 < s.fde.waiting
  | _ => True

structure Ledger.Sound (s : Ledger) (ws : WsState) : Prop where
  known : s.fde.ws = some ws
  keyed : ws.keyed = true
  streams : Streams s.fde.wire ws
  framed : ∀ buf, s.retry = some buf → buf ≠ [] ∧ buf.length ≤ wsMaxMessageSize

lemma textPayloads_append (first second : List OutFrame) :
    textPayloads (first ++ second) = textPayloads first ++ textPayloads second := by
  rw [textPayloads, filter_append, map_append]
  rfl

lemma textPayloads_answers {frames : List OutFrame}
    (answers : ∀ frame ∈ frames, frame.isText = false ∧ frame.payload.length ≤ wsMaxMessageSize) :
    textPayloads frames = [] := by
  have none : frames.filter (·.isText) = [] :=
    List.filter_eq_nil_iff.mpr fun frame mem => by simp [(answers frame mem).1]
  rw [textPayloads, none, map_nil]

lemma Ledger.Sound.texts {s : Ledger} {ws : WsState} (sound : s.Sound ws) :
    textPayloads (framesOf s.fde.outgoing) = textPayloads (queuedFrames ws.log) := by
  rw [Fde.outgoing, sound.known]
  exact congrArg textPayloads sound.streams.frames

lemma ledgerStart_sound (ssl : Bool) (early : List UInt8) :
    (ledgerStart ssl early).Sound { wsAlloc with keyed := true, inbuf := early } :=
  ⟨rfl, rfl, ⟨newRawbuffer_valid, rfl, fun _ mem => absurd mem not_mem_nil⟩,
    fun _ again => (some_ne_none _ again.symm).elim⟩

variable {events : List WsEvent}

section

variable (stray : WsState → Bool) {s : Ledger} {ws : WsState}

variable (sound : s.Sound ws)

include sound

lemma incoming_step {after : WsState} (serves : Serves s.fde F ws after events)
    (answers : ∀ frame ∈ queuedFrames events, frame.isText = false ∧ frame.payload.length ≤ wsMaxMessageSize) :
    ({ s with fde := F } : Ledger).Sound after ∧
      textPayloads (queuedFrames after.log) = textPayloads (queuedFrames ws.log) := by
  refine ⟨⟨serves.state, serves.keyed.trans sound.keyed,
    serves.streams sound.streams fun frame mem => (answers frame mem).2, sound.framed⟩, ?_⟩
  rw [serves.log, queuedFrames_append, textPayloads_append, textPayloads_answers answers, append_nil]

variable {sock : SockResult} {buf : List UInt8}

lemma write_step (works : sock ≠ .failed) (some_ : buf ≠ []) (short : buf.length ≤ wsMaxMessageSize) :
    ∃ after, (ledgerStep stray s (.write buf sock)).Sound after ∧ textPayloads (queuedFrames after.log) =
        textPayloads (queuedFrames ws.log) ++ (if rawbufLength ws.frameOut > 0 then [] else [buf]) ∧
      (ledgerStep stray s (.write buf sock)).accepted ++ (ledgerStep stray s (.write buf sock)).retry.toList =
        s.accepted ++ [buf] := by
  obtain ⟨⟨after, events, serves, queued⟩, results⟩ :=
    opWsWrite_serves sound.known sound.keyed some_ short sock
  have streams : Streams (opWsWrite s.fde buf sock).1.wire after := by
    apply serves.streams sound.streams
    intro frame mem
    rw [queued] at mem
    split at mem
    · exact absurd mem not_mem_nil
    · rw [List.mem_singleton.mp mem]
      exact short
  have texts : textPayloads (queuedFrames after.log) =
      textPayloads (queuedFrames ws.log) ++ (if rawbufLength ws.frameOut > 0 then [] else [buf]) := by
    rw [serves.log, queuedFrames_append, textPayloads_append, queued]
    split <;> rfl
  have keyed := serves.keyed.trans sound.keyed
  rcases results with ⟨_, failed⟩ | again | done
  · exact absurd failed works
  · simp only [ledgerStep, again]
    refine ⟨after, ⟨serves.state, keyed, streams, fun other same => ?_⟩, texts, rfl⟩
    cases same
    exact ⟨some_, short⟩
  · simp only [ledgerStep, done, if_true]
    refine ⟨after, ⟨serves.state, keyed, streams, fun _ again => ?_⟩, texts, append_nil _⟩
    cases again

lemma Ledger.Sound.exact_iff : s.Exact ↔ textPayloads (queuedFrames ws.log) = s.accepted ++ s.retry.toList := by
  rw [Ledger.Exact, sound.texts]

lemma incoming_exact {after : WsState} (serves : Serves s.fde F ws after events)
    (answers : ∀ frame ∈ queuedFrames events, frame.isText = false ∧ frame.payload.length ≤ wsMaxMessageSize) :
    (∃ after, ({ s with fde := F } : Ledger).Sound after) ∧ (s.Exact → ({ s with fde := F } : Ledger).Exact) := by
  obtain ⟨next, same⟩ := incoming_step sound serves answers
  refine ⟨⟨after, next⟩, fun exact => ?_⟩
  rw [next.exact_iff, same]
  exact sound.exact_iff.mp exact

lemma write_exact (works : sock ≠ .failed)
    (turn : s.retry = none ∨ s.retry = some buf) (some_ : buf ≠ []) (short : buf.length ≤ wsMaxMessageSize) :
    (∃ after, (ledgerStep stray s (.write buf sock)).Sound after) ∧
      (s.Exact → ((ledgerStep stray s (.write buf sock)).Exact ↔ s.InStep (.write buf sock))) := by
  obtain ⟨after, next, texts, book⟩ := write_step stray sound works some_ short
  refine ⟨⟨after, next⟩, fun exact => ?_⟩
  have waiting : s.fde.waiting = rawbufLength ws.frameOut := by rw [Fde.waiting, sound.known]
  rw [sound.exact_iff] at exact
  rw [next.exact_iff, texts, book, exact, Ledger.InStep, waiting]
  rcases turn with new | again
  · -- A frame that waits is not this buffer's, and the buffer is lost.
    rw [new, if_pos rfl, toList_none, append_nil]
    by_cases busy : rawbufLength ws.frameOut > 0
    · rw [if_pos busy, append_nil]
      refine ⟨fun same => absurd same (by simp), fun inStep => absurd (inStep short).2 (by omega)⟩
    · rw [if_neg busy]
      exact ⟨fun _ _ => ⟨some_, by omega⟩, fun _ => rfl⟩
  · -- Once the frame has left, the buffer is framed a second time.
    rw [again, if_neg (some_ne_none buf), toList_some]
    by_cases busy : rawbufLength ws.frameOut > 0
    · rw [if_pos busy, append_nil]
      exact ⟨fun _ _ => busy, fun _ => rfl⟩
    · rw [if_neg busy]
      exact ⟨fun same => absurd same (by simp), fun inStep => absurd (inStep short) busy⟩

lemma ledgerStep_exact (legal : s.Legal action) : (∃ after, (ledgerStep stray s action).Sound after) ∧
      (s.Exact → ((ledgerStep stray s action).Exact ↔ s.InStep action)) := by
  cases action with
  | shutdown sock => exact legal.elim
  | parse bytes sock =>
    obtain ⟨events, serves, answers⟩ := fdeParse_serves stray s.fde ws bytes sock
    simp only [ledgerStep, fdeStep, sound.known]
    obtain ⟨next, exact⟩ := incoming_exact sound serves answers
    exact ⟨next, fun before => ⟨fun _ => trivial, fun _ => exact before⟩⟩
  | read count recv sock =>
    obtain ⟨after, events, serves, answers⟩ := opWsRead_serves stray sound.known count recv sock
    obtain ⟨next, exact⟩ := incoming_exact sound serves answers
    exact ⟨next, fun before => ⟨fun _ => trivial, fun _ => exact before⟩⟩
  | write buf sock =>
    by_cases empty : buf = []
    · have unframed : s.retry = none := by
        rcases legal.2 with none | again
        · exact none
        · exact absurd empty (sound.framed buf again).1
      have next : (ledgerStep stray s (.write buf sock)).Sound ws := by
        subst empty
        exact ⟨sound.known, sound.keyed, sound.streams, fun _ again => (some_ne_none _ again.symm).elim⟩
      refine ⟨⟨ws, next⟩, fun exact => ?_⟩
      rw [sound.exact_iff, unframed, toList_none, append_nil] at exact
      rw [next.exact_iff, exact]
      subst empty
      refine ⟨fun same => absurd same ?_, fun inStep => ?_⟩
      · show ¬ s.accepted = s.accepted ++ [[]] ++ []
        simp
      · have both := inStep (Nat.zero_le _)
        rw [if_pos unframed] at both
        exact absurd rfl both.1
    · by_cases short : buf.length ≤ wsMaxMessageSize
      · exact write_exact stray sound legal.1 legal.2 empty short
      · have unframed : s.retry = none := by
          rcases legal.2 with none | again
          · exact none
          · exact absurd (sound.framed buf again).2 short
        have refused : opWsWrite s.fde buf sock = (s.fde, .ioError) := by
          rw [opWsWrite, if_neg fun none => empty (eq_nil_of_length_eq_zero none), if_pos (Nat.lt_of_not_le short)]
        have same : ledgerStep stray s (.write buf sock) = s := by
          simp only [ledgerStep, refused]
          rw [← unframed]
        rw [same]
        exact ⟨⟨ws, sound⟩, fun exact => ⟨fun _ fits => absurd fits short, fun _ => exact⟩⟩

end

/-- The TEXT frames are all along the buffers that `op_ws_write` accepted or wants again, exactly when every write is in
step with `frame_out`. -/
theorem text_frames_match_writes_iff (stray : WsState → Bool) (ssl : Bool) (early : List UInt8)
    (actions : List WsAction) (legal : Permitted Ledger.Legal (ledgerStep stray) (ledgerStart ssl early) actions) :
    (∀ before, before <+: actions → (before.foldl (ledgerStep stray) (ledgerStart ssl early)).Exact) ↔
      Permitted Ledger.InStep (ledgerStep stray) (ledgerStart ssl early) actions := by
  have keep (s : Ledger) (action : WsAction) (known : ∃ ws, s.Sound ws) (allowed : s.Legal action)
      (_ : s.Exact) : ∃ ws, (ledgerStep stray s action).Sound ws := by
    obtain ⟨ws, sound⟩ := known
    exact (ledgerStep_exact stray sound allowed).1
  have exact (s : Ledger) (action : WsAction) (known : ∃ ws, s.Sound ws) (allowed : s.Legal action)
      (before : s.Exact) : (ledgerStep stray s action).Exact ↔ s.InStep action := by
    obtain ⟨ws, sound⟩ := known
    exact (ledgerStep_exact stray sound allowed).2 before
  exact legal.throughout_iff keep exact ⟨_, ledgerStart_sound ssl early⟩ rfl

def pingBytes : List UInt8 := [0x89, 0x80, 0, 0, 0, 0]

theorem text_frames_match_writes_iff_retried :
    (∀ before, before <+: [.write [104, 105] (.accepted 3), .parse pingBytes .wouldBlock,
        .write [104, 105] (.accepted 9)] →
        (before.foldl (ledgerStep fun _ => false) (ledgerStart false [])).Exact) ↔
      Permitted Ledger.InStep (ledgerStep fun _ => false) (ledgerStart false [])
        [.write [104, 105] (.accepted 3), .parse pingBytes .wouldBlock, .write [104, 105] (.accepted 9)] :=
  text_frames_match_writes_iff _ false [] _ (by decide)

/-- A PONG waits in `frame_out`: `op_ws_write` sends it, returns the length of the buffer and has queued no frame. -/
theorem pong_swallows_write : Permitted Ledger.Legal (ledgerStep fun _ => false) (ledgerStart false [])
        [.parse pingBytes .wouldBlock, .write [104, 105] (.accepted 9)] ∧
      ([.parse pingBytes .wouldBlock, .write [104, 105] (.accepted 9)].foldl
        (ledgerStep fun _ => false) (ledgerStart false [])).accepted = [[104, 105]] ∧
      textPayloads (framesOf ([.parse pingBytes .wouldBlock, .write [104, 105] (.accepted 9)].foldl
        (ledgerStep fun _ => false) (ledgerStart false [])).fde.outgoing) = [] := by
  decide

end LibOp.Websocket

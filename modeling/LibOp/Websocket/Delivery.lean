import LibOp.Foundation.Runs
import LibOp.Websocket.Decoding
import LibOp.Websocket.Queue

namespace LibOp.Websocket

open Foundation List

/-- What the socket of a reader will still answer, what it has received, and whether `op_ws_read` has returned 0. -/
structure Reader where
  fde : Fde
  recvs : List RecvResult
  received : List UInt8
  ended : Bool

def readerStart (ssl : Bool) (early : List UInt8) (recvs : List RecvResult) : Reader :=
  ⟨fdeKeyed ssl early, recvs, [], false⟩

def Fde.hasDecoded (F : Fde) : Bool :=
  match F.ws with
  | some ws => decide (ws.decoded.length > ws.decodedPos)
  | none => false

/-- One call of `op_ws_read`, with its count and the answer to a flush. The socket is asked when no decoded bytes are
left. -/
def readerStep (stray : WsState → Bool) (s : Reader) (call : Nat × SockResult) : Reader :=
  if s.ended then s
  else
    let recvs := if s.fde.hasDecoded then s.recvs else s.recvs.tail
    match opWsRead stray s.fde call.1 (s.recvs.headD (.got [])) call.2 with
    | (F, .returned bytes) => ⟨F, recvs, s.received ++ bytes, bytes.isEmpty⟩
    | (F, .again) => ⟨F, recvs, s.received, false⟩
    | (F, .error) => ⟨F, recvs, s.received, true⟩

def CutsInto (early : List UInt8) (recvs : List RecvResult) (stream : List UInt8) : Prop :=
  early ++ recvs.flatMap (·.bytes) = stream ∧ ∀ recv ∈ recvs, recv ≠ .failed ∧ recv ≠ .got []

instance (early : List UInt8) (recvs : List RecvResult) (stream : List UInt8) :
    Decidable (CutsInto early recvs stream) :=
  inferInstanceAs (Decidable (_ ∧ _))

/-- When the socket is asked, every pass is safe, and the end of the stream leaves no text in `inbuf`. -/
def SafeAnswer (stray : WsState → Bool) (ws : WsState) : RecvResult → Prop
  | .got bytes =>
    if bytes = [] then ws.ahead [] = []
    else EachPass stray SafePass (ws.inbuf ++ bytes).length { ws with inbuf := ws.inbuf ++ bytes }
  | _ => True

instance decidableSafeAnswer (stray : WsState → Bool) (ws : WsState) : ∀ recv, Decidable (SafeAnswer stray ws recv)
  | .got bytes => inferInstanceAs (Decidable (if bytes = [] then _ else _))
  | .wouldBlock | .failed => inferInstanceAs (Decidable True)

def SafeCall (stray : WsState → Bool) (s : Reader) (call : Nat × SockResult) : Prop :=
  0 < call.1 ∧ (s.ended = false → s.fde.hasDecoded = false → ∀ ws ∈ s.fde.ws,
    SafeAnswer stray ws (s.recvs.headD (.got [])))

instance (stray : WsState → Bool) (s : Reader) (call : Nat × SockResult) : Decidable (SafeCall stray s call) :=
  inferInstanceAs (Decidable (_ ∧ _))

structure Reader.Pending (s : Reader) (ws : WsState) (rest : List UInt8) : Prop where
  known : s.fde.ws = some ws
  keyed : ws.keyed = true
  answers : ∀ recv ∈ s.recvs, recv ≠ .failed ∧ recv ≠ .got []
  rest : ws.undelivered ++ ws.ahead (s.recvs.flatMap (·.bytes)) = rest

/-- The reader will receive `total`, with at most `calls` calls to make. -/
def Reader.Toward (s : Reader) (total : List UInt8) (calls : Nat) : Prop :=
  if s.ended then s.received = total
  else ∃ ws rest, s.Pending ws rest ∧ s.received ++ rest = total ∧ s.recvs.length + rest.length + 1 ≤ calls

variable {call : Nat × SockResult}

section

variable {stray : WsState → Bool} {s : Reader} {ws : WsState}

lemma drained_undelivered (drained : ws.decoded.length ≤ ws.decodedPos) : ws.undelivered = [] :=
  drop_eq_nil_of_le drained

lemma wsDeliver_ahead (ws : WsState) (count : Nat) (future : List UInt8) :
    (wsDeliver ws count).1.ahead future = ws.ahead future := by
  have same : ws.openMessage = (wsDeliver ws count).1.openMessage := opened_unchanged rfl rfl (messageOf_snoc _ _)
  rw [WsState.ahead, ← same]
  rfl

lemma wsDeliver_split (ws : WsState) (count : Nat) :
    (wsDeliver ws count).2 ++ (wsDeliver ws count).1.undelivered = ws.undelivered := by
  have rest : (wsDeliver ws count).1.undelivered =
      ws.undelivered.drop (min (ws.decoded.length - ws.decodedPos) count) := by
    simp [wsDeliver, WsState.record, WsState.undelivered]
  rw [rest]
  exact take_append_drop _ _

lemma wsDeliver_some {count : Nat} (pos : 0 < count) (left : ws.decodedPos < ws.decoded.length) :
    (wsDeliver ws count).2 ≠ [] := by
  apply ne_nil_of_length_pos
  simp only [wsDeliver, length_take, length_drop]
  omega

lemma fdeParse_keyed (F : Fde) (ws : WsState) (bytes : List UInt8) (sock : SockResult) :
    (fdeParse stray F ws bytes sock).2.1.keyed = ws.keyed := by
  obtain ⟨events, serves, _⟩ := fdeParse_serves stray F ws bytes sock
  exact serves.keyed

variable {bytes total : List UInt8}

lemma fdeParse_decodes (F : Fde) (sock : SockResult)
    (safe : EachPass stray SafePass (ws.inbuf ++ bytes).length { ws with inbuf := ws.inbuf ++ bytes }) :
    LoopDecodes { ws with inbuf := ws.inbuf ++ bytes }
      ((fdeParse stray F ws bytes sock).2.1, (fdeParse stray F ws bytes sock).2.2) := by
  have loop := wsParseLoop_decodes safe
  simp only [fdeParse, wsParseFrames]
  cases result : wsParseLoop stray (ws.inbuf ++ bytes).length { ws with inbuf := ws.inbuf ++ bytes } with
  | mk after returned =>
    rw [result] at loop
    cases returned with
    | true | false => exact loop

lemma ahead_grown (ws : WsState) (bytes future : List UInt8) :
    ({ ws with inbuf := ws.inbuf ++ bytes } : WsState).ahead future = ws.ahead (bytes ++ future) := by
  rw [WsState.ahead, WsState.ahead, ← append_assoc]
  rfl

variable {recvs : List RecvResult}

lemma head_answer {answer : RecvResult} (other : answer ≠ .got []) (head : recvs.headD (.got []) = answer) :
    recvs = answer :: recvs.tail := by
  cases recvs with
  | nil => exact absurd head.symm other
  | cons first rest => exact congrArg (· :: rest) head

section

variable {future : List UInt8} (F : Fde) (sock : SockResult) (some_ : bytes ≠ [])
  (safe : SafeAnswer stray ws (.got bytes))

include F sock some_ safe

lemma parsed_rest (succeeded : (fdeParse stray F ws bytes sock).2.2 = true) :
    (fdeParse stray F ws bytes sock).2.1.undelivered ++ (fdeParse stray F ws bytes sock).2.1.ahead future =
      ws.undelivered ++ ws.ahead (bytes ++ future) := by
  have loop := fdeParse_decodes F sock ((if_neg some_).mp safe)
  rw [succeeded] at loop
  obtain ⟨decoded, more, rest⟩ := loop
  rw [more, ← ahead_grown, rest, append_assoc]
  rfl

lemma torn_rest (failed : (fdeParse stray F ws bytes sock).2.2 = false) :
    ws.undelivered ++ ws.ahead (bytes ++ future) = [] := by
  have loop := fdeParse_decodes F sock ((if_neg some_).mp safe)
  rw [failed] at loop
  obtain ⟨none, nothing⟩ := loop
  rw [← ahead_grown, nothing, append_nil]
  exact none

end

variable {calls : Nat}

lemma Reader.Toward.goes_on {F : Fde} {after : WsState} {received rest : List UInt8} (known : F.ws = some after)
    (keyed : after.keyed = true) (answers : ∀ recv ∈ recvs, recv ≠ .failed ∧ recv ≠ .got [])
    (ahead : bytes ++ (after.undelivered ++ after.ahead (recvs.flatMap (·.bytes))) = rest)
    (all : received ++ rest = total) (enough : recvs.length + rest.length + 1 ≤ calls + bytes.length) :
    (⟨F, recvs, received ++ bytes, false⟩ : Reader).Toward total calls := by
  have size := congrArg List.length ahead
  rw [length_append] at size
  refine ⟨after, _, ⟨known, keyed, answers, rfl⟩, ?_, ?_⟩
  · rw [← all, ← ahead, append_assoc]
  · show recvs.length + (after.undelivered ++ after.ahead (recvs.flatMap (·.bytes))).length + 1 ≤ calls
    omega

lemma Reader.Toward.stops {F : Fde} {received rest : List UInt8} (all : received ++ rest = total)
    (nothing : rest = []) : (⟨F, recvs, received ++ [], true⟩ : Reader).Toward total calls := by
  rw [nothing] at all
  exact all

variable {rest : List UInt8}

section

variable (pending : s.Pending ws rest)

include pending

lemma Reader.Pending.only (same : s.fde.ws = some other) : other = ws :=
  Option.some.inj (same.symm.trans pending.known)

lemma Reader.Pending.hasDecoded : s.fde.hasDecoded = decide (ws.decoded.length > ws.decodedPos) := by
  rw [Fde.hasDecoded, pending.known]

lemma Reader.Pending.tail_answers : ∀ recv ∈ s.recvs.tail, recv ≠ .failed ∧ recv ≠ .got [] :=
  fun recv mem => pending.answers recv (mem_of_mem_tail mem)

lemma Reader.Pending.not_failed : s.recvs.headD (.got []) ≠ .failed := by
  intro answer
  have shape := head_answer (by decide) answer
  exact (pending.answers .failed (by rw [shape]; exact mem_cons_self)).1 rfl

lemma Reader.Pending.recvs_eq_nil (answer : s.recvs.headD (.got []) = .got []) : s.recvs = [] := by
  cases recvs : s.recvs with
  | nil => rfl
  | cons first others =>
    rw [recvs] at answer
    exact absurd answer (pending.answers first (by rw [recvs]; exact mem_cons_self)).2

lemma Reader.Pending.head {answer : RecvResult} (other : answer ≠ .got [])
    (first : s.recvs.headD (.got []) = answer) : s.recvs.length = s.recvs.tail.length + 1 ∧
      ws.undelivered ++ ws.ahead (answer.bytes ++ s.recvs.tail.flatMap (·.bytes)) = rest := by
  have shape := head_answer other first
  have ahead := pending.rest
  refine ⟨congrArg List.length shape, ?_⟩
  rw [shape] at ahead
  exact ahead

end

lemma SafeCall.answer (safe : SafeCall stray s call) (running : s.ended = false) (pending : s.Pending ws rest)
    (drained : ws.decoded.length ≤ ws.decodedPos) :
    s.fde.hasDecoded = false ∧ SafeAnswer stray ws (s.recvs.headD (.got [])) := by
  have none : s.fde.hasDecoded = false := by rw [pending.hasDecoded, decide_eq_false (Nat.not_lt.mpr drained)]
  exact ⟨none, safe.2 running none ws pending.known⟩

lemma readerStep_toward (toward : s.Toward total (calls + 1)) (safe : SafeCall stray s call) :
    (readerStep stray s call).Toward total calls := by
  obtain ⟨F, recvs, received, ended⟩ := s
  cases ended with
  | true => exact toward
  | false =>
  obtain ⟨ws, rest, pending, all, enough⟩ := toward
  have asked := fun drained => safe.answer rfl pending drained
  have keyed := pending.keyed
  dsimp only at all enough asked
  have outcome := opWsRead_outcome stray F call.1 (recvs.headD (.got [])) call.2
  simp only [readerStep, Bool.false_eq_true, if_false]
  generalize opWsRead stray F call.1 (recvs.headD (.got [])) call.2 = result at outcome ⊢
  cases outcome with
  | zero none => exact absurd safe.1 (by omega)
  | unkeyed closed =>
    rw [closed ws pending.known] at keyed
    cases keyed
  | failed same answer => exact absurd answer pending.not_failed
  | buffered same ready left =>
    cases pending.only same
    have some_ := wsDeliver_some ready.1 left
    have isSome := pending.hasDecoded.trans (decide_eq_true left)
    have positiveSize := length_pos_of_ne_nil some_
    simp only [isSome, if_true, List.isEmpty_eq_false_iff.mpr some_]
    refine .goes_on rfl keyed pending.answers ?_ all (by omega)
    rw [← append_assoc, wsDeliver_split, wsDeliver_ahead]
    exact pending.rest
  | blocked same drained answer =>
    cases pending.only same
    obtain ⟨size, ahead⟩ := pending.head (by decide) answer
    dsimp only at size
    simp only [(asked drained).1, Bool.false_eq_true, if_false]
    rw [← append_nil received]
    exact .goes_on pending.known keyed pending.tail_answers ahead all (by rw [length_nil]; omega)
  | ended same drained answer =>
    cases pending.only same
    have nothing := (asked drained).2
    rw [answer] at nothing
    refine .stops all ?_
    rw [← pending.rest, pending.recvs_eq_nil answer, drained_undelivered drained]
    exact nothing
  | torn same ready drained answer some_ failed =>
    cases pending.only same
    obtain ⟨_, ahead⟩ := pending.head (fun empty => some_ (RecvResult.got.inj empty)) answer
    have passes := (asked drained).2
    rw [answer] at passes
    exact .stops all (ahead.symm.trans (torn_rest F call.2 some_ passes failed))
  | fresh same ready drained answer some_ succeeded left =>
    cases pending.only same
    obtain ⟨size, ahead⟩ := pending.head (fun empty => some_ (RecvResult.got.inj empty)) answer
    dsimp only at size
    have passes := (asked drained).2
    rw [answer] at passes
    have new := wsDeliver_some ready.1 left
    simp only [(asked drained).1, Bool.false_eq_true, if_false, List.isEmpty_eq_false_iff.mpr new]
    refine .goes_on rfl ((fdeParse_keyed F ws _ call.2).trans keyed) pending.tail_answers ?_ all (by omega)
    rw [← append_assoc, wsDeliver_split, wsDeliver_ahead, parsed_rest F call.2 some_ passes succeeded]
    exact ahead
  | nothing same ready drained answer some_ succeeded empty =>
    cases pending.only same
    obtain ⟨size, ahead⟩ := pending.head (fun empty => some_ (RecvResult.got.inj empty)) answer
    dsimp only at size
    have passes := (asked drained).2
    rw [answer] at passes
    simp only [(asked drained).1, Bool.false_eq_true, if_false]
    rw [← append_nil received]
    refine .goes_on (fdeParse_state stray F ws _ call.2) ((fdeParse_keyed F ws _ call.2).trans keyed)
      pending.tail_answers ?_ all (by rw [length_nil]; omega)
    rw [nil_append, parsed_rest F call.2 some_ passes succeeded]
    exact ahead

lemma reader_receives {calls : List (Nat × SockResult)} (toward : s.Toward total calls.length)
    (safe : Permitted (SafeCall stray) (readerStep stray) s calls) :
    (calls.foldl (readerStep stray) s).ended = true ∧ (calls.foldl (readerStep stray) s).received = total := by
  induction calls generalizing s with
  | nil =>
    unfold Reader.Toward at toward
    split at toward
    next done => exact ⟨done, toward⟩
    next =>
      obtain ⟨ws, rest, _, _, enough⟩ := toward
      exact absurd enough (by rw [length_nil]; omega)
  | cons call others ih => exact ih (readerStep_toward toward safe.1) safe.2

lemma readerStart_toward (ssl : Bool) (cut : CutsInto early recvs stream)
    (enough : recvs.length + (decoding none stream).length + 1 ≤ calls) :
    (readerStart ssl early recvs).Toward (decoding none stream) calls := by
  refine ⟨{ wsAlloc with keyed := true, inbuf := early }, decoding none stream, ⟨rfl, rfl, cut.2, ?_⟩, rfl, enough⟩
  rw [← cut.1]
  rfl

end

/-- However a stream is cut, its readers receive the text of all messages up to the first frame that ends the
connection, if every pass of `ws_parse_frames` is safe. -/
theorem delivery_independent_of_cut (stray : WsState → Bool) (ssl : Bool) (stream : List UInt8)
    (early early' : List UInt8) (recvs recvs' : List RecvResult) (calls calls' : List (Nat × SockResult))
    (cut : CutsInto early recvs stream) (cut' : CutsInto early' recvs' stream)
    (enough : recvs.length + (decoding none stream).length + 1 ≤ calls.length)
    (enough' : recvs'.length + (decoding none stream).length + 1 ≤ calls'.length)
    (safe : Permitted (SafeCall stray) (readerStep stray) (readerStart ssl early recvs) calls)
    (safe' : Permitted (SafeCall stray) (readerStep stray) (readerStart ssl early' recvs') calls') :
    ((calls.foldl (readerStep stray) (readerStart ssl early recvs)).ended = true ∧
      (calls.foldl (readerStep stray) (readerStart ssl early recvs)).received = decoding none stream) ∧
    ((calls'.foldl (readerStep stray) (readerStart ssl early' recvs')).ended = true ∧
      (calls'.foldl (readerStep stray) (readerStart ssl early' recvs')).received = decoding none stream) := by
  have first := reader_receives (readerStart_toward ssl cut enough) safe
  have second := reader_receives (readerStart_toward ssl cut' enough') safe'
  exact ⟨first, second⟩

def hiBytes : List UInt8 := [0x81, 0x82, 0, 0, 0, 0, 104, 105]
def closeBytes : List UInt8 := [0x88, 0x80, 0, 0, 0, 0]

theorem delivery_independent_of_cut_hi :
    ((List.replicate 7 (100, SockResult.wouldBlock)).foldl (readerStep fun _ => false)
        (readerStart false [] [.got hiBytes, .got closeBytes])).received = [104, 105, 13, 10] ∧
      ((List.replicate 9 (1, SockResult.wouldBlock)).foldl (readerStep fun _ => false)
        (readerStart false [0x81] [.got (hiBytes.drop 1 |>.take 4), .wouldBlock, .got (hiBytes.drop 5),
          .got closeBytes])).received = [104, 105, 13, 10] :=
  have both := delivery_independent_of_cut (fun _ => false) false (hiBytes ++ closeBytes) [] [0x81]
    [.got hiBytes, .got closeBytes]
    [.got (hiBytes.drop 1 |>.take 4), .wouldBlock, .got (hiBytes.drop 5), .got closeBytes]
    (List.replicate 7 (100, .wouldBlock)) (List.replicate 9 (1, .wouldBlock)) (by decide) (by decide) (by decide)
    (by decide) (by decide) (by decide)
  ⟨both.1.2.trans (by decide), both.2.2.trans (by decide)⟩

/-- With "hi" and the CLOSE frame in one `recv`, the reader never gets "hi". -/
theorem close_discards_message : CutsInto [] [.got hiBytes, .got closeBytes] (hiBytes ++ closeBytes) ∧
      CutsInto [] [.got (hiBytes ++ closeBytes)] (hiBytes ++ closeBytes) ∧
      ([(100, SockResult.wouldBlock), (100, .wouldBlock)].foldl (readerStep fun _ => false)
        (readerStart false [] [.got hiBytes, .got closeBytes])).received = [104, 105, 13, 10] ∧
      ([(100, SockResult.wouldBlock)].foldl (readerStep fun _ => false)
        (readerStart false [] [.got (hiBytes ++ closeBytes)])).ended = true ∧
      ([(100, SockResult.wouldBlock)].foldl (readerStep fun _ => false)
        (readerStart false [] [.got (hiBytes ++ closeBytes)])).received = [] := by
  decide

end LibOp.Websocket

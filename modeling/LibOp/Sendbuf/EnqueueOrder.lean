import LibOp.Foundation.Runs
import LibOp.Sendbuf.Queue

namespace LibOp.Sendbuf

open Foundation Linebuf Websocket

inductive SendCall where
  | write (data : List UInt8)
  | writeLinebuf (linebuf : BufHead)
  | flush (vectored : Bool) (sock : SockResult)
  | drainToBuf (limit : Nat)

/-- A send queue with the bytes enqueued so far and those that have left it. -/
structure SendRun where
  sb : OpSendbuf
  enqueued : List UInt8
  out : List UInt8

def SendRun.start : SendRun := ⟨.empty, [], []⟩

def sendStep (s : SendRun) : SendCall → SendRun
  | .write data => { s with sb := opSendbufWrite s.sb data, enqueued := s.enqueued ++ data }
  | .writeLinebuf linebuf =>
    { s with sb := opSendbufWriteLinebuf s.sb linebuf, enqueued := s.enqueued ++ lineBytes linebuf }
  | .flush vectored sock =>
    { s with sb := (opSendbufFlush s.sb vectored sock).1, out := s.out ++ (opSendbufFlush s.sb vectored sock).2.1 }
  | .drainToBuf limit =>
    { s with sb := (opSendbufDrainToBuf s.sb limit).1, out := s.out ++ (opSendbufDrainToBuf s.sb limit).2 }

def SendRun.InOrder (s : SendRun) : Prop := s.out ++ s.sb.queued = s.enqueued

/-- A raw write overtakes the lines in the inbox, which is visible unless their bytes commute with the data. -/
def KeepsOrder (s : SendRun) : SendCall → Prop
  | .write data => unsentBytes s.sb.inbox.reverse ++ data = data ++ unsentBytes s.sb.inbox.reverse
  | _ => True

lemma inOrder_step (inOrder : s.InOrder) (call : SendCall) : (sendStep s call).InOrder ↔ KeepsOrder s call := by
  cases call with
  | write data =>
    obtain ⟨active, inbox⟩ := sendbufWriteLoop_spec s.sb (Nat.le_refl data.length)
    rw [SendRun.InOrder, OpSendbuf.queued] at inOrder
    simp only [SendRun.InOrder, sendStep, OpSendbuf.queued, opSendbufWrite, active, inbox, ← inOrder, KeepsOrder,
      List.append_assoc, List.append_cancel_left_eq]
    exact eq_comm
  | writeLinebuf linebuf =>
    simp only [SendRun.InOrder, sendStep, queued_writeLinebuf, KeepsOrder, iff_true]
    rw [← List.append_assoc, inOrder]
  | flush vectored sock =>
    simp only [SendRun.InOrder, sendStep, KeepsOrder, iff_true]
    rw [List.append_assoc, queued_flush, inOrder]
  | drainToBuf limit =>
    simp only [SendRun.InOrder, sendStep, KeepsOrder, iff_true]
    rw [List.append_assoc, queued_drainToBuf, inOrder]

/-- The queue keeps enqueue order exactly when no raw write overtakes lines in the inbox. -/
theorem enqueue_order_iff (calls : List SendCall) :
    (∀ before, before <+: calls → (before.foldl sendStep .start).InOrder) ↔
      Permitted KeepsOrder sendStep .start calls := by
  have exact (s : SendRun) (call : SendCall) (_ : True) (inOrder : s.InOrder) :
      (sendStep s call).InOrder ↔ KeepsOrder s call := inOrder_step inOrder call
  have start : SendRun.start.InOrder := rfl
  exact throughout_iff_permitted (fun _ _ _ => trivial) exact trivial start calls

def shortLine : BufLine := ⟨[97, 13, 10], true, false, by decide⟩

def overtaken : List SendCall :=
  [.writeLinebuf ⟨[shortLine], 3, 1, 1⟩, .write [98], .flush true (.accepted 1)]

/-- The line is enqueued first and the raw byte leaves first. -/
theorem raw_write_overtakes_line : (overtaken.foldl sendStep .start).enqueued = [97, 13, 10, 98] ∧
      (overtaken.foldl sendStep .start).out = [98] ∧
      ¬ (overtaken.foldl sendStep .start).InOrder := by
  unfold SendRun.InOrder
  decide

end LibOp.Sendbuf

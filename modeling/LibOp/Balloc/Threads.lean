import LibOp.Balloc.Partition

open LibOp.Foundation List

namespace LibOp.Balloc

open Function

variable {T : Type*}

def PcOk (items : List Elem) : Pc → Prop
  | .idle => True
  | .refilling => items = []
  | .popping => items ≠ []
  | .flushing _ => items.length = magazineSize
  | .pushing _ => items.length < magazineSize

def Reached (elemsPerBlock : Nat) (s : State T) : Prop :=
  (∃ free owner, Consistent elemsPerBlock s free owner) ∧ ∀ t, PcOk (s.magazine t) (s.pc t)

variable [DecidableEq T] {elemsPerBlock : Nat} {s s' : State T} {free : List Elem} {owner : Elem → Option (Holder T)}
  {t : T}

variable {ptr : Elem}

section

variable (c : Consistent elemsPerBlock s free owner) (ok : ∀ u, PcOk (s.magazine u) (s.pc u))

include c ok

end

def Allocated (s : State T) (e : Elem) : Prop := s.live e = true ∨ ∃ t, (s.pc t).freeing = some e

variable {e : Elem}

omit [DecidableEq T] in
lemma quiet (e : Elem) (bad : none = some e) : ¬Allocated s e ∧ Allocated s' e := by cases bad

end LibOp.Balloc

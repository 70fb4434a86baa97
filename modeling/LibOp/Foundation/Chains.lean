import Mathlib

namespace LibOp.Foundation

open List Function

variable {α : Type*} {next : α → Option α}

def LinkedFrom (next : α → Option α) : Option α → List α → Prop
  | start, [] => start = none
  | start, a :: rest => start = some a ∧ LinkedFrom next (next a) rest

@[simp] lemma linkedFrom_nil (start : Option α) : LinkedFrom next start [] ↔ start = none := Iff.rfl

@[simp] lemma linkedFrom_cons (start : Option α) (a : α) (rest : List α) :
    LinkedFrom next start (a :: rest) ↔ start = some a ∧ LinkedFrom next (next a) rest := Iff.rfl

variable {start : Option α} {l : List α}

lemma LinkedFrom.start_eq (chain : LinkedFrom next start l) : start = l.head? := by
  cases l with
  | nil => exact chain
  | cons a rest => exact chain.1

lemma LinkedFrom.eq_nil (chain : LinkedFrom next none l) : l = [] := by
  cases l with
  | nil => rfl
  | cons a rest => cases chain.1

variable {a : α}

lemma LinkedFrom.eq_cons (chain : LinkedFrom next (some a) l) :
    ∃ rest, l = a :: rest ∧ LinkedFrom next (next a) rest := by
  cases l with
  | nil => cases chain
  | cons b rest =>
    obtain ⟨same, after⟩ := chain
    cases same
    exact ⟨rest, rfl, after⟩

lemma LinkedFrom.unique (chain : LinkedFrom next start l) (again : LinkedFrom next start other) : l = other := by
  induction l generalizing start other with
  | nil =>
    rw [chain] at again
    exact again.eq_nil.symm
  | cons a rest ih =>
    rw [chain.1] at again
    obtain ⟨others, rfl, after⟩ := again.eq_cons
    rw [ih chain.2 after]

variable {front back : List α}

lemma LinkedFrom.after (chain : LinkedFrom next start (front ++ a :: back)) : LinkedFrom next (next a) back := by
  induction front generalizing start with
  | nil => exact chain.2
  | cons b front ih => exact ih chain.2

lemma LinkedFrom.next_mem (chain : LinkedFrom next start l) (visited : a ∈ l) (link : next a = some b) : b ∈ l := by
  obtain ⟨front, back, rfl⟩ := append_of_mem visited
  have after := chain.after
  rw [link] at after
  obtain ⟨rest, rfl, -⟩ := after.eq_cons
  simp

lemma LinkedFrom.last_of_next_none (chain : LinkedFrom next start l) (visited : a ∈ l) (stop : next a = none) :
    ∃ front, l = front ++ [a] := by
  obtain ⟨front, back, rfl⟩ := append_of_mem visited
  have after := chain.after
  rw [stop] at after
  rw [after.eq_nil]
  exact ⟨front, rfl⟩

variable [DecidableEq α]

lemma LinkedFrom.frame (value : Option α) (untouched : a ∉ l) (chain : LinkedFrom next start l) :
    LinkedFrom (update next a value) start l := by
  induction l generalizing start with
  | nil => exact chain
  | cons b rest ih =>
    rw [mem_cons, not_or] at untouched
    rw [linkedFrom_cons, update_of_ne (Ne.symm untouched.1)]
    exact ⟨chain.1, ih untouched.2 chain.2⟩

lemma LinkedFrom.redirect {start value : Option α} {front back tail : List α}
    (chain : LinkedFrom next start (front ++ a :: back)) (continued : LinkedFrom next value tail)
    (notBefore : a ∉ front) (notAfter : a ∉ tail) : LinkedFrom (update next a value) start (front ++ a :: tail) := by
  induction front generalizing start with
  | nil =>
    rw [nil_append, linkedFrom_cons, update_self]
    exact ⟨chain.1, continued.frame value notAfter⟩
  | cons b front ih =>
    rw [mem_cons, not_or] at notBefore
    rw [cons_append, linkedFrom_cons, update_of_ne (Ne.symm notBefore.1)]
    exact ⟨chain.1, ih chain.2 notBefore.2⟩

lemma LinkedFrom.push {top : Option α} (chain : LinkedFrom next top l) (fresh : a ∉ l) :
    LinkedFrom (update next a top) (some a) (a :: l) := by
  rw [linkedFrom_cons, update_self]
  exact ⟨rfl, chain.frame top fresh⟩

lemma LinkedFrom.insertAfter {u a : α} (chain : LinkedFrom next start (front ++ u :: back))
    (nodup : (front ++ u :: back).Nodup) (fresh : a ∉ front ++ u :: back) :
    LinkedFrom (update (update next a (next u)) u (some a)) start (front ++ u :: a :: back) := by
  obtain ⟨_, rest, apart⟩ := List.nodup_append.mp nodup
  have pushed : LinkedFrom (update next a (next u)) (some a) (a :: back) := by
    apply chain.after.push
    intro mem
    exact fresh (mem_append_right front (mem_cons_of_mem u mem))
  apply (chain.frame (next u) fresh).redirect pushed
  · intro early
    exact apart u early u mem_cons_self rfl
  · intro late
    rcases List.mem_cons.mp late with same | mem
    · exact fresh (same ▸ mem_append_right front mem_cons_self)
    · exact (List.nodup_cons.mp rest).1 mem

lemma LinkedFrom.removeAfter {u a : α} (chain : LinkedFrom next start (front ++ u :: a :: back))
    (nodup : (front ++ u :: a :: back).Nodup) : LinkedFrom (update next u (next a)) start (front ++ u :: back) := by
  obtain ⟨_, rest, apart⟩ := List.nodup_append.mp nodup
  have continued := chain.after.2
  apply chain.redirect continued
  · intro early
    exact apart u early u mem_cons_self rfl
  · intro late
    exact (List.nodup_cons.mp rest).1 (mem_cons_of_mem a late)

end LibOp.Foundation

import LibOp.Foundation.Chains

namespace LibOp.Foundation

open List Function

variable {α : Type*}

structure DList (α : Type*) where
  head : Option α
  tail : Option α
  prev : α → Option α
  next : α → Option α

variable [DecidableEq α]

def bypass (next : α → Option α) (start before after : Option α) : (α → Option α) × Option α :=
  match before with
  | some p => (update next p after, start)
  | none => (next, after)

variable {next : α → Option α}

lemma bypass_linked {start : Option α}
    (chain : LinkedFrom next start (front ++ a :: back)) (nodup : (front ++ a :: back).Nodup) :
    LinkedFrom (bypass next start front.getLast? (next a)).1 (bypass next start front.getLast? (next a)).2
      (front ++ back) := by
  have after := chain.after
  rcases eq_nil_or_concat front with rfl | ⟨front, p, rfl⟩
  · exact after
  · simp only [concat_eq_append, getLast?_concat, append_assoc, singleton_append] at chain nodup ⊢
    have apart := disjoint_of_nodup_append nodup
    apply chain.redirect after
    · intro mem
      exact apart mem mem_cons_self
    · intro mem
      have fresh := (List.nodup_cons.mp (List.nodup_append.mp nodup).2.1).1
      exact fresh (mem_cons_of_mem a mem)

lemma bypass_next_of_ne {start before after : Option α} (other : before ≠ some a) :
    (bypass next start before after).1 a = next a := by
  cases before with
  | none => rfl
  | some p => exact update_of_ne (fun same => other (congrArg some same.symm)) after next

namespace DList

def pushHead (d : DList α) (e : α) : DList α :=
  let prev := update d.prev e none
  let next := update d.next e d.head
  match d.head with
  | some h => { head := some e, tail := d.tail, prev := update prev h (some e), next := next }
  | none => { head := some e, tail := some e, prev := prev, next := next }

def unlink (d : DList α) (e : α) : DList α :=
  let forward := bypass d.next d.head (d.prev e) (d.next e)
  let backward := bypass d.prev d.tail (forward.1 e) (d.prev e)
  { head := forward.2, tail := backward.2, prev := update backward.1 e none, next := update forward.1 e none }

def promote (d : DList α) (e : α) : DList α :=
  if d.head = some e then d else (d.unlink e).pushHead e

structure Linked (d : DList α) (l : List α) : Prop where
  forward : LinkedFrom d.next d.head l
  backward : LinkedFrom d.prev d.tail l.reverse
  nodup : l.Nodup

variable {d : DList α} {l : List α} {a : α}

variable (linked : d.Linked l)

include linked

omit [DecidableEq α] in
lemma Linked.head_eq : d.head = l.head? := linked.forward.start_eq

omit [DecidableEq α] in
lemma Linked.tail_eq : d.tail = l.getLast? := by
  rw [linked.backward.start_eq, head?_reverse]

lemma Linked.pushHead (fresh : a ∉ l) : (d.pushHead a).Linked (a :: l) := by
  have nodup := List.nodup_cons.mpr ⟨fresh, linked.nodup⟩
  have backward : LinkedFrom (update d.prev a none) d.tail l.reverse := by
    apply linked.backward.frame
    rwa [mem_reverse]
  have new : LinkedFrom (update d.prev a none) (some a) [a] := by
    rw [linkedFrom_cons, update_self]
    exact ⟨rfl, rfl⟩
  have forward := linked.forward.push fresh
  have start := linked.head_eq
  cases l with
  | nil =>
    simp only [DList.pushHead, start] at forward ⊢
    exact ⟨forward, new, nodup⟩
  | cons h rest =>
    rw [reverse_cons] at backward
    simp only [DList.pushHead, start] at forward ⊢
    refine ⟨forward, ?_, nodup⟩
    rw [reverse_cons, reverse_cons, append_assoc, singleton_append]
    apply backward.redirect new
    · rw [mem_reverse]
      exact (List.nodup_cons.mp linked.nodup).1
    · rw [mem_singleton]
      rintro rfl
      exact fresh mem_cons_self

lemma Linked.unlink (mem : a ∈ l) : (d.unlink a).Linked (l.erase a) := by
  obtain ⟨front, back, rfl⟩ := append_of_mem mem
  have nodup := linked.nodup
  have notFront : a ∉ front := fun early =>
    disjoint_of_nodup_append nodup early mem_cons_self
  have notBack : a ∉ back := (List.nodup_cons.mp (List.nodup_append.mp nodup).2.1).1
  have backward := linked.backward
  have mirrored : (front ++ a :: back).reverse = back.reverse ++ a :: front.reverse := by simp
  rw [mirrored] at backward
  have before : d.prev a = front.getLast? := by rw [backward.after.start_eq, head?_reverse]
  have following : d.next a = back.reverse.getLast? := by rw [linked.forward.after.start_eq, getLast?_reverse]
  have kept : (bypass d.next d.head (d.prev a) (d.next a)).1 a = d.next a := by
    apply bypass_next_of_ne
    rw [before]
    exact fun last => notFront (mem_of_getLast? last)
  have ahead := bypass_linked linked.forward nodup
  have behind := bypass_linked backward (mirrored ▸ List.nodup_reverse.mpr nodup)
  rw [← before] at ahead
  rw [← following, ← reverse_append] at behind
  rw [erase_append_right _ notFront, erase_cons_head]
  have outside : a ∉ front ++ back := by
    rw [mem_append, not_or]
    exact ⟨notFront, notBack⟩
  refine ⟨ahead.frame none outside, ?_, nodup.sublist (List.Sublist.append_left (sublist_cons_self a back) front)⟩
  simp only [DList.unlink, kept]
  apply behind.frame
  rwa [mem_reverse]

lemma Linked.promote (mem : a ∈ l) : (d.promote a).Linked (a :: l.erase a) := by
  rw [DList.promote]
  split
  next first =>
    rw [linked.head_eq] at first
    obtain ⟨rest, rfl⟩ := List.head?_eq_some_iff.mp first
    rwa [erase_cons_head]
  next other =>
    apply (linked.unlink mem).pushHead
    exact linked.nodup.not_mem_erase

end DList

end LibOp.Foundation

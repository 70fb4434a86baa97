import Mathlib

namespace LibOp.Foundation

open List

variable {σ α : Type*}

def Permitted (guard : σ → α → Prop) (step : σ → α → σ) : σ → List α → Prop
  | _, [] => True
  | s, a :: rest => guard s a ∧ Permitted guard step (step s a) rest

instance decidablePermitted (guard : σ → α → Prop) [∀ s a, Decidable (guard s a)]
    (step : σ → α → σ) : ∀ s actions, Decidable (Permitted guard step s actions)
  | _, [] => inferInstanceAs (Decidable True)
  | s, a :: rest =>
    have := decidablePermitted guard step (step s a) rest
    inferInstanceAs (Decidable (guard s a ∧ Permitted guard step (step s a) rest))

@[simp] lemma permitted_nil (guard : σ → α → Prop) (step : σ → α → σ) (s : σ) : Permitted guard step s [] := trivial

@[simp] lemma permitted_cons (guard : σ → α → Prop) (step : σ → α → σ) (s : σ) (a : α)
    (rest : List α) : Permitted guard step s (a :: rest) ↔ guard s a ∧ Permitted guard step (step s a) rest := Iff.rfl

variable {guard : σ → α → Prop} {step : σ → α → σ}

lemma Permitted.of_forall (always : ∀ s a, guard s a) (s : σ) (actions : List α) : Permitted guard step s actions := by
  induction actions generalizing s with
  | nil => exact trivial
  | cons a rest ih => exact ⟨always s a, ih (step s a)⟩

variable {s : σ}

lemma permitted_append {first second : List α} : Permitted guard step s (first ++ second) ↔
      Permitted guard step s first ∧ Permitted guard step (first.foldl step s) second := by
  induction first generalizing s with
  | nil => exact iff_of_eq (true_and _).symm
  | cons a rest ih => rw [cons_append, permitted_cons, permitted_cons, ih, and_assoc, foldl_cons]

variable {actions : List α} {Inv : σ → Prop}

lemma Permitted.preserves (keep : ∀ s a, Inv s → guard s a → Inv (step s a)) (initial : Inv s)
    (run : Permitted guard step s actions) : Inv (actions.foldl step s) := by
  induction actions generalizing s with
  | nil => exact initial
  | cons a rest ih => exact ih (keep s a initial run.1) run.2

lemma Permitted.accumulates {P : σ → Prop} {Q : α → Prop} (grow : ∀ s a, guard s a → (P (step s a) ↔ P s ∨ Q a))
    (run : Permitted guard step s actions) : P (actions.foldl step s) ↔ P s ∨ ∃ a ∈ actions, Q a := by
  induction actions generalizing s with
  | nil => simp
  | cons a rest ih =>
    rw [foldl_cons, ih run.2, grow s a run.1]
    simp [mem_cons, exists_eq_or_imp, or_assoc]

lemma Permitted.strengthen {guard strong : σ → α → Prop} (initial : Inv s)
    (keep : ∀ s, ∀ a ∈ actions, Inv s → guard s a → strong s a ∧ Inv (step s a)) (run : Permitted guard step s actions) :
    Permitted strong step s actions := by
  induction actions generalizing s with
  | nil => exact trivial
  | cons a rest ih =>
    obtain ⟨allowed, next⟩ := keep s a mem_cons_self initial run.1
    exact ⟨allowed, ih next (fun s b mem => keep s b (mem_cons_of_mem a mem)) run.2⟩

variable {Inv P : σ → Prop} {legal guard : σ → α → Prop}

lemma Permitted.throughout_iff (keep : ∀ s a, Inv s → legal s a → P s → Inv (step s a))
    (exact : ∀ s a, Inv s → legal s a → P s → (P (step s a) ↔ guard s a)) (initial : Inv s) (start : P s)
    (run : Permitted legal step s actions) :
    (∀ before, before <+: actions → P (before.foldl step s)) ↔ Permitted guard step s actions := by
  induction actions generalizing s with
  | nil =>
    refine ⟨fun _ => trivial, fun _ before initialPart => ?_⟩
    rw [List.prefix_nil.mp initialPart]
    exact start
  | cons a rest ih =>
    have one := exact s a initial run.1 start
    constructor
    · intro throughout
      have next : P (step s a) := throughout [a] (prefix_append [a] rest)
      refine ⟨one.mp next, (ih (keep s a initial run.1 start) next run.2).mp fun before initialPart => ?_⟩
      exact throughout (a :: before) ((prefix_cons_inj a).mpr initialPart)
    · rintro ⟨allowed, others⟩ before initialPart
      cases before with
      | nil => exact start
      | cons b before =>
        obtain ⟨rfl, inRest⟩ := List.cons_prefix_cons.mp initialPart
        exact (ih (keep s b initial run.1 start) (one.mpr allowed) run.2).mpr others before inRest

lemma throughout_iff_permitted (keep : ∀ s a, Inv s → Inv (step s a))
    (exact : ∀ s a, Inv s → P s → (P (step s a) ↔ guard s a)) (initial : Inv s) (start : P s) (actions : List α) :
    (∀ before, before <+: actions → P (before.foldl step s)) ↔ Permitted guard step s actions := by
  have any : Permitted (fun _ _ => True) step s actions := Permitted.of_forall (fun _ _ => trivial) s actions
  exact any.throughout_iff (fun s a inv _ _ => keep s a inv) (fun s a inv _ => exact s a inv) initial start

/-- As `Permitted.throughout_iff`, for a property that does not return once broken. -/
lemma Permitted.final_iff (keep : ∀ s a, Inv s → legal s a → Inv (step s a))
    (back : ∀ s a, Inv s → P (step s a) → P s) (exact : ∀ s a, Inv s → legal s a → P s → (P (step s a) ↔ guard s a))
    (initial : Inv s) (start : P s) (run : Permitted legal step s actions) :
    P (actions.foldl step s) ↔ Permitted guard step s actions := by
  have lasting (after : List α) (t : σ) (inv : Inv t) (rest : Permitted legal step t after) :
      P (after.foldl step t) → P t := by
    induction after generalizing t with
    | nil => exact id
    | cons a after ih =>
      intro final
      exact back t a inv (ih (step t a) (keep t a inv rest.1) rest.2 final)
  induction actions generalizing s with
  | nil => exact ⟨fun _ => trivial, fun _ => start⟩
  | cons a rest ih =>
    have one := exact s a initial run.1 start
    have inv := keep s a initial run.1
    rw [foldl_cons, permitted_cons, ← one]
    constructor
    · intro final
      have next := lasting rest (step s a) inv run.2 final
      exact ⟨next, (ih inv next run.2).mp final⟩
    · intro both
      exact (ih inv both.1 run.2).mpr both.2

section Replies

variable {τ ρ : Type*}

def runReplies (step : σ → α → Option (σ × ρ)) (s : σ) : List α → Option (σ × List ρ)
  | [] => some (s, [])
  | a :: rest => do
    let (next, reply) ← step s a
    let (last, replies) ← runReplies step next rest
    some (last, reply :: replies)

def specReplies (spec : τ → α → τ × ρ) (t : τ) : List α → τ × List ρ
  | [] => (t, [])
  | a :: rest =>
    let (next, reply) := spec t a
    let (last, replies) := specReplies spec next rest
    (last, reply :: replies)

variable {R : σ → τ → Prop} {actions : List α}

lemma runReplies_simulates {step : σ → α → Option (σ × ρ)}
    (simulates : ∀ s t, ∀ a ∈ actions, R s t → ∃ s', step s a = some (s', (spec t a).2) ∧ R s' (spec t a).1)
    (initial : R s t) :
    ∃ s', runReplies step s actions = some (s', (specReplies spec t actions).2) ∧
      R s' (specReplies spec t actions).1 := by
  induction actions generalizing s t with
  | nil => exact ⟨s, rfl, initial⟩
  | cons a rest ih =>
    obtain ⟨next, stepped, related⟩ := simulates s t a mem_cons_self initial
    obtain ⟨last, ran, final⟩ := ih (fun s t b mem => simulates s t b (mem_cons_of_mem a mem)) related
    exact ⟨last, by simp [runReplies, specReplies, stepped, ran], final⟩

lemma runReplies_concat {step : σ → α → Option (σ × ρ)} (ran : runReplies step s actions = some (t, replies))
    (next : step t a = some (u, reply)) : runReplies step s (actions ++ [a]) = some (u, replies ++ [reply]) := by
  induction actions generalizing s replies with
  | nil =>
    cases ran
    simp [runReplies, next]
  | cons b rest ih =>
    simp only [runReplies, Option.bind_eq_bind, Option.bind_eq_some_iff, Option.some.injEq] at ran
    obtain ⟨⟨v, first⟩, stepped, ⟨w, others⟩, after, same⟩ := ran
    cases same
    simp [runReplies, stepped, ih after]

lemma specReplies_simulates {step : σ → α → σ × ρ}
    (simulates : ∀ s t a, R s t → (step s a).2 = (spec t a).2 ∧ R (step s a).1 (spec t a).1)
    (initial : R s t) (actions : List α) :
    (specReplies step s actions).2 = (specReplies spec t actions).2 ∧
      R (specReplies step s actions).1 (specReplies spec t actions).1 := by
  induction actions generalizing s t with
  | nil => exact ⟨rfl, initial⟩
  | cons a rest ih =>
    obtain ⟨reply, related⟩ := simulates s t a initial
    obtain ⟨replies, final⟩ := ih related
    exact ⟨congrArg₂ List.cons reply replies, final⟩

end Replies

def visitUntil (fn : σ → α → σ × Bool) : List α → σ → σ × Bool
  | [], s => (s, true)
  | a :: rest, s => if (fn s a).2 then visitUntil fn rest (fn s a).1 else ((fn s a).1, false)

variable (fn : σ → α → σ × Bool)

lemma visitUntil_append (l r : List α) (s : σ) : visitUntil fn (l ++ r) s =
      if (visitUntil fn l s).2 then visitUntil fn r (visitUntil fn l s).1 else ((visitUntil fn l s).1, false) := by
  induction l generalizing s with
  | nil => rfl
  | cons a l ih =>
    simp only [cons_append, visitUntil]
    split
    · exact ih (fn s a).1
    · rfl

lemma visitUntil_of_continues {fn : σ → α → σ × Bool} (continues : ∀ s a, (fn s a).2 = true) (l : List α) (s : σ) :
    (visitUntil fn l s).1 = l.foldl (fun s a => (fn s a).1) s := by
  induction l generalizing s with
  | nil => rfl
  | cons a l ih => rw [visitUntil, if_pos (continues s a), ih, foldl_cons]

lemma visitUntil_map {β : Type*} (f : β → α) (l : List β) (s : σ) :
    visitUntil fn (l.map f) s = visitUntil (fun s b => fn s (f b)) l s := by
  induction l generalizing s with
  | nil => rfl
  | cons b l ih => simp only [map_cons, visitUntil, ih]

lemma visitUntil_filter (p : α → Bool) (l : List α) (s : σ) :
    visitUntil (fun s a => if p a then fn s a else (s, true)) l s = visitUntil fn (l.filter p) s := by
  induction l generalizing s with
  | nil => rfl
  | cons a l ih =>
    rw [visitUntil, filter_cons]
    by_cases accepted : p a = true
    · simp [accepted, visitUntil, ih]
    · simp [accepted, ih]

end LibOp.Foundation

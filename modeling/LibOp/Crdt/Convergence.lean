import LibOp.Crdt.Knowledge

namespace LibOp.Crdt

open Foundation List

lemma entry_room (cc : Cc) (keyed : cc.Keyed) (mesh : Finset Replica)
    (few : mesh.card ≤ ccMaxReplicas) (within : ∀ r ∈ cc.replicas, r ∈ mesh) (r : Replica)
    (mem : r ∈ mesh) : cc.Knows r ∨ cc.entries.length < ccMaxReplicas := by
  by_cases known : cc.Knows r
  · exact .inl known
  · right
    have distinct := List.nodup_cons.mpr ⟨known, keyed⟩
    have subset : (r :: cc.replicas).toFinset ⊆ mesh := by
      intro x inside
      rcases List.mem_cons.mp (List.mem_toFinset.mp inside) with rfl | old
      · exact mem
      · exact within x old
    have bound := Finset.card_le_card subset
    rw [toFinset_card_of_nodup distinct] at bound
    simp only [length_cons, Cc.replicas, length_map] at bound
    omega

def OverflowMergeFits (dst src : Cc) : Prop :=
  Permitted (fun cc dot => ccContains cc dot = true ∨ OverflowFits cc dot) ccMergeDot
    (src.entries.foldl ccMergeEntry dst) src.overflow

instance (dst src : Cc) : Decidable (OverflowMergeFits dst src) :=
  inferInstanceAs (Decidable (Permitted _ _ _ _))

lemma OverflowMergeFits.mergeFits (fits : OverflowMergeFits dst src)
    (keyed : dst.Keyed) (mesh : Finset Replica) (few : mesh.card ≤ ccMaxReplicas)
    (within : ∀ r ∈ dst.replicas, r ∈ mesh) (entries : ∀ r ∈ src.replicas, r ∈ mesh)
    (overflow : ∀ d ∈ src.overflow, d.replica ∈ mesh) : CcMergeFits dst src := by
  let Inv := fun cc : Cc => cc.Keyed ∧ ∀ r ∈ cc.replicas, r ∈ mesh
  have entryStep : ∀ cc, ∀ e ∈ src.entries, Inv cc → True →
      EntryFits cc e ∧ Inv (ccMergeEntry cc e) := by
    rintro cc e member ⟨ck, cw⟩ -
    have inside := entries _ (mem_map_of_mem member)
    refine ⟨entry_room cc ck mesh few cw _ inside, (ccMergeEntry_replicas cc e).nodup ck, ?_⟩
    intro r known
    rcases (ccMergeEntry_replicas cc e).mem known with old | rfl
    · exact cw r old
    · exact inside
  have dotStep : ∀ cc, ∀ d ∈ src.overflow, Inv cc → (ccContains cc d = true ∨ OverflowFits cc d) →
      DotFits cc d ∧ Inv (ccMergeDot cc d) := by
    rintro cc d member ⟨ck, cw⟩ spare
    have inside := overflow d member
    refine ⟨?_, (ccMergeDot_replicas cc d).nodup ck, ?_⟩
    · rcases spare with known | spare
      · exact .inl known
      · exact .inr ⟨entry_room cc ck mesh few cw _ inside, spare⟩
    · intro r known
      rcases (ccMergeDot_replicas cc d).mem known with old | rfl
      · exact cw r old
      · exact inside
  have initial : Inv dst := ⟨keyed, within⟩
  refine ⟨(Permitted.of_forall (fun _ _ => trivial) dst src.entries).strengthen initial entryStep, ?_⟩
  refine Permitted.strengthen ?_ dotStep fits
  exact List.foldlRecOn (motive := Inv) src.entries ccMergeEntry initial
    (fun cc inner e member => (entryStep cc e member inner trivial).2)

lemma removeDelta_replicas {P : Replica → Prop} (dots : List Dot) (within : ∀ d ∈ dots, P d.replica) :
    (∀ r ∈ (removeDelta dots).cc.replicas, P r) ∧ ∀ d ∈ (removeDelta dots).cc.overflow, P d.replica := by
  constructor
  · apply List.foldlRecOn (motive := fun cc : Cc => ∀ r ∈ cc.replicas, P r) dots ccAdd
    · simp [Cc.empty, Cc.replicas]
    · intro cc entries dot member r known
      rcases (ccAdd_replicas cc dot).mem known with old | rfl
      · exact entries r old
      · exact within dot member
  · intro d stored
    exact within d (removeDelta_overflow dots d stored)

variable {ι : Type*} [DecidableEq ι]

def Mesh.known (m : Mesh ι) (j : ι) : Set OrsetDelta :=
  { delta | ∃ n origin, m.issued[n]? = some (origin, delta) ∧ (origin = j ∨ (j, n) ∈ m.delivered) }

def Mesh.deltas (m : Mesh ι) : Set OrsetDelta := { delta | ∃ p ∈ m.issued, p.2 = delta }

/-- A delta reaches each replica at most once, a key has at most four live dots, a context at most 64 overflow slots. -/
def OnceWithinCapacity (ids : ι → Replica) (m : Mesh ι) : Action ι → Prop
  | .add i key => key.length ≤ orsetKeyMax → ((m.set i).dots key).length < orsetMaxDots ∧
      OverflowFits (m.set i).cc ⟨ids i, (m.nodes i).counter + 1⟩
  | .deliver i position => ∃ p ∈ m.issued[position]?, p.1 ≠ i ∧ (i, position) ∉ m.delivered ∧
      (∀ dot ∈ p.2.entry.dots, ccContains (m.set i).cc dot = true ∨
        ((m.set i).dots p.2.entry.key).length < orsetMaxDots) ∧
      OverflowMergeFits (m.set i).cc p.2.cc
  | .remove _ _ | .tick _ => True

instance (ids : ι → Replica) (m : Mesh ι) (a : Action ι) : Decidable (OnceWithinCapacity ids m a) :=
  match a with
  | .add _ key => inferInstanceAs (Decidable (key.length ≤ orsetKeyMax → _ ∧ _))
  | .deliver _ position => inferInstanceAs (Decidable (∃ p ∈ m.issued[position]?, _))
  | .remove _ _ | .tick _ => inferInstanceAs (Decidable True)

structure Mesh.Converging (ids : ι → Replica) (m : Mesh ι) : Prop where
  reflects : ∀ j, Reflects (m.set j) (m.known j)
  within : ∀ j, ∀ r ∈ (m.set j).cc.replicas, r ∈ Set.range ids
  contexts : ∀ p ∈ m.issued, (∀ r ∈ p.2.cc.replicas, r ∈ Set.range ids) ∧
    ∀ d ∈ p.2.cc.overflow, d.replica ∈ Set.range ids
  origins : ∀ p ∈ m.issued, ∀ key dot, p.2 = addDelta key dot →
    dot.replica = ids p.1 ∧ dot.counter ≤ (m.nodes p.1).counter
  unique : ∀ (n n' : Nat) o o' key key' dot, m.issued[n]? = some (o, addDelta key dot) →
    m.issued[n']? = some (o', addDelta key' dot) → n = n'
  removes : ∀ d, 0 < d.counter → Removed m.deltas d → ∃ key, Added m.deltas key d
  bounded : ∀ q ∈ m.delivered, q.2 < m.issued.length

omit [DecidableEq ι] in
lemma Mesh.known_subset (m : Mesh ι) (j : ι) : m.known j ⊆ m.deltas := by
  rintro delta ⟨n, origin, found, _⟩
  exact ⟨_, mem_of_getElem? found, rfl⟩

omit [DecidableEq ι] in
lemma Mesh.own_known (m : Mesh ι) (p : ι × OrsetDelta) (mem : p ∈ m.issued) : p.2 ∈ m.known p.1 := by
  obtain ⟨n, bound, found⟩ := List.mem_iff_getElem.mp mem
  exact ⟨n, p.1, by rw [getElem?_eq_getElem bound, found], .inl rfl⟩

variable {key : Key} {d : Dot}

lemma Added.mono {known known' : Set OrsetDelta} (subset : known ⊆ known') (added : Added known key d) :
    Added known' key d := by
  obtain ⟨delta, mem, rest⟩ := added
  exact ⟨delta, subset mem, rest⟩

lemma Removed.mono {known known' : Set OrsetDelta} (subset : known ⊆ known') (removed : Removed known d) :
    Removed known' d := by
  obtain ⟨delta, mem, rest⟩ := removed
  exact ⟨delta, subset mem, rest⟩

variable {delta : OrsetDelta}

lemma Shape.eq_addDelta (shape : Shape delta) (entry : delta.hasEntry = true) (named : delta.entry.key = key)
    (stored : d ∈ delta.entry.dots) : delta = addDelta key d := by
  cases shape with
  | add key' dot _ =>
    have same : d = dot := by simpa [addDelta] using stored
    have keys : key' = key := by simpa [addDelta] using named
    rw [same, keys]
  | remove dots => cases entry

variable {ids : ι → Replica} {m : Mesh ι}

omit [DecidableEq ι] in
lemma Mesh.Converging.shape (c : m.Converging ids) (p : ι × OrsetDelta) (mem : p ∈ m.issued) : Shape p.2 :=
  (c.reflects p.1).shaped _ (m.own_known p mem)

omit [DecidableEq ι] in
lemma Mesh.Converging.added_origin (c : m.Converging ids) (added : Added m.deltas key d) :
    ∃ o, d.replica = ids o ∧ d.counter ≤ (m.nodes o).counter := by
  obtain ⟨delta, ⟨p, mem, rfl⟩, entry, named, stored⟩ := added
  exact ⟨p.1, c.origins p mem key d ((c.shape p mem).eq_addDelta entry named stored)⟩

omit [DecidableEq ι] in
lemma Mesh.Converging.keys_unique (c : m.Converging ids) (first : Added m.deltas k d)
    (second : Added m.deltas k' d) : k = k' := by
  obtain ⟨_, ⟨p, mem, rfl⟩, entry, named, stored⟩ := first
  obtain ⟨_, ⟨q, member', rfl⟩, entry', named', stored'⟩ := second
  have left := (c.shape p mem).eq_addDelta entry named stored
  have right := (c.shape q member').eq_addDelta entry' named' stored'
  obtain ⟨n, bound, found⟩ := List.mem_iff_getElem.mp mem
  obtain ⟨n', bound', found'⟩ := List.mem_iff_getElem.mp member'
  have same : n = n' := c.unique n n' p.1 q.1 k k' d (by rw [getElem?_eq_getElem bound, found, ← left])
    (by rw [getElem?_eq_getElem bound', found', ← right])
  subst same
  rw [found] at found'
  rw [← named, found', named']

omit [DecidableEq ι] in
lemma Mesh.Converging.fresh (distinct : Function.Injective ids) (c : m.Converging ids) (i : ι) :
    ¬ Observed m.deltas ⟨ids i, (m.nodes i).counter + 1⟩ := by
  have unused : ∀ key, ¬ Added m.deltas key ⟨ids i, (m.nodes i).counter + 1⟩ := by
    intro key added
    obtain ⟨o, replica, counter⟩ := c.added_origin added
    have same : i = o := distinct replica
    subst same
    dsimp only at counter
    omega
  rintro (⟨key, added⟩ | removed)
  · exact unused key added
  · obtain ⟨key, added⟩ := c.removes _ (Nat.succ_pos _) removed
    exact unused key added

omit [DecidableEq ι] in
lemma getElem?_snoc {issued : List (ι × OrsetDelta)} {n : Nat} {p q : ι × OrsetDelta} :
    (issued ++ [q])[n]? = some p ↔ issued[n]? = some p ∨ (n = issued.length ∧ p = q) := by
  grind

lemma mem_ite_insert {x : OrsetDelta} {known : Set OrsetDelta} {j : ι} :
    x ∈ (if j = i then insert delta known else known) ↔ (j = i ∧ x = delta) ∨ x ∈ known := by
  split_ifs with same <;> simp [same]

variable {m m' : Mesh ι}

lemma known_issue (bounded : ∀ q ∈ m.delivered, q.2 < m.issued.length)
    (issued : m'.issued = m.issued ++ [(i, delta)]) (delivered : m'.delivered = m.delivered) (j : ι) :
    m'.known j = if j = i then insert delta (m.known j) else m.known j := by
  ext x
  rw [mem_ite_insert]
  simp only [Mesh.known, issued, getElem?_snoc, delivered, Set.mem_ofPred_eq]
  constructor
  · rintro ⟨n, origin, found | ⟨rfl, new⟩, seen⟩
    · exact .inr ⟨n, origin, found, seen⟩
    · obtain ⟨rfl, rfl⟩ := Prod.mk.inj new
      rcases seen with rfl | arrived
      · exact .inl ⟨rfl, rfl⟩
      · exact absurd (bounded _ arrived) (lt_irrefl _)
  · rintro (⟨rfl, rfl⟩ | ⟨n, origin, found, seen⟩)
    · exact ⟨m.issued.length, j, .inr ⟨rfl, rfl⟩, .inl rfl⟩
    · exact ⟨n, origin, .inl found, seen⟩

lemma known_deliver {position : Nat}
    (found : m.issued[position]? = some (origin, delta)) (issued : m'.issued = m.issued)
    (delivered : m'.delivered = m.delivered ++ [(i, position)]) (j : ι) :
    m'.known j = if j = i then insert delta (m.known j) else m.known j := by
  ext x
  rw [mem_ite_insert]
  simp only [Mesh.known, issued, delivered, Set.mem_ofPred_eq, mem_append, mem_singleton, Prod.mk.injEq]
  constructor
  · rintro ⟨n, o, at_, own | arrived | ⟨rfl, rfl⟩⟩
    · exact .inr ⟨n, o, at_, .inl own⟩
    · exact .inr ⟨n, o, at_, .inr arrived⟩
    · rw [found] at at_
      exact .inl ⟨rfl, (Prod.mk.inj (Option.some.inj at_)).2.symm⟩
  · rintro (⟨rfl, rfl⟩ | ⟨n, o, at_, own | arrived⟩)
    · exact ⟨position, origin, found, .inr (.inr ⟨rfl, rfl⟩)⟩
    · exact ⟨n, o, at_, .inl own⟩
    · exact ⟨n, o, at_, .inr (.inl arrived)⟩

omit [DecidableEq ι] in
lemma Mesh.init_converging (ids : ι → Replica) (caps : ι → Nat) : (Mesh.init caps).Converging ids where
  reflects j := by
    have nothing : (Mesh.init caps).known j = ∅ := by
      ext delta
      simp [Mesh.known, Mesh.init]
    rw [nothing]
    exact reflects_init (caps j)
  within j r mem := by cases mem
  contexts p mem := by cases mem
  origins p mem := by cases mem
  unique n n' o o' key key' dot found := by simp [Mesh.init] at found
  removes d _ removed := by
    obtain ⟨_, ⟨p, mem, _⟩, _⟩ := removed
    cases mem
  bounded q mem := by cases mem

lemma reflects_extend (before : ∀ j, Reflects (m.set j) (m.known j))
    (learnt : Reflects (m'.set i) (insert delta (m.known i))) (others : ∀ j, j ≠ i → m'.set j = m.set j)
    (knows : ∀ j, m'.known j = if j = i then insert delta (m.known j) else m.known j) (j : ι) :
    Reflects (m'.set j) (m'.known j) := by
  rw [knows]
  by_cases same : j = i
  · subst same
    rw [if_pos rfl]
    exact learnt
  · rw [if_neg same, others j same]
    exact before j

omit [DecidableEq ι] in
lemma deltas_issue (issued : m'.issued = m.issued ++ [(i, delta)]) : m'.deltas = insert delta m.deltas := by
  ext x
  simp only [Mesh.deltas, issued, Set.mem_ofPred_eq, mem_append, mem_singleton, Set.mem_insert_iff]
  constructor
  · rintro ⟨p, old | rfl, rfl⟩
    · exact .inr ⟨p, old, rfl⟩
    · exact .inl rfl
  · rintro (rfl | ⟨p, old, rfl⟩)
    · exact ⟨(i, x), .inr rfl, rfl⟩
    · exact ⟨p, .inl old, rfl⟩

omit [DecidableEq ι] in
lemma unique_issue (unique : ∀ (n n' : Nat) o o' key key' dot, issued[n]? = some (o, addDelta key dot) →
      issued[n']? = some (o', addDelta key' dot) → n = n')
    (fresh : ∀ key dot, delta = addDelta key dot → ∀ p ∈ issued, ∀ key', p.2 ≠ addDelta key' dot) (n n' : Nat)
    (o o' : ι) (key key' : Key) (dot : Dot) (first : (issued ++ [(i, delta)])[n]? = some (o, addDelta key dot))
    (second : (issued ++ [(i, delta)])[n']? = some (o', addDelta key' dot)) : n = n' := by
  rcases getElem?_snoc.mp first with old | ⟨at_, new⟩
  · rcases getElem?_snoc.mp second with old' | ⟨at', new'⟩
    · exact unique n n' o o' key key' dot old old'
    · exact absurd rfl (fresh key' dot (Prod.mk.inj new').2.symm _ (mem_of_getElem? old) key)
  · rcases getElem?_snoc.mp second with old' | ⟨at', new'⟩
    · exact absurd rfl (fresh key dot (Prod.mk.inj new).2.symm _ (mem_of_getElem? old') key')
    · rw [at_, at']

lemma Mesh.Converging.issue (c : m.Converging ids) (i : ι) (delta : OrsetDelta)
    (learnt : Reflects (m'.set i) (insert delta (m.known i))) (others : ∀ j, j ≠ i → m'.set j = m.set j)
    (within : ∀ r ∈ (m'.set i).cc.replicas, r ∈ Set.range ids) (issued : m'.issued = m.issued ++ [(i, delta)])
    (delivered : m'.delivered = m.delivered) (counters : ∀ j, (m.nodes j).counter ≤ (m'.nodes j).counter)
    (context : (∀ r ∈ delta.cc.replicas, r ∈ Set.range ids) ∧ ∀ d ∈ delta.cc.overflow, d.replica ∈ Set.range ids)
    (origin : ∀ key dot, delta = addDelta key dot → dot.replica = ids i ∧ dot.counter ≤ (m'.nodes i).counter)
    (fresh : ∀ key dot, delta = addDelta key dot → ∀ p ∈ m.issued, ∀ key', p.2 ≠ addDelta key' dot)
    (removes : ∀ d, 0 < d.counter → delta.hasEntry = false → ccContains delta.cc d = true → ∃ key, Added m.deltas key d) :
    m'.Converging ids where
  reflects := reflects_extend c.reflects learnt others (known_issue c.bounded issued delivered)
  within j r mem := by
    by_cases same : j = i
    · exact within r (same ▸ mem)
    · rw [others j same] at mem
      exact c.within j r mem
  contexts := by
    rw [issued]
    exact List.forall_mem_append.mpr ⟨c.contexts, List.forall_mem_singleton.mpr context⟩
  origins p mem key dot form := by
    rw [issued, mem_append, mem_singleton] at mem
    rcases mem with old | rfl
    · obtain ⟨replica, bound⟩ := c.origins p old key dot form
      exact ⟨replica, le_trans bound (counters p.1)⟩
    · exact origin key dot form
  unique := by
    rw [issued]
    exact unique_issue c.unique fresh
  removes d pos removed := by
    rw [deltas_issue issued] at removed ⊢
    obtain ⟨x, rfl | old, noEntry, covers⟩ := removed
    · obtain ⟨key, added⟩ := removes d pos noEntry covers
      exact ⟨key, added.mono (Set.subset_insert _ _)⟩
    · obtain ⟨key, added⟩ := c.removes d pos ⟨x, old, noEntry, covers⟩
      exact ⟨key, added.mono (Set.subset_insert _ _)⟩
  bounded q mem := by
    rw [delivered] at mem
    rw [issued, length_append]
    exact Nat.lt_add_right _ (c.bounded q mem)

lemma Reflects.learn_nothing {set : Orset} {known : Set OrsetDelta} (r : Reflects set known) :
    Reflects set (insert (removeDelta []) known) where
  toWellFormed := r.toWellFormed
  shaped := r.shaped_insert (Shape.remove [] (by simp) (by simp))
  live key d := by
    have unremoved : Removed (insert (removeDelta []) known) d ↔ Removed known d := by
      unfold Removed
      simp [removeDelta, empty_contains]
    rw [r.live, added_insert_remove, unremoved]
  context d pos := by
    rw [r.context d pos]
    unfold Observed
    simp [added_insert_remove, removed_insert_remove known [] (by simp) d pos]

def meshReplicas [Fintype ι] (ids : ι → Replica) : Finset Replica := Finset.univ.image ids

omit [DecidableEq ι] in
lemma mem_meshReplicas [Fintype ι] (ids : ι → Replica) (r : Replica) : r ∈ meshReplicas ids ↔ r ∈ Set.range ids := by
  simp [meshReplicas]

omit [DecidableEq ι] in
lemma card_meshReplicas [Fintype ι] (few : Fintype.card ι ≤ ccMaxReplicas) (ids : ι → Replica) :
    (meshReplicas ids).card ≤ ccMaxReplicas :=
  le_trans Finset.card_image_le few

omit [DecidableEq ι] in
lemma Mesh.Converging.add_fits [Fintype ι] (few : Fintype.card ι ≤ ccMaxReplicas) (c : m.Converging ids) (i : ι)
    (spare : OverflowFits (m.set i).cc ⟨ids i, (m.nodes i).counter + 1⟩) :
    CcFits (m.set i).cc ⟨ids i, (m.nodes i).counter + 1⟩ := by
  refine ⟨entry_room _ (c.reflects i).keyed (meshReplicas ids) (card_meshReplicas few ids) ?_ _ ?_, spare⟩
  · exact fun r mem => (mem_meshReplicas ids r).mpr (c.within i r mem)
  · exact (mem_meshReplicas ids _).mpr ⟨i, rfl⟩

lemma Mesh.Converging.step_add_short [Fintype ι] (few : Fintype.card ι ≤ ccMaxReplicas)
    (distinct : Function.Injective ids) (c : m.Converging ids) (i : ι) (short : key.length ≤ orsetKeyMax)
    (room : ((m.set i).dots key).length < orsetMaxDots)
    (spare : OverflowFits (m.set i).cc ⟨ids i, (m.nodes i).counter + 1⟩) :
    (m.step ids (.add i key)).Converging ids := by
  have self : (m.step ids (.add i key)).set i = (orsetAdd (m.set i) (m.nodes i).counter key (ids i)).1 := by
    rw [m.step_add_set, if_pos rfl]
  obtain ⟨_, cc, delta, _⟩ := orsetAdd_spec (c.reflects i).toWellFormed (m.nodes i).counter short (ids i)
  have fresh := c.fresh distinct i
  refine c.issue i (addDelta key ⟨ids i, (m.nodes i).counter + 1⟩) ?_ ?_ ?_
    (by simp [Mesh.step, delta]) rfl (m.step_counter_le ids _) ?_ ?_ ?_ ?_
  · rw [self]
    refine (c.reflects i).local_add short _ _ ?_ room (c.add_fits few i spare)
    rintro (⟨key', added⟩ | removed)
    · exact fresh (Or.inl ⟨key', added.mono (m.known_subset i)⟩)
    · exact fresh (Or.inr (removed.mono (m.known_subset i)))
  · intro j apart
    rw [m.step_add_set, if_neg apart]
  · intro r member
    rw [self, cc] at member
    rcases (ccAdd_replicas _ _).mem member with old | rfl
    · exact c.within i r old
    · exact ⟨i, rfl⟩
  · exact removeDelta_replicas [⟨ids i, (m.nodes i).counter + 1⟩] (by simp)
  · intro key' dot form
    rw [← (addDelta_injective form).2]
    simp [Mesh.step, delta]
  · intro key' dot form p member key'' same
    rw [← (addDelta_injective form).2] at same
    refine fresh (Or.inl ⟨key'', p.2, ⟨p, member, rfl⟩, ?_⟩)
    simp [same, addDelta]
  · intro d _ noEntry
    cases noEntry

lemma Mesh.Converging.step_add_long (c : m.Converging ids) (i : ι) (long : ¬ key.length ≤ orsetKeyMax) :
    (m.step ids (.add i key)).Converging ids := by
  have unchanged := orsetAdd_long (m.set i) long (m.nodes i).counter (ids i)
  have same (j : ι) : (m.step ids (.add i key)).set j = m.set j := by
    rw [m.step_add_set, unchanged]
    split
    next self => rw [self]
    next => rfl
  refine c.issue i (removeDelta []) ?_ (fun j _ => same j) ?_ (by simp [Mesh.step, unchanged]) rfl
    (m.step_counter_le ids _) ?_ ?_ ?_ ?_
  · rw [same]
    exact (c.reflects i).learn_nothing
  · rw [same]
    exact c.within i
  · exact removeDelta_replicas [] (by simp)
  · exact fun key' dot form => absurd form.symm (addDelta_ne_removeDelta _ _ _)
  · exact fun key' dot form => absurd form.symm (addDelta_ne_removeDelta _ _ _)
  · intro d _ _ covers
    cases covers

lemma Mesh.Converging.step_add [Fintype ι] (few : Fintype.card ι ≤ ccMaxReplicas) (distinct : Function.Injective ids)
    (c : m.Converging ids) (i : ι) (key : Key) (allowed : OnceWithinCapacity ids m (.add i key)) :
    (m.step ids (.add i key)).Converging ids := by
  by_cases short : key.length ≤ orsetKeyMax
  · obtain ⟨room, spare⟩ := allowed short
    exact c.step_add_short few distinct i short room spare
  · exact c.step_add_long i short

lemma Mesh.Converging.step_remove (c : m.Converging ids) (i : ι) (key : Key) :
    (m.step ids (.remove i key)).Converging ids := by
  obtain ⟨_, cc, delta, _⟩ := orsetRemove_spec (c.reflects i).toWellFormed key
  have self : (m.step ids (.remove i key)).set i = (orsetRemove (m.set i) key).1 := by
    rw [m.step_remove_set, if_pos rfl]
  have held : ∀ d ∈ (m.set i).dots key, Added m.deltas key d := fun d mem =>
    (((c.reflects i).live key d).mp mem).1.mono (m.known_subset i)
  refine c.issue i (removeDelta ((m.set i).dots key)) ?_ ?_ ?_ (by simp [Mesh.step, delta]) rfl
    (m.step_counter_le ids _) ?_ ?_ ?_ ?_
  · rw [self]
    apply (c.reflects i).local_remove key
    intro k k' d first second
    exact c.keys_unique (first.mono (m.known_subset i)) (second.mono (m.known_subset i))
  · intro j apart
    rw [m.step_remove_set, if_neg apart]
  · intro r mem
    rw [self, cc] at mem
    exact c.within i r mem
  · apply removeDelta_replicas _
    intro d mem
    obtain ⟨o, replica, _⟩ := c.added_origin (held d mem)
    exact ⟨o, replica.symm⟩
  · exact fun key' dot form => absurd form.symm (addDelta_ne_removeDelta _ _ _)
  · exact fun key' dot form => absurd form.symm (addDelta_ne_removeDelta _ _ _)
  · intro d pos _ covers
    have few := (c.reflects i).toWellFormed.dots_bounded key
    exact ⟨key, held d ((removeDelta_contains _ few d pos).mp covers)⟩

omit [DecidableEq ι] in
lemma Mesh.Converging.not_added (c : m.Converging ids) {position : Nat}
    (found : m.issued[position]? = some (origin, addDelta key dot)) (foreign : origin ≠ i)
    (first : (i, position) ∉ m.delivered) (other : Key) : ¬ Added (m.known i) other dot := by
  rintro ⟨x, ⟨n, o, at_, seen⟩, entry, named, stored⟩
  have form : x = addDelta other dot :=
    (c.shape _ (mem_of_getElem? at_)).eq_addDelta entry named stored
  rw [form] at at_
  have same := c.unique n position o origin other key dot at_ found
  rw [same, found] at at_
  obtain ⟨sameOrigin, _⟩ := Prod.mk.inj (Option.some.inj at_)
  rcases seen with own | arrived
  · exact foreign (sameOrigin.trans own)
  · exact first (same ▸ arrived)

lemma Mesh.Converging.step_deliver [Fintype ι] (few : Fintype.card ι ≤ ccMaxReplicas) (c : m.Converging ids) (i : ι)
    (position : Nat) (allowed : OnceWithinCapacity ids m (.deliver i position)) :
    (m.step ids (.deliver i position)).Converging ids := by
  obtain ⟨⟨origin, delta⟩, found, foreign, first, room, spare⟩ := allowed
  have found : m.issued[position]? = some (origin, delta) := found
  have mem := mem_of_getElem? found
  obtain ⟨sets, issued, delivered⟩ := Mesh.step_deliver ids m i origin position delta found
  have shape := c.shape _ mem
  obtain ⟨entries, overflow⟩ := c.contexts _ mem
  have fits : CcMergeFits (m.set i).cc delta.cc :=
    spare.mergeFits (c.reflects i).keyed (meshReplicas ids) (card_meshReplicas few ids)
      (fun r inside => (mem_meshReplicas ids r).mpr (c.within i r inside))
      (fun r inside => (mem_meshReplicas ids r).mpr (entries r inside))
      (fun d inside => (mem_meshReplicas ids _).mpr (overflow d inside))
  have learnt : Reflects (orsetApplyDelta (m.set i) delta) (insert delta (m.known i)) := by
    cases shape with
    | add key dot pos =>
      exact (c.reflects i).learn_add pos (c.not_added found foreign first) (room dot (by simp)) fits
    | remove dots size pos => exact (c.reflects i).learn_remove size pos fits
  refine ⟨reflects_extend c.reflects ?_ ?_ (known_deliver found issued delivered), ?_, ?_, ?_, ?_, ?_, ?_⟩
  · rw [sets, if_pos rfl]
    exact learnt
  · intro j apart
    rw [sets, if_neg apart]
  · intro j r inside
    rw [sets] at inside
    split at inside
    · exact ccMerge_replicas _ _ (c.within i) entries overflow r inside
    · exact c.within j r inside
  · rw [issued]
    exact c.contexts
  · rw [issued]
    intro p inside key dot form
    obtain ⟨replica, bound⟩ := c.origins p inside key dot form
    exact ⟨replica, le_trans bound (m.step_counter_le ids _ p.1)⟩
  · rw [issued]
    exact c.unique
  · have same : (m.step ids (.deliver i position)).deltas = m.deltas := by
      unfold Mesh.deltas
      rw [issued]
    rw [same]
    exact c.removes
  · intro q inside
    rw [delivered, mem_append, mem_singleton] at inside
    rw [issued]
    rcases inside with old | rfl
    · exact c.bounded q old
    · exact (List.getElem?_eq_some_iff.mp found).1

lemma Mesh.Converging.step_tick (c : m.Converging ids) (i : ι) : (m.step ids (.tick i)).Converging ids where
  reflects j := by
    rw [m.step_tick_set]
    exact c.reflects j
  within j := by
    rw [m.step_tick_set]
    exact c.within j
  contexts := c.contexts
  origins p mem key dot form := by
    obtain ⟨replica, bound⟩ := c.origins p mem key dot form
    exact ⟨replica, le_trans bound (m.step_counter_le ids (.tick i) p.1)⟩
  unique := c.unique
  removes := c.removes
  bounded := c.bounded

lemma Mesh.step_converging [Fintype ι] (few : Fintype.card ι ≤ ccMaxReplicas)
    (ids : ι → Replica) (distinct : Function.Injective ids) (m : Mesh ι) (a : Action ι)
    (c : m.Converging ids) (allowed : OnceWithinCapacity ids m a) : (m.step ids a).Converging ids := by
  cases a with
  | add i key => exact c.step_add few distinct i key allowed
  | remove i key => exact c.step_remove i key
  | deliver i position => exact c.step_deliver few i position allowed
  | tick i => exact c.step_tick i

def Mesh.AllDelivered (m : Mesh ι) : Prop :=
  ∀ i, ∀ n < m.issued.length, (m.issued.map Prod.fst)[n]? = some i ∨ (i, n) ∈ m.delivered

instance [Fintype ι] (m : Mesh ι) : Decidable m.AllDelivered :=
  inferInstanceAs (Decidable (∀ _, ∀ n < m.issued.length, _ ∨ _))

omit [DecidableEq ι] in
lemma Mesh.AllDelivered.known (all : m.AllDelivered) (i : ι) : m.known i = m.deltas := by
  apply Set.Subset.antisymm (m.known_subset i)
  rintro _ ⟨p, mem, rfl⟩
  obtain ⟨n, bound, found⟩ := List.mem_iff_getElem.mp mem
  refine ⟨n, p.1, by rw [getElem?_eq_getElem bound, found], ?_⟩
  rcases all i n bound with own | arrived
  · left
    simpa [bound, found] using own
  · exact .inr arrived

/-- When all deltas have arrived, a key is present exactly when no remove delta covers one of its add-dots. -/
theorem orset_converges [Fintype ι] (few : Fintype.card ι ≤ ccMaxReplicas) (ids : ι → Replica)
    (distinct : Function.Injective ids) (caps : ι → Nat) (actions : List (Action ι))
    (run : Permitted (OnceWithinCapacity ids) (Mesh.step ids) (Mesh.init caps) actions)
    (all : (actions.foldl (Mesh.step ids) (Mesh.init caps)).AllDelivered) (key : Key) :
    let m := actions.foldl (Mesh.step ids) (Mesh.init caps)
    (∀ i j, orsetContains (m.set i) key = orsetContains (m.set j) key) ∧
    ∀ i, orsetContains (m.set i) key = true ↔
      ∃ p ∈ m.issued, p.2.hasEntry = true ∧ p.2.entry.key = key ∧ ∃ dot ∈ p.2.entry.dots,
        ∀ q ∈ m.issued, q.2.hasEntry = false → ccContains q.2.cc dot = false := by
  intro m
  have c : m.Converging ids := run.preserves (Mesh.step_converging few ids distinct)
    (Mesh.init_converging ids caps)
  have arrived : m.AllDelivered := all
  have mem (i : ι) : orsetContains (m.set i) key = true ↔
      ∃ d, Added m.deltas key d ∧ ¬ Removed m.deltas d := by
    rw [(c.reflects i).contains key, arrived.known i]
  refine ⟨fun i j => Bool.eq_iff_iff.mpr ((mem i).trans (mem j).symm), fun i => ?_⟩
  rw [mem i]
  constructor
  · rintro ⟨d, ⟨_, ⟨p, issued, rfl⟩, entry, named, stored⟩, live⟩
    refine ⟨p, issued, entry, named, d, stored, fun q inside noEntry => ?_⟩
    rw [← Bool.not_eq_true]
    exact fun covers => live ⟨q.2, ⟨q, inside, rfl⟩, noEntry, covers⟩
  · rintro ⟨p, issued, entry, named, d, stored, free⟩
    refine ⟨d, ⟨p.2, ⟨p, issued, rfl⟩, entry, named, stored⟩, ?_⟩
    rintro ⟨_, ⟨q, inside, rfl⟩, noEntry, covers⟩
    rw [free q inside noEntry] at covers
    cases covers

/-- A key is added, removed and added again; replica 1 gets the removal before the add it cancels. -/
theorem orset_converges_overtaking :
    let m := [.add 0 [120], .remove 0 [120], .tick 0, .add 0 [120], .deliver 1 1, .deliver 1 2,
      .deliver 1 0].foldl (Mesh.step pairIds) (Mesh.init fun _ => 0)
    (∀ i j, orsetContains (m.set i) [120] = orsetContains (m.set j) [120]) ∧
    ∀ i, orsetContains (m.set i) [120] = true ↔
      ∃ p ∈ m.issued, p.2.hasEntry = true ∧ p.2.entry.key = [120] ∧ ∃ dot ∈ p.2.entry.dots,
        ∀ q ∈ m.issued, q.2.hasEntry = false → ccContains q.2.cc dot = false :=
  orset_converges (by decide) pairIds (by decide) (fun _ => 0) _ (by decide) (by decide) [120]

end LibOp.Crdt

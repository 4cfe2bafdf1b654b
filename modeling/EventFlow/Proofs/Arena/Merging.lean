import EventFlow.Proofs.Arena.Pushing
import EventFlow.Proofs.Arena.Rounds

/-!
Merging arenas. Whether a merge succeeds or fails halfway, what it leaves is well formed, and every
module that was placed keeps the modules above it (`mergeVisits_spec`).
-/

namespace EventFlow.Arena

variable {a b src : Arena} {n k l : Nat} {v : Visit} {vs : List Visit} {id m p : ModuleId}
  {ms : List ModuleId} {dep : ModuleId → ModuleId → Prop}

theorem contains_iff_above? : a.contains id = true ↔ ∃ ms, a.above? id = some ms := by
  rw [contains_iff, above?]
  cases a.index.value? id <;> simp

/-! ### Visits -/

theorem mem_visitsOf : v ∈ a.visitsOf n ↔
    v.link ∈ (a.level n).links ∧ (a.link v.link).module = some v.id ∧ v.parent = a.head n := by
  rw [visitsOf, List.mem_filterMap]
  constructor
  · rintro ⟨l, held, made⟩
    obtain ⟨id, module, rfl⟩ := Option.map_eq_some_iff.mp made
    exact ⟨held, module, rfl⟩
  · rintro ⟨held, module, parent⟩
    exact ⟨v.link, held, Option.map_eq_some_iff.mpr ⟨v.id, module, by rw [← parent]⟩⟩

def visitsAt (a : Arena) (k : Nat) : List Visit := (a.generation [0] k).flatMap a.visitsOf

theorem visits_eq : a.visits = (List.range a.levels.length).flatMap a.visitsAt := by
  rw [visits, rounds, flatten_roundsFrom, List.flatMap_assoc]
  rfl

section
variable (h : a.WellFormed none)
include h

theorem WellFormed.mem_visitsAt : v ∈ a.visitsAt k ↔
    a.index.value? v.id = some v.link ∧ v.parent = a.head (a.link v.link).owner ∧
      a.depthOf v.link = k := by
  rw [visitsAt, List.mem_flatMap]
  constructor
  · rintro ⟨n, mem, visited⟩
    obtain ⟨held, module, parent⟩ := mem_visitsOf.mp visited
    obtain ⟨-, rfl⟩ := h.held n _ held
    exact ⟨(h.index _ _).mpr module, parent, (h.mem_generation.mp mem).2⟩
  · rintro ⟨placed, parent, depth⟩
    have hung := h.lt_of_index placed
    exact ⟨_, h.mem_generation.mpr ⟨h.owner_lt hung, depth⟩,
      mem_visitsOf.mpr ⟨h.owned _ hung, (h.index _ _).mp placed, parent⟩⟩

theorem WellFormed.mem_visits : v ∈ a.visits ↔
    a.index.value? v.id = some v.link ∧ v.parent = a.head (a.link v.link).owner := by
  rw [visits_eq, List.mem_flatMap]
  constructor
  · rintro ⟨k, -, mem⟩
    obtain ⟨placed, parent, -⟩ := h.mem_visitsAt.mp mem
    exact ⟨placed, parent⟩
  · rintro ⟨placed, parent⟩
    have inside := h.depth_lt (h.owner_lt (h.lt_of_index placed))
    exact ⟨_, List.mem_range.mpr inside, h.mem_visitsAt.mpr ⟨placed, parent, rfl⟩⟩

theorem WellFormed.contains_iff_visit : a.contains id = true ↔ id ∈ a.visits.map (·.id) := by
  rw [contains_iff, List.mem_map]
  constructor
  · rintro ⟨l, placed⟩
    exact ⟨⟨a.head (a.link l).owner, id, l⟩, h.mem_visits.mpr ⟨placed, rfl⟩, rfl⟩
  · rintro ⟨v, mem, rfl⟩
    exact ⟨v.link, (h.mem_visits.mp mem).1⟩

theorem WellFormed.exists_parent (mem : v ∈ a.visitsAt k) (parent : v.parent = some p) :
    ∃ j, k = j + 1 ∧ ∃ w ∈ a.visitsAt j, w.id = p := by
  obtain ⟨placed, head, rfl⟩ := h.mem_visitsAt.mp mem
  rw [parent, Arena.head, eq_comm, Option.bind_eq_some_iff] at head
  obtain ⟨l, up, module⟩ := head
  have owner := h.owner_lt (h.lt_of_index placed)
  have depth := (h.parent owner (by simp) up).2
  exact ⟨a.depthOf l, depth, ⟨a.head (a.link l).owner, p, l⟩,
    h.mem_visitsAt.mpr ⟨(h.index p l).mpr module, rfl, rfl⟩, rfl⟩

theorem WellFormed.above_visit (mem : v ∈ a.visits) (parent : v.parent = some p) :
    ∃ ms, a.above? v.id = some ms ∧ p ∈ ms := by
  obtain ⟨placed, head⟩ := h.mem_visits.mp mem
  rw [parent, Arena.head, eq_comm, Option.bind_eq_some_iff] at head
  obtain ⟨l, up, module⟩ := head
  have above := h.above_ancestors (h.lt_of_index placed)
  exact ⟨_, h.above?_eq_some.mpr ⟨_, placed, above⟩, above.mem_of_parent up module⟩

end

/-- Every visit comes after one of its parent, unless that is among `seen`. -/
def ParentsFirst : (seen : List ModuleId) → List Visit → Prop
  | _, [] => True
  | seen, v :: vs => (∀ p ∈ v.parent, p ∈ seen) ∧ ParentsFirst (v.id :: seen) vs

theorem ParentsFirst.append {seen : List ModuleId} {ws : List Visit} (h : ParentsFirst seen vs)
    (last : ∀ w ∈ ws, ∀ p ∈ w.parent, p ∈ vs.map (·.id) ++ seen) : ParentsFirst seen (vs ++ ws) := by
  induction vs generalizing seen with
  | nil =>
    clear h
    induction ws generalizing seen with
    | nil => trivial
    | cons w ws ih =>
      obtain ⟨first, rest⟩ := List.forall_mem_cons.mp last
      exact ⟨first, ih fun u hu p hp => List.mem_cons_of_mem _ (rest u hu p hp)⟩
  | cons v vs ih =>
    refine ⟨h.1, ih h.2 fun w hw p hp => ?_⟩
    have early := last w hw p hp
    simp only [List.map_cons, List.cons_append, List.mem_cons, List.mem_append] at early ⊢
    tauto

theorem WellFormed.parentsFirst (h : a.WellFormed none) : ParentsFirst [] a.visits := by
  have upTo (n : Nat) : ParentsFirst [] ((List.range n).flatMap a.visitsAt) := by
    induction n with
    | zero => trivial
    | succ n ih =>
      rw [List.range_succ, List.flatMap_append, List.flatMap_singleton]
      refine ih.append fun v hv p hp => ?_
      obtain ⟨j, rfl, w, hw, rfl⟩ := h.exists_parent hv hp
      rw [List.append_nil]
      exact List.mem_map_of_mem (List.mem_flatMap.mpr ⟨j, by simp, hw⟩)
  exact visits_eq ▸ upTo a.levels.length

/-! ### Modules depend on those above -/

def Grounded (dep : ModuleId → ModuleId → Prop) (a : Arena) : Prop :=
  ∀ id ms, a.above? id = some ms → ∀ m ∈ ms, dep id m

structure Sound (dep : ModuleId → ModuleId → Prop) (a : Arena) : Prop where
  wellFormed : a.WellFormed none
  counted : a.Counted
  grounded : Grounded dep a

theorem sound_empty : Sound dep {} where
  wellFormed := wellFormed_empty
  counted := rfl
  grounded id ms found := by cases found

theorem Adds.above?_old (adds : Adds a b id ms) (h : a.WellFormed none)
    (placed : a.contains m = true) : b.above? m = a.above? m :=
  adds.old.above?_eq h adds.wellFormed placed

theorem Adds.sound (adds : Adds a b id ms) (h : Sound dep a) (above : ∀ m ∈ ms, dep id m) :
    Sound dep b where
  wellFormed := adds.wellFormed
  counted := adds.counted
  grounded m found there := by
    rcases (adds.contains m).mp (contains_iff_above?.mpr ⟨found, there⟩) with old | rfl
    · rw [adds.above?_old h.wellFormed old] at there
      exact h.grounded m found there
    · obtain rfl := Option.some.inj (adds.above.symm.trans there)
      exact above

theorem Sound.mono {dep' : ModuleId → ModuleId → Prop} (h : Sound dep a)
    (weaker : ∀ id m, dep id m → dep' id m) : Sound dep' a where
  wellFormed := h.wellFormed
  counted := h.counted
  grounded id ms found m mem := weaker id m (h.grounded id ms found m mem)

/-! ### Working modules in -/

/-- What working in modules leaves: what was placed keeps the modules above it. -/
structure Kept (dep : ModuleId → ModuleId → Prop) (a b : Arena) (added : List ModuleId) : Prop where
  sound : Sound dep b
  contains : ∀ m, b.contains m = true ↔ a.contains m = true ∨ m ∈ added
  above : ∀ m, a.contains m = true → b.above? m = a.above? m

theorem Kept.trans {c : Arena} {first second : List ModuleId} (h : Kept dep a b first)
    (h' : Kept dep b c second) : Kept dep a c (first ++ second) where
  sound := h'.sound
  contains m := by rw [h'.contains, h.contains, List.mem_append, or_assoc]
  above m placed :=
    (h'.above m ((h.contains m).mpr (Or.inl placed))).trans (h.above m placed)

theorem Adds.kept (adds : Adds a b id ms) (h : Sound dep a) (above : ∀ m ∈ ms, dep id m) :
    Kept dep a b [id] where
  sound := adds.sound h above
  contains m := by rw [adds.contains, List.mem_singleton]
  above _ placed := adds.above?_old h.wellFormed placed

theorem Sound.kept_pushDown (h : Sound dep a) (placed : a.contains id = true) (target : Nat) :
    Kept dep a (a.pushDown id target) [id] := by
  obtain ⟨wellFormed, counted, above⟩ := h.wellFormed.pushDown h.counted id target
  refine ⟨⟨wellFormed, counted, fun m ms found => ?_⟩, fun m => ?_, fun m _ => above m⟩
  · exact h.grounded m ms ((above m).symm.trans found)
  · rw [contains_iff_above?, above, ← contains_iff_above?, List.mem_singleton]
    exact ⟨Or.inl, fun here => here.elim (fun h => h) (fun same => same ▸ placed)⟩

theorem Sound.kept_self (h : Sound dep a) (placed : a.contains id = true) : Kept dep a a [id] where
  sound := h
  contains m := by
    rw [List.mem_singleton]
    exact ⟨Or.inl, fun here => here.elim (fun h => h) (fun same => same ▸ placed)⟩
  above _ _ := rfl

/-- Working one module in fails only if there is a circle. -/
theorem mergeOne_spec [IsTrans ModuleId dep] (h : Sound dep a) (hs : Sound dep src)
    (mem : v ∈ src.visits) (parent : ∀ p ∈ v.parent, a.contains p = true) :
    (∃ b, a.mergeOne src v = .ok b ∧ Kept dep a b [v.id]) ∨
    ((∃ e, a.mergeOne src v = .error e) ∧ ∃ m, dep m m) := by
  have reads : ∀ p ∈ v.parent, dep v.id p := by
    intro p hp
    obtain ⟨ms, above, mem⟩ := hs.wellFormed.above_visit mem hp
    exact hs.grounded _ ms above p mem
  cases placed : a.index.value? v.id with
  | some l =>
    have contained : a.contains v.id = true := contains_iff.mpr ⟨l, placed⟩
    have above : a.above? v.id = some (a.ancestors l) := by
      rw [above?, placed]
      rfl
    cases reversed : (src.descendants v.link).find? (a.ancestors l).contains with
    | some d =>
      right
      have isAbove : d ∈ a.ancestors l := by simpa using List.find?_some reversed
      obtain ⟨ms, found, isBelow⟩ := hs.wellFormed.above_descendant
        (hs.wellFormed.mem_visits.mp mem).1 (List.mem_of_find?_eq_some reversed)
      have back := hs.grounded d ms found v.id isBelow
      exact ⟨⟨.reversed d v.id, by simp only [mergeOne, placed, reversed]⟩, d,
        IsTrans.trans _ _ _ back (h.grounded _ _ above d isAbove)⟩
    | none =>
      left
      simp only [mergeOne, placed, reversed]
      split
      · split
        · exact ⟨_, rfl, h.kept_pushDown contained _⟩
        · exact ⟨a, rfl, h.kept_self contained⟩
      · exact ⟨a, rfl, h.kept_self contained⟩
  | none =>
    left
    cases top : v.parent with
    | none =>
      have adds := h.wellFormed.addTop h.counted placed
      exact ⟨_, by simp only [mergeOne, placed, top], adds.kept h (by simp)⟩
    | some p =>
      obtain ⟨l, there⟩ := contains_iff.mp (parent p top)
      obtain ⟨ms, above⟩ := contains_iff_above?.mp (parent p top)
      have adds := h.wellFormed.addBelow h.counted there above placed
      refine ⟨_, by simp only [mergeOne, placed, top, there], adds.kept h ?_⟩
      intro m hm
      rcases List.mem_cons.mp hm with rfl | higher
      · exact reads m top
      · exact IsTrans.trans _ _ _ (reads p top) (h.grounded p ms above m higher)

def taken (a src : Arena) : List Visit → List ModuleId
  | [] => []
  | v :: vs =>
    match a.mergeOne src v with
    | .error _ => []
    | .ok b => v.id :: taken b src vs

theorem mergeVisits_spec [IsTrans ModuleId dep] {seen : List ModuleId} (h : Sound dep a)
    (hs : Sound dep src) (mem : ∀ v ∈ vs, v ∈ src.visits) (first : ParentsFirst seen vs)
    (known : ∀ p ∈ seen, a.contains p = true) :
    Kept dep a (a.mergeVisits src vs).1 (a.taken src vs) ∧
    ((a.mergeVisits src vs).2 = none → a.taken src vs = vs.map (·.id)) ∧
    ∀ e, (a.mergeVisits src vs).2 = some e → ∃ m, dep m m := by
  induction vs generalizing a seen with
  | nil =>
    have same : Kept dep a a [] := ⟨h, by simp, fun _ _ => rfl⟩
    exact ⟨same, fun _ => rfl, by simp [mergeVisits]⟩
  | cons v vs ih =>
    obtain ⟨visited, rest⟩ := List.forall_mem_cons.mp mem
    rcases mergeOne_spec h hs visited fun p hp => known p (first.1 p hp) with
      ⟨b, eq, kept⟩ | ⟨⟨e, eq⟩, circle⟩
    · have known' : ∀ p ∈ v.id :: seen, b.contains p = true := by
        intro p hp
        rw [kept.contains, List.mem_singleton]
        exact (List.mem_cons.mp hp).symm.imp_left (known p)
      obtain ⟨keeps, all, circle⟩ := ih kept.sound rest first.2 known'
      rw [mergeVisits, taken, eq]
      refine ⟨kept.trans keeps, fun done => ?_, circle⟩
      rw [List.map_cons, ← all done]
    · rw [mergeVisits, taken, eq]
      exact ⟨⟨h, by simp, fun _ _ => rfl⟩, by simp, fun _ _ => circle⟩

theorem merge_spec [IsTrans ModuleId dep] (h : Sound dep a) (hs : Sound dep src) :
    Kept dep a (a.merge src).1 (a.taken src src.visits) ∧
    ((a.merge src).2 = none → a.taken src src.visits = src.visits.map (·.id)) ∧
    ∀ e, (a.merge src).2 = some e → ∃ m, dep m m :=
  mergeVisits_spec h hs (fun _ mem => mem) hs.wellFormed.parentsFirst (by simp)

/-! ### The tree of one stream -/

section
variable {key : StreamKey} {waiting left users : List (ModuleId × Tap)} {queue ids : List ModuleId}

theorem placeReaders_spec [IsTrans ModuleId dep] (h : Sound dep a) (placed : a.contains m = true)
    (reads : ∀ id ∈ ids, dep id m) (ok : placeReaders key m ids a = .ok b) :
    Kept dep a b ids := by
  induction ids generalizing a with
  | nil =>
    cases ok
    exact ⟨h, by simp, fun _ _ => rfl⟩
  | cons id ids ih =>
    obtain ⟨first, rest⟩ := List.forall_mem_cons.mp reads
    obtain ⟨l, there⟩ := contains_iff.mp placed
    obtain ⟨ms, above⟩ := contains_iff_above?.mp placed
    rw [placeReaders] at ok
    split at ok
    · cases ok
    · rename_i fresh
      rw [there] at ok
      have new : a.index.value? id = none := by
        rw [contains, Table.has, Option.not_isSome_iff_eq_none] at fresh
        exact fresh
      have kept := (h.wellFormed.addBelow h.counted there above new).kept h (by
        intro p hp
        rcases List.mem_cons.mp hp with rfl | higher
        · exact first
        · exact IsTrans.trans _ _ _ first (h.grounded m ms above p higher))
      exact kept.trans (ih kept.sound ((kept.contains m).mpr (Or.inl placed)) rest ok)

theorem grow_sound [IsTrans ModuleId dep] (h : Sound dep a)
    (placed : ∀ m ∈ queue, a.contains m = true)
    (reads : ∀ u ∈ waiting, dep u.1 (u.2.module key.producer))
    (ok : grow key a waiting queue = .ok (b, left)) : Sound dep b := by
  fun_induction grow key a waiting queue with
  | case1 a waiting =>
    cases ok
    exact h
  | case2 => cases ok
  | case3 a waiting m queue readers a' eq ih =>
    have isReader {id : ModuleId} (mem : id ∈ readers) : dep id m := by
      obtain ⟨u, hu, rfl⟩ := List.mem_map.mp ((List.mergeSort_perm _ _).mem_iff.mp mem)
      obtain ⟨listed, tap⟩ := List.mem_filter.mp hu
      have tap : u.2.module key.producer = m := by simpa using tap
      exact tap ▸ reads u listed
    have kept := placeReaders_spec h (placed m List.mem_cons_self) (fun id => isReader) eq
    refine ih kept.sound (fun p hp => ?_) (fun u hu => reads u (List.mem_of_mem_filter hu)) ok
    rw [kept.contains]
    exact (List.mem_append.mp hp).imp_left fun old => placed p (List.mem_cons_of_mem _ old)

theorem ofProducer_sound (id : ModuleId) :
    Sound dep (ofProducer id) ∧ (ofProducer id).contains id = true := by
  have wellFormed : (ofProducer id).WellFormed none :=
    wellFormed_empty.pushLink wellFormed_empty.root.1 (by simp)
  refine ⟨⟨wellFormed, rfl, fun m ms found p hp => ?_⟩, ?_⟩
  · obtain ⟨l, placed, above⟩ := wellFormed.above?_eq_some.mp found
    have top : (ofProducer id).levels.length = 1 := rfl
    have owner := wellFormed.owner_lt (wellFormed.lt_of_index placed)
    obtain rfl := above.unique (.top owner (by
      rw [top, Nat.lt_one_iff] at owner
      rw [owner]
      rfl))
    cases hp
  · rw [contains_iff]
    exact ⟨0, (value?_pushLink id).trans (if_pos rfl)⟩

theorem ofStream_sound [IsTrans ModuleId dep]
    (reads : ∀ u ∈ users, dep u.1 (u.2.module key.producer)) (ok : ofStream key users = .ok a) :
    Sound dep a := by
  have start : Sound dep (ofProducer key.producer) ∧ _ := ofProducer_sound key.producer
  rw [ofStream] at ok
  split at ok
  · cases ok
  · rename_i grown
    cases ok
    exact grow_sound start.1 (by simpa using start.2) reads grown
  · cases ok

end

end EventFlow.Arena

import EventFlow.Proofs.Arena.Merging
import EventFlow.Proofs.Arena.Sinking

/-!
Arenas and trees are built and merged alike, errors included (`Represents.merge`).
-/

namespace EventFlow.Arena

variable {a src : Arena} {n k l : Nat} {ls stack w : List Nat} {id : ModuleId}
  {t u : DependencyTree}

/-! ### Modules below a link -/

inductive Walk (a : Arena) : List Nat → List Nat → Prop where
  | nil : Walk a [] []
  | cons {n : Nat} {stack w : List Nat} (rest : Walk a ((a.below n).reverse ++ stack) w) :
      Walk a (n :: stack) (n :: w)

theorem Walk.append {stack' w' : List Nat} (first : Walk a stack w) (second : Walk a stack' w') :
    Walk a (stack ++ stack') (w ++ w') := by
  induction first with
  | nil => exact second
  | cons _ ih =>
    rw [List.append_assoc] at ih
    exact .cons ih

theorem Walk.unstack {fuel : Nat} (walk : Walk a stack w) (enough : w.length ≤ fuel) :
    a.unstack fuel stack = w := by
  induction walk generalizing fuel with
  | nil => cases fuel <;> rfl
  | cons _ ih =>
    cases fuel with
    | zero => simp at enough
    | succ fuel => rw [Arena.unstack, ih (by simpa using enough)]

theorem Walk.length_le {s : Nat} {done : List Nat} (walk : Walk a stack w) (h : a.Forks s)
    (st : a.Unstacking s done stack) : done.length + w.length ≤ a.levels.length := by
  induction walk generalizing done with
  | nil => exact st.length_le h
  | cons _ ih =>
    have rest := ih (st.step h)
    simp only [List.length_append, List.length_cons, List.length_nil] at rest ⊢
    omega

theorem Shows.row (shows : Shows a ls t) : ls.filterMap (fun l => (a.link l).module) = t.row := by
  induction shows with
  | nil => rfl
  | link module _ _ _ ih =>
    rw [List.filterMap_cons, module, ih, DependencyTree.row]
    cases ‹Option ModuleId› <;> rfl

theorem Shows.walk (shows : Shows a ls t) :
    ∃ w, Walk a (ls.filterMap fun l => (a.link l).next).reverse w ∧ w.flatMap a.row = t.deep := by
  induction shows with
  | nil => exact ⟨[], .nil, rfl⟩
  | @link l ls m below rest _ inner _ ihInner ihOuter =>
    obtain ⟨w, walk, deep⟩ := ihOuter
    obtain ⟨w', walk', deep'⟩ := ihInner
    rw [DependencyTree.deep, List.filterMap_cons, ← deep, ← deep']
    cases next : (a.link l).next with
    | none =>
      rw [under_of_none next] at inner walk'
      cases inner
      cases walk'
      exact ⟨w, walk, by simp [DependencyTree.row]⟩
    | some n =>
      rw [under_of_next next] at inner walk'
      have last : Walk a [n] (n :: w') := by
        refine .cons ?_
        rwa [List.append_nil]
      refine ⟨w ++ n :: w', ?_, ?_⟩
      · simpa using walk.append last
      · rw [List.flatMap_append, List.flatMap_cons, Arena.row, inner.row]

theorem Shows.descendants (h : a.WellFormed none) (shows : Shows a (a.under l) t) :
    a.descendants l = t.descendants := by
  rw [Arena.descendants]
  cases next : (a.link l).next with
  | none =>
    rw [under_of_none next] at shows
    cases shows
    rfl
  | some s =>
    rw [under_of_next next] at shows
    obtain ⟨w, walk, deep⟩ := shows.walk
    have inside := (h.down l s next).1
    have whole : Walk a [s] (s :: w) := .cons (by rwa [List.append_nil])
    have short := whole.length_le (h.forks inside) unstacking_start
    have order : a.subtree s = s :: w := whole.unstack (by simp at short ⊢; omega)
    rw [DependencyTree.descendants, ← deep, ← shows.row]
    dsimp only
    rw [order, List.flatMap_cons]
    rfl

/-! ### Visits -/

/-- The two visits are of the same module, below the same one and with the same tree below it. -/
structure Matches (a : Arena) (v : Visit) (w : DependencyTree.Visit) : Prop where
  parent : v.parent = w.parent
  id : v.id = w.id
  below : Shows a (a.under v.link) w.below

def linkVisits (a : Arena) (p : Option ModuleId) (ls : List Nat) : Nat → List Visit
  | 0 => ls.filterMap fun l => (a.link l).module.map (⟨p, ·, l⟩)
  | k + 1 => (a.generation (ls.filterMap fun l => (a.link l).next) k).flatMap a.visitsOf

theorem generation_append {ns ns' : List Nat} :
    a.generation (ns ++ ns') k = a.generation ns k ++ a.generation ns' k := by
  induction k generalizing ns ns' with
  | zero => rfl
  | succ k ih => rw [generation, generation, generation, List.flatMap_append, ih]

theorem generation_visits :
    (a.generation [n] k).flatMap a.visitsOf = a.linkVisits (a.head n) (a.level n).links k := by
  cases k with
  | zero => exact List.flatMap_singleton ..
  | succ k =>
    rw [generation, List.flatMap_singleton]
    rfl

theorem Shows.visits (h : a.WellFormed none) (shows : Shows a ls t) (p : Option ModuleId) :
    List.Forall₂ (Matches a) (a.linkVisits p ls k) (t.visitsAt k p) := by
  induction shows generalizing k p with
  | nil =>
    cases k with
    | zero => exact .nil
    | succ k =>
      rw [linkVisits, List.filterMap_nil, generation_nil]
      exact .nil
  | @link l ls m below rest module inner _ ihInner ihOuter =>
    cases k with
    | zero =>
      have others := ihOuter (k := 0) p
      rw [linkVisits, List.filterMap_cons, module, DependencyTree.visitsAt]
      cases m with
      | none => exact others
      | some id => exact .cons ⟨rfl, rfl, inner⟩ others
    | succ k =>
      have others := ihOuter (k := k + 1) p
      have first := ihInner (k := k) m
      rw [linkVisits] at others ⊢
      rw [List.filterMap_cons, DependencyTree.visitsAt]
      cases next : (a.link l).next with
      | none =>
        rw [under_of_none next] at inner
        cases inner
        cases k <;> exact others
      | some n =>
        have head : a.head n = m := by
          rw [Arena.head, (h.down l n next).2.2.2]
          exact module
        rw [under_of_next next, ← head, ← generation_visits] at first
        dsimp only
        rw [← List.singleton_append, generation_append, List.flatMap_append, ← head]
        exact List.rel_append first others

theorem flatMap_range_eq {α : Type} {f : Nat → List α} {m : Nat} (shorter : n ≤ m)
    (empty : ∀ k, n ≤ k → f k = []) : (List.range m).flatMap f = (List.range n).flatMap f := by
  obtain ⟨j, rfl⟩ := Nat.exists_eq_add_of_le shorter
  have rest : ((List.range j).map (n + ·)).flatMap f = [] := by
    rw [List.flatMap_eq_nil_iff]
    intro k mem
    obtain ⟨i, -, rfl⟩ := List.mem_map.mp mem
    exact empty _ (Nat.le_add_right n i)
  rw [List.range_add, List.flatMap_append, rest, List.append_nil]

theorem visitsAt_eq_nil {p : Option ModuleId} (deep : t.height ≤ k) : t.visitsAt k p = [] := by
  induction t generalizing k p with
  | nil => cases k <;> rfl
  | link m below rest ihBelow ihRest =>
    rw [DependencyTree.height] at deep
    cases k with
    | zero => omega
    | succ k =>
      rw [DependencyTree.visitsAt, ihBelow (by omega), ihRest (by omega)]
      rfl

theorem Represents.visits (r : Represents a t) :
    List.Forall₂ (Matches a) a.visits t.visits := by
  have h := r.wellFormed
  have top : a.head 0 = none := by
    rw [Arena.head, h.root.2.2]
    rfl
  have deep (k : Nat) (hk : a.levels.length ≤ k) : a.visitsAt k = [] := by
    refine List.eq_nil_iff_forall_not_mem.mpr fun v mem => ?_
    obtain ⟨placed, -, depth⟩ := h.mem_visitsAt.mp mem
    have shallow := h.depth_lt (h.owner_lt (h.lt_of_index placed))
    rw [depthOf] at depth
    omega
  have each (k : Nat) : List.Forall₂ (Matches a) (a.visitsAt k) (t.visitsAt k none) := by
    rw [Arena.visitsAt, generation_visits, top]
    exact r.shows.visits h none
  -- Both sides are padded to the same number of rounds.
  rw [visits_eq, DependencyTree.visits, ← flatMap_range_eq (Nat.le_max_left _ t.height) deep,
    ← flatMap_range_eq (Nat.le_max_right a.levels.length _) fun k hk => visitsAt_eq_nil hk]
  exact List.rel_flatMap (R := Eq) (List.forall₂_refl _) fun i j same => same ▸ each i

/-! ### Merging -/

inductive Agree : Except TreeError Arena → Except TreeError DependencyTree → Prop where
  | ok {a : Arena} {t : DependencyTree} (r : Represents a t) : Agree (.ok a) (.ok t)
  | error (e : TreeError) : Agree (.error e) (.error e)

theorem Represents.mergeOne {v : Visit} {w : DependencyTree.Visit} (r : Represents a t)
    (hs : src.WellFormed none) (same : Matches src v w) :
    Agree (a.mergeOne src v) (t.mergeOne w) := by
  have depth : a.depth? = t.depth? := funext r.depth?
  have above := r.above? v.id
  rw [Arena.mergeOne, DependencyTree.mergeOne, ← same.id, ← same.parent,
    same.below.descendants hs, ← depth]
  cases placed : a.index.value? v.id with
  | some l =>
    rw [Arena.above?, placed, Option.map_some, eq_comm, Option.map_eq_some_iff] at above
    obtain ⟨found, there, eq⟩ := above
    have tests : (a.ancestors l).contains = found.contains := by
      rw [← eq]
      exact funext fun _ => List.contains_reverse
    have low : a.depth? v.id = some (a.depthOf l) := by
      rw [Arena.depth?, placed]
      rfl
    rw [there, low]
    dsimp only
    rw [tests]
    cases w.below.descendants.find? found.contains with
    | some d => exact .error _
    | none =>
      cases v.parent.bind a.depth? with
      | none => exact .ok r
      | some high =>
        dsimp only
        split
        · rename_i higher
          exact .ok (r.pushDown placed (Nat.lt_succ_of_le higher))
        · exact .ok r
  | none =>
    rw [Arena.above?, placed, Option.map_none, eq_comm, Option.map_eq_none_iff] at above
    rw [above]
    cases v.parent with
    | none => exact .ok (r.addTop placed)
    | some p =>
      dsimp only
      cases there : a.index.value? p with
      | none =>
        have absent : ¬ t.contains p = true := by
          rw [DependencyTree.contains_iff]
          exact r.index_none.mp there
        rw [if_neg absent]
        exact .error _
      | some l =>
        have present : t.contains p = true := by
          rw [DependencyTree.contains_iff, ← r.contains, contains_iff]
          exact ⟨l, there⟩
        rw [if_pos present]
        exact .ok (r.addBelow there placed)

theorem Represents.mergeVisits {vs : List Visit} {ws : List DependencyTree.Visit}
    (r : Represents a t) (hs : src.WellFormed none) (same : List.Forall₂ (Matches src) vs ws) :
    Represents (a.mergeVisits src vs).1 (t.mergeVisits ws).1 ∧
      (a.mergeVisits src vs).2 = (t.mergeVisits ws).2 := by
  induction same generalizing a t with
  | nil => exact ⟨r, rfl⟩
  | @cons v w _ _ first _ ih =>
    have agree := r.mergeOne hs first
    rw [Arena.mergeVisits, DependencyTree.mergeVisits]
    generalize a.mergeOne src v = one at agree ⊢
    generalize t.mergeOne w = one' at agree ⊢
    cases agree with
    | ok r => exact ih r
    | error e => exact ⟨r, rfl⟩

/-- Merging gives arenas and trees that agree, and the same errors. -/
theorem Represents.merge (r : Represents a t) (s : Represents src u) :
    Represents (a.merge src).1 (t.merge u).1 ∧ (a.merge src).2 = (t.merge u).2 :=
  r.mergeVisits s.wellFormed s.visits

/-! ### The tree of one stream -/

section
variable {key : StreamKey} {users : List (ModuleId × Tap)}

theorem Represents.contains_eq (r : Represents a t) (id : ModuleId) :
    a.contains id = t.contains id := by
  rw [Bool.eq_iff_iff, r.contains, DependencyTree.contains_iff]

theorem Represents.placeReaders (r : Represents a t) (key : StreamKey) (m : ModuleId)
    (ids : List ModuleId) :
    Agree (Arena.placeReaders key m ids a) (DependencyTree.placeReaders key m ids t) := by
  induction ids generalizing a t with
  | nil => exact .ok r
  | cons id ids ih =>
    rw [Arena.placeReaders, DependencyTree.placeReaders, r.contains_eq]
    split
    · exact .error _
    · rename_i fresh
      rw [DependencyTree.contains_iff] at fresh
      cases there : a.index.value? m with
      | none =>
        dsimp only
        rw [DependencyTree.addBelow_of_not_mem (r.index_none.mp there)]
        exact ih r
      | some l => exact ih (r.addBelow there (r.index_none.mpr fresh))

inductive AgreeGrown : Except TreeError (Arena × List (ModuleId × Tap)) →
    Except TreeError (DependencyTree × List (ModuleId × Tap)) → Prop where
  | ok {a : Arena} {t : DependencyTree} {left : List (ModuleId × Tap)} (r : Represents a t) :
      AgreeGrown (.ok (a, left)) (.ok (t, left))
  | error (e : TreeError) : AgreeGrown (.error e) (.error e)

theorem Represents.grow (r : Represents a t) (key : StreamKey) (waiting : List (ModuleId × Tap))
    (queue : List ModuleId) :
    AgreeGrown (Arena.grow key a waiting queue) (DependencyTree.grow key t waiting queue) := by
  fun_induction Arena.grow key a waiting queue generalizing t with
  | case1 a waiting =>
    rw [DependencyTree.grow]
    exact .ok r
  | case2 a waiting m queue readers e =>
    rename_i failed
    have agree := r.placeReaders key m readers
    rw [failed] at agree
    simp only [readers] at agree
    rw [DependencyTree.grow]
    generalize DependencyTree.placeReaders key m _ t = placed' at agree ⊢
    cases agree
    exact .error e
  | case3 a waiting m queue readers a' placed =>
    rename_i ih
    have agree := r.placeReaders key m readers
    rw [placed] at agree
    simp only [readers] at agree ih ⊢
    rw [DependencyTree.grow]
    generalize DependencyTree.placeReaders key m _ t = placed' at agree ⊢
    cases agree with
    | ok r => exact ih r

/-- The tree of a stream is built alike. -/
theorem ofStream_agree : Agree (ofStream key users) (DependencyTree.ofStream key users) := by
  have agree := (represents_ofProducer key.producer).grow key users [key.producer]
  rw [ofStream, DependencyTree.ofStream]
  generalize Arena.grow key _ users [key.producer] = grown at agree ⊢
  generalize DependencyTree.grow key _ users [key.producer] = grown' at agree ⊢
  cases agree with
  | error e => exact .error e
  | @ok a t left r =>
    cases left with
    | nil => exact .ok r
    | cons u left =>
      have contains : a.contains = t.contains := funext r.contains_eq
      simp only [contains]
      exact .error _

end

end EventFlow.Arena

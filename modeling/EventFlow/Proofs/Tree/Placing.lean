import EventFlow.DependencyTree
import EventFlow.Proofs.Table
import Mathlib.Data.List.Perm.Basic

/-!
What placing modules does to a dependency tree: which modules it holds, and that every module keeps
depending on those above it (`Grounded`).
-/

namespace EventFlow.DependencyTree

variable {t : DependencyTree}

section
variable {dep : ModuleId → ModuleId → Prop} {above : List ModuleId} {id parent : ModuleId}

/-! ### Trees side by side as a list -/

theorem toList_ofList (l : List (Option ModuleId × DependencyTree)) : (ofList l).toList = l := by
  induction l with
  | nil => rfl
  | cons e l ih =>
    obtain ⟨m, below⟩ := e
    rw [ofList, toList, ih]

theorem modules_eq_flatMap (t : DependencyTree) :
    t.modules = t.toList.flatMap fun e => e.1.toList ++ e.2.modules := by
  induction t with
  | nil => rfl
  | link m below rest _ ih => rw [modules, toList, List.flatMap_cons, ← ih]

theorem contains_iff : t.contains id = true ↔ id ∈ t.modules := by simp [contains]

theorem toList_addTop (id : ModuleId) (t : DependencyTree) :
    ((t.addTop id).toList).Perm ((some id, nil) :: t.toList) := by
  rw [addTop, toList_ofList]
  exact (List.mergeSort_perm _ _).trans (List.perm_append_singleton _ _)

theorem modules_addTop (id : ModuleId) (t : DependencyTree) :
    ((t.addTop id).modules).Perm (id :: t.modules) := by
  rw [modules_eq_flatMap, modules_eq_flatMap t]
  exact (toList_addTop id t).flatMap_right _

theorem addBelow_of_not_mem (h : parent ∉ t.modules) : t.addBelow parent id = t := by
  induction t with
  | nil => rfl
  | link m below rest ihBelow ihRest =>
    simp only [modules, List.mem_append, Option.mem_toList, not_or] at h
    obtain ⟨⟨head, notBelow⟩, notRest⟩ := h
    have differs : m ≠ some parent := head
    rw [addBelow, if_neg differs, ihBelow notBelow, ihRest notRest]

theorem modules_addBelow (nodup : t.modules.Nodup) (h : parent ∈ t.modules) :
    ((t.addBelow parent id).modules).Perm (id :: t.modules) := by
  induction t with
  | nil => cases h
  | link m below rest ihBelow ihRest =>
    simp only [modules] at nodup h ⊢
    obtain ⟨left, nodupRest, apart⟩ := List.nodup_append.mp nodup
    obtain ⟨-, nodupBelow, -⟩ := List.nodup_append.mp left
    by_cases here : m = some parent
    · rw [addBelow, if_pos here, modules]
      have grown := (modules_addTop id below).append_left m.toList
      exact (grown.trans List.perm_middle).append_right rest.modules
    · rw [addBelow, if_neg here, modules]
      rcases List.mem_append.mp h with h | inRest
      · have inBelow : parent ∈ below.modules := by
          rcases List.mem_append.mp h with head | inBelow
          · exact absurd (Option.mem_toList.mp head) here
          · exact inBelow
        have notRest : parent ∉ rest.modules := fun mem => apart _ h _ mem rfl
        rw [addBelow_of_not_mem notRest]
        have grown := (ihBelow nodupBelow inBelow).append_left m.toList
        exact (grown.trans List.perm_middle).append_right rest.modules
      · have notBelow : parent ∉ below.modules := fun mem =>
          apart _ (List.mem_append_right _ mem) _ inRest rfl
        rw [addBelow_of_not_mem notBelow]
        exact ((ihRest nodupRest inRest).append_left _).trans List.perm_middle

theorem modules_chain (id : ModuleId) (below : DependencyTree) (n : Nat) :
    (chain id below n).modules = id :: below.modules := by
  induction n with
  | zero => simp [chain, modules]
  | succ n ih => simp [chain, modules, ih]

theorem modules_pushFrom (id : ModuleId) (target d : Nat) (t : DependencyTree) :
    (pushFrom id target d t).modules = t.modules := by
  induction t generalizing d with
  | nil => rfl
  | link m below rest ihBelow ihRest =>
    rw [pushFrom]
    split
    · rename_i here
      split
      · simp [modules, modules_chain, here]
      · rfl
    · rw [modules, ihBelow, ihRest, modules]

theorem modules_pushDown (t : DependencyTree) (id : ModuleId) (target : Nat) :
    (t.pushDown id target).modules = t.modules :=
  modules_pushFrom id target 0 t

/-! ### Modules above -/

/-- Every module depends on all modules above it, `above` included. -/
def Grounded (dep : ModuleId → ModuleId → Prop) : List ModuleId → DependencyTree → Prop
  | _, nil => True
  | above, link m below rest =>
    (∀ id ∈ m, ∀ a ∈ above, dep id a) ∧ Grounded dep (m.toList ++ above) below ∧
      Grounded dep above rest

theorem grounded_iff : Grounded dep above t ↔ ∀ e ∈ t.toList,
    (∀ id ∈ e.1, ∀ a ∈ above, dep id a) ∧ Grounded dep (e.1.toList ++ above) e.2 := by
  induction t with
  | nil => simp [Grounded, toList]
  | link m below rest _ ih => rw [Grounded, toList, List.forall_mem_cons, ih, and_assoc]

theorem Grounded.mono {dep' : ModuleId → ModuleId → Prop} (weaker : ∀ id a, dep id a → dep' id a)
    (h : Grounded dep above t) : Grounded dep' above t := by
  induction t generalizing above with
  | nil => trivial
  | link m below rest ihBelow ihRest =>
    exact ⟨fun id top a ha => weaker id a (h.1 id top a ha), ihBelow h.2.1, ihRest h.2.2⟩

theorem Grounded.dep_of_mem (h : Grounded dep above t) (mem : id ∈ t.modules) :
    ∀ a ∈ above, dep id a := by
  induction t generalizing above with
  | nil => cases mem
  | link m below rest ihBelow ihRest =>
    obtain ⟨head, inner, tail⟩ := h
    intro a ha
    simp only [modules, List.mem_append, Option.mem_toList] at mem
    rcases mem with (here | inBelow) | inRest
    · exact head id here a ha
    · exact ihBelow inner inBelow a (List.mem_append_right _ ha)
    · exact ihRest tail inRest a ha

theorem grounded_addTop (h : Grounded dep above t) (own : ∀ a ∈ above, dep id a) :
    Grounded dep above (t.addTop id) := by
  rw [grounded_iff] at h ⊢
  intro e he
  rcases List.mem_cons.mp ((toList_addTop id t).mem_iff.mp he) with rfl | he
  · refine ⟨fun m hm => ?_, trivial⟩
    obtain rfl := Option.mem_some_iff.mp hm
    exact own
  · exact h e he

theorem grounded_addBelow [IsTrans ModuleId dep] (own : dep id parent)
    (h : Grounded dep above t) : Grounded dep above (t.addBelow parent id) := by
  induction t generalizing above with
  | nil => trivial
  | link m below rest ihBelow ihRest =>
    obtain ⟨head, inner, tail⟩ := h
    rw [addBelow]
    split
    · rename_i here
      subst here
      refine ⟨head, grounded_addTop inner fun a ha => ?_, tail⟩
      rcases List.mem_append.mp ha with here | ha
      · rw [Option.toList_some, List.mem_singleton] at here
        exact here ▸ own
      · exact IsTrans.trans _ _ _ own (head parent rfl a ha)
    · exact ⟨head, ihBelow inner, ihRest tail⟩

theorem grounded_chain {below : DependencyTree} (own : ∀ a ∈ above, dep id a)
    (h : Grounded dep (id :: above) below) (n : Nat) : Grounded dep above (chain id below n) := by
  induction n with
  | zero =>
    refine ⟨fun m hm => ?_, h, trivial⟩
    obtain rfl := Option.mem_some_iff.mp hm
    exact own
  | succ n ih => exact ⟨by simp, ih, trivial⟩

theorem grounded_pushFrom (target d : Nat) (h : Grounded dep above t) :
    Grounded dep above (pushFrom id target d t) := by
  induction t generalizing above d with
  | nil => trivial
  | link m below rest ihBelow ihRest =>
    obtain ⟨head, inner, tail⟩ := h
    rw [pushFrom]
    split
    · rename_i here
      subst here
      split
      · exact ⟨by simp, grounded_chain (head id rfl) inner _, tail⟩
      · exact ⟨head, inner, tail⟩
    · exact ⟨head, ihBelow _ inner, ihRest _ tail⟩

theorem above?_eq_none_iff : above? id t = none ↔ id ∉ t.modules := by
  induction t with
  | nil => simp [above?, modules]
  | link m below rest ihBelow ihRest =>
    rw [above?]
    split
    · rename_i here
      simp [modules, here]
    · rename_i differs
      simp only [Option.or_eq_none_iff, Option.map_eq_none_iff, ihBelow, ihRest, modules,
        List.mem_append, Option.mem_toList, differs, false_or, not_or]

theorem Grounded.dep_of_above? {found : List ModuleId} (h : Grounded dep above t)
    (there : above? id t = some found) : ∀ a ∈ found, dep id a := by
  induction t generalizing above found with
  | nil => cases there
  | link m below rest ihBelow ihRest =>
    obtain ⟨-, inner, tail⟩ := h
    rw [above?] at there
    split at there
    · cases there
      simp
    · rcases Option.or_eq_some_iff.mp there with inBelow | ⟨-, inRest⟩
      · obtain ⟨found', below', rfl⟩ := Option.map_eq_some_iff.mp inBelow
        have mem : id ∈ below.modules := by
          by_contra absent
          rw [above?_eq_none_iff.mpr absent] at below'
          cases below'
        intro a ha
        rcases List.mem_append.mp ha with here | ha
        · exact inner.dep_of_mem mem a (List.mem_append_left _ here)
        · exact ihBelow inner below' a ha
      · exact ihRest tail inRest

/-! ### Modules below -/

theorem mem_descendants : id ∈ t.descendants ↔ id ∈ t.modules := by
  induction t with
  | nil => simp [descendants, row, deep, modules]
  | link m below rest ihBelow ihRest =>
    simp only [descendants, row, deep, modules, List.mem_append] at ihBelow ihRest ⊢
    rw [← ihBelow, ← ihRest]
    grind

/-! ### Visits -/

theorem mem_visitsAt_grounded {n : Nat} {p : Option ModuleId} {v : Visit}
    (h : Grounded dep (p.toList ++ above) t) (mem : v ∈ visitsAt n p t) :
    (∀ a ∈ v.parent, dep v.id a) ∧ ∀ d ∈ v.below.modules, dep d v.id := by
  induction t generalizing n p above with
  | nil => cases n <;> cases mem
  | link m below rest ihBelow ihRest =>
    obtain ⟨head, inner, tail⟩ := h
    cases n with
    | zero =>
      rcases List.mem_append.mp mem with here | mem
      · obtain ⟨id, rfl⟩ : ∃ id, m = some id := by
          cases m with
          | none => cases here
          | some id => exact ⟨id, rfl⟩
        simp only [Option.map_some, Option.toList_some, List.mem_singleton] at here
        subst here
        refine ⟨fun a ha => head id rfl a (List.mem_append_left _ (Option.mem_toList.mpr ha)),
          fun d hd => inner.dep_of_mem hd id (by simp)⟩
      · exact ihRest tail mem
    | succ n =>
      rcases List.mem_append.mp mem with mem | mem
      · exact ihBelow inner mem
      · exact ihRest tail mem

theorem visitsAt_zero_parent {p : Option ModuleId} {v : Visit} (mem : v ∈ visitsAt 0 p t) :
    v.parent = p := by
  induction t with
  | nil => cases mem
  | link m below rest _ ih =>
    rcases List.mem_append.mp mem with here | mem
    · cases m with
      | none => cases here
      | some id =>
        simp only [Option.map_some, Option.toList_some, List.mem_singleton] at here
        rw [here]
    · exact ih mem

theorem modules_of_visit {n : Nat} {p : Option ModuleId} {v : Visit} (mem : v ∈ visitsAt n p t) :
    v.id :: v.below.modules ⊆ t.modules := by
  induction t generalizing n p with
  | nil => cases n <;> cases mem
  | link m below rest ihBelow ihRest =>
    have inner : below.modules ⊆ (link m below rest).modules := fun y hy => by simp [modules, hy]
    have outer : rest.modules ⊆ (link m below rest).modules := fun y hy => by simp [modules, hy]
    cases n with
    | zero =>
      rcases List.mem_append.mp mem with here | mem
      · cases m with
        | none => cases here
        | some id =>
          simp only [Option.map_some, Option.toList_some, List.mem_singleton] at here
          subst here
          exact List.cons_subset.mpr ⟨by simp [modules], inner⟩
      · exact List.Subset.trans (ihRest mem) outer
    | succ n =>
      rcases List.mem_append.mp mem with mem | mem
      · exact List.Subset.trans (ihBelow mem) inner
      · exact List.Subset.trans (ihRest mem) outer

theorem visitsAt_succ_parent {n : Nat} {p : Option ModuleId} {v : Visit}
    (mem : v ∈ visitsAt (n + 1) p t) : ∀ a ∈ v.parent, ∃ u ∈ visitsAt n p t, u.id = a ∧
      v.id :: v.below.modules ⊆ u.below.modules := by
  intro a parent
  induction t generalizing n p with
  | nil => cases mem
  | link m below rest ihBelow ihRest =>
    rcases List.mem_append.mp mem with inBelow | inRest
    · cases n with
      | zero =>
        have top : m = some a := (visitsAt_zero_parent inBelow).symm.trans parent
        subst top
        exact ⟨⟨p, a, below⟩, List.mem_append_left _ (by simp), rfl, modules_of_visit inBelow⟩
      | succ n =>
        obtain ⟨u, hu, same⟩ := ihBelow inBelow
        exact ⟨u, List.mem_append_left _ hu, same⟩
    · obtain ⟨u, hu, same⟩ := ihRest inRest
      cases n with
      | zero => exact ⟨u, List.mem_append_right _ hu, same⟩
      | succ n => exact ⟨u, List.mem_append_right _ hu, same⟩

/-- Every visit comes after one of its parent, unless that is among `seen`. -/
def ParentsFirst : (seen : List ModuleId) → List Visit → Prop
  | _, [] => True
  | seen, v :: vs => (∀ a ∈ v.parent, a ∈ seen) ∧ ParentsFirst (v.id :: seen) vs

theorem parentsFirst_of_seen {seen : List ModuleId} {vs : List Visit}
    (h : ∀ v ∈ vs, ∀ a ∈ v.parent, a ∈ seen) : ParentsFirst seen vs := by
  induction vs generalizing seen with
  | nil => trivial
  | cons v vs ih =>
    rw [List.forall_mem_cons] at h
    exact ⟨h.1, ih fun w hw a ha => List.mem_cons_of_mem _ (h.2 w hw a ha)⟩

theorem ParentsFirst.append {seen : List ModuleId} {vs ws : List Visit} (h : ParentsFirst seen vs)
    (last : ∀ w ∈ ws, ∀ a ∈ w.parent, a ∈ seen ∨ ∃ v ∈ vs, v.id = a) :
    ParentsFirst seen (vs ++ ws) := by
  induction vs generalizing seen with
  | nil => exact parentsFirst_of_seen fun w hw a ha => by simpa using last w hw a ha
  | cons v vs ih =>
    refine ⟨h.1, ih h.2 fun w hw a ha => ?_⟩
    rcases last w hw a ha with old | ⟨u, hu, rfl⟩
    · exact Or.inl (List.mem_cons_of_mem _ old)
    · rcases List.mem_cons.mp hu with rfl | hu
      · exact Or.inl List.mem_cons_self
      · exact Or.inr ⟨u, hu, rfl⟩

theorem visits_parentsFirst (t : DependencyTree) : ParentsFirst [] t.visits := by
  have upTo (n : Nat) : ParentsFirst [] ((List.range n).flatMap fun k => t.visitsAt k none) := by
    induction n with
    | zero => trivial
    | succ n ih =>
      rw [List.range_succ, List.flatMap_append, List.flatMap_singleton]
      refine ih.append fun w hw a ha => Or.inr ?_
      cases n with
      | zero =>
        rw [visitsAt_zero_parent hw] at ha
        cases ha
      | succ k =>
        obtain ⟨u, hu, same, -⟩ := visitsAt_succ_parent hw a ha
        exact ⟨u, List.mem_flatMap.mpr ⟨k, by simp, hu⟩, same⟩
  exact upTo t.height

theorem visits_grounded {v : Visit} (h : Grounded dep [] t) (mem : v ∈ t.visits) :
    (∀ a ∈ v.parent, dep v.id a) ∧ ∀ d ∈ v.below.modules, dep d v.id := by
  obtain ⟨n, -, mem⟩ := List.mem_flatMap.mp mem
  exact mem_visitsAt_grounded h mem

end

/-! ### Levels -/

theorem map_id_visitsAt (n : Nat) (p : Option ModuleId) (t : DependencyTree) :
    (visitsAt n p t).map (·.id) = (linksAt n t).filterMap id := by
  induction t generalizing n p with
  | nil => cases n <;> rfl
  | link m below rest ihBelow ihRest =>
    cases n with
    | zero => cases m <;> simp [visitsAt, linksAt, ihRest]
    | succ n => simp [visitsAt, linksAt, ihBelow, ihRest]

theorem flatMap_linksAt_perm {n : Nat} (h : t.height ≤ n) :
    ((List.range n).flatMap fun k => (t.linksAt k).filterMap id).Perm t.modules := by
  induction t generalizing n with
  | nil =>
    have empty (k : Nat) : linksAt k nil = [] := by cases k <;> rfl
    simp [empty, modules]
  | link m below rest ihBelow ihRest =>
    simp only [height, Nat.max_le] at h
    obtain ⟨n, rfl⟩ : ∃ k, n = k + 1 := ⟨n - 1, by omega⟩
    have inner := ihBelow (n := n) (by omega)
    have outer := ihRest h.2
    rw [List.range_succ_eq_map, List.flatMap_cons, List.flatMap_map] at outer ⊢
    have head : (linksAt 0 (link m below rest)).filterMap id =
        m.toList ++ (rest.linksAt 0).filterMap id := by
      cases m <;> simp [linksAt]
    have tail (k : Nat) : (linksAt (k + 1) (link m below rest)).filterMap id =
        (below.linksAt k).filterMap id ++ (rest.linksAt (k + 1)).filterMap id := by
      simp [linksAt]
    simp only [head, Nat.succ_eq_add_one, tail, modules]
    have split := (List.flatMap_append_perm (List.range n)
      (fun k => (below.linksAt k).filterMap id)
      (fun k => (rest.linksAt (k + 1)).filterMap id)).symm
    refine (split.append_left _).trans ?_
    rw [List.append_assoc, List.append_assoc]
    refine List.Perm.append_left _ ?_
    refine List.perm_append_comm_assoc _ _ _ |>.trans ?_
    exact inner.append outer

theorem map_id_visits_perm (t : DependencyTree) : (t.visits.map (·.id)).Perm t.modules := by
  rw [visits, List.map_flatMap]
  simpa only [map_id_visitsAt] using flatMap_linksAt_perm (Nat.le_refl t.height)

theorem mem_modules_iff_visits {id : ModuleId} : id ∈ t.modules ↔ ∃ v ∈ t.visits, v.id = id := by
  rw [← (map_id_visits_perm t).mem_iff, List.mem_map]

theorem flatten_levels_perm (t : DependencyTree) :
    (t.levels.flatMap fun l => l).Perm t.modules := by
  rw [levels, List.flatMap_map]
  exact flatMap_linksAt_perm (Nat.le_max_right _ _)

end EventFlow.DependencyTree

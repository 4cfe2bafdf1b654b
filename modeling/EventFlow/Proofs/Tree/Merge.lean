import EventFlow.Proofs.Dependence
import EventFlow.Proofs.Tree.Placing

/-!
Merging trees: the merged tree holds the modules of all of them once, or the modules depend on each
other in a circle.
-/

namespace EventFlow.DependencyTree
open Relation

variable {dep : ModuleId → ModuleId → Prop} {t : DependencyTree}

/-- Every module once, and below only those it depends on. -/
structure Sound (dep : ModuleId → ModuleId → Prop) (t : DependencyTree) : Prop where
  nodup : t.modules.Nodup
  grounded : Grounded dep [] t

/-! ### One tree into another -/

theorem mergeOne_cases [IsTrans ModuleId dep] (h : Sound dep t) {v : Visit}
    (parent : ∀ a ∈ v.parent, dep v.id a) (placed : ∀ a ∈ v.parent, a ∈ t.modules)
    (below : ∀ d ∈ v.below.modules, dep d v.id) :
    (∃ t', t.mergeOne v = .ok t' ∧ Sound dep t' ∧
      ∀ id, id ∈ t'.modules ↔ id ∈ t.modules ∨ id = v.id) ∨
    ((∃ e, t.mergeOne v = .error e) ∧ ∃ a, dep a a) := by
  cases found : above? v.id t with
  | some above =>
    have mem : v.id ∈ t.modules := by
      by_contra absent
      rw [above?_eq_none_iff.mpr absent] at found
      cases found
    have same (id : ModuleId) : id ∈ t.modules ↔ id ∈ t.modules ∨ id = v.id :=
      ⟨Or.inl, fun h => h.elim (fun h => h) fun e => e ▸ mem⟩
    cases reversed : v.below.descendants.find? above.contains with
    | some d =>
      right
      have isAbove : d ∈ above := by simpa using List.find?_some reversed
      have isBelow := mem_descendants.mp (List.mem_of_find?_eq_some reversed)
      refine ⟨⟨_, by simp only [mergeOne, found, reversed]; rfl⟩, d, ?_⟩
      exact IsTrans.trans _ _ _ (below d isBelow) (h.grounded.dep_of_above? found d isAbove)
    | none =>
      left
      simp only [mergeOne, found, reversed]
      split
      · split
        · refine ⟨_, rfl, ⟨?_, grounded_pushFrom _ _ h.grounded⟩, fun id => ?_⟩
          · rw [modules_pushDown]
            exact h.nodup
          · rw [modules_pushDown]
            exact same id
        · exact ⟨t, rfl, h, same⟩
      · exact ⟨t, rfl, h, same⟩
  | none =>
    have fresh : v.id ∉ t.modules := above?_eq_none_iff.mp found
    have grows {t' : DependencyTree} (perm : t'.modules.Perm (v.id :: t.modules)) (id : ModuleId) :
        id ∈ t'.modules ↔ id ∈ t.modules ∨ id = v.id := by
      rw [perm.mem_iff, List.mem_cons, or_comm]
    left
    cases top : v.parent with
    | none =>
      have perm := modules_addTop v.id t
      exact ⟨_, by simp only [mergeOne, found, top],
        ⟨perm.nodup_iff.mpr (List.nodup_cons.mpr ⟨fresh, h.nodup⟩),
          grounded_addTop h.grounded (by simp)⟩, grows perm⟩
    | some p =>
      have there := placed p top
      have perm : ((t.addBelow p v.id).modules).Perm (v.id :: t.modules) :=
        modules_addBelow h.nodup there
      exact ⟨_, by simp only [mergeOne, found, top, contains_iff.mpr there, if_true],
        ⟨perm.nodup_iff.mpr (List.nodup_cons.mpr ⟨fresh, h.nodup⟩),
          grounded_addBelow (parent p top) h.grounded⟩, grows perm⟩

theorem mergeVisits_cases [IsTrans ModuleId dep] {seen : List ModuleId} {vs : List Visit}
    (h : Sound dep t) (first : ParentsFirst seen vs) (known : ∀ id ∈ seen, id ∈ t.modules)
    (edges : ∀ v ∈ vs, (∀ a ∈ v.parent, dep v.id a) ∧ ∀ d ∈ v.below.modules, dep d v.id) :
    (∃ t', t.mergeVisits vs = (t', none) ∧ Sound dep t' ∧
      ∀ id, id ∈ t'.modules ↔ id ∈ t.modules ∨ ∃ v ∈ vs, v.id = id) ∨
    ((∃ t' e, t.mergeVisits vs = (t', some e)) ∧ ∃ a, dep a a) := by
  induction vs generalizing t seen with
  | nil => exact Or.inl ⟨t, rfl, h, by simp⟩
  | cons v vs ih =>
    rw [List.forall_mem_cons] at edges
    obtain ⟨⟨parent, below⟩, rest⟩ := edges
    rcases mergeOne_cases h parent (fun a ha => known a (first.1 a ha)) below with
      ⟨t', eq, sound, members⟩ | ⟨⟨e, eq⟩, loop⟩
    · have known' : ∀ id ∈ v.id :: seen, id ∈ t'.modules := by
        intro id mem
        rcases List.mem_cons.mp mem with rfl | mem
        · exact (members _).mpr (Or.inr rfl)
        · exact (members _).mpr (Or.inl (known id mem))
      rcases ih sound first.2 known' rest with
        ⟨last, eq', sound', members'⟩ | ⟨⟨last, e, eq'⟩, loop⟩
      · refine Or.inl ⟨last, by rw [mergeVisits, eq, ← eq'], sound', fun id => ?_⟩
        rw [members', members, eq_comm (a := id)]
        simp only [List.mem_cons, exists_eq_or_imp, or_assoc]
      · exact Or.inr ⟨⟨last, e, by rw [mergeVisits, eq, ← eq']⟩, loop⟩
    · exact Or.inr ⟨⟨t, e, by rw [mergeVisits, eq]⟩, loop⟩

theorem merge_cases [IsTrans ModuleId dep] {src : DependencyTree} (h : Sound dep t)
    (grounded : Grounded dep [] src) :
    (∃ t', t.merge src = (t', none) ∧ Sound dep t' ∧
      ∀ id, id ∈ t'.modules ↔ id ∈ t.modules ∨ id ∈ src.modules) ∨
    ((∃ t' e, t.merge src = (t', some e)) ∧ ∃ a, dep a a) := by
  have visited (id : ModuleId) : id ∈ src.modules ↔ ∃ v ∈ src.visits, v.id = id :=
    mem_modules_iff_visits
  simp only [visited]
  exact mergeVisits_cases h src.visits_parentsFirst (by simp) fun v hv =>
    visits_grounded grounded hv

/-! ### The trees of all streams -/

/-- What has become of the trees of `trees` that `left` does not hold. -/
structure Merged (dep : ModuleId → ModuleId → Prop) (t : DependencyTree) (trees : List StreamTree)
    (t' : DependencyTree) (left : List StreamTree) : Prop where
  sound : Sound dep t'
  members : ∀ id ∈ t'.modules, id ∈ t.modules ∨ ∃ s ∈ trees, id ∈ s.tree.modules
  kept : ∀ id ∈ t.modules, id ∈ t'.modules
  merged : ∀ s ∈ trees, s ∈ left ∨ ∀ id ∈ s.tree.modules, id ∈ t'.modules
  left : left ⊆ trees

theorem Merged.trans {t₁ t₂ t₃ : DependencyTree} {trees waiting left : List StreamTree}
    (h : Merged dep t₁ trees t₂ waiting) (k : Merged dep t₂ waiting t₃ left) :
    Merged dep t₁ trees t₃ left where
  sound := k.sound
  members id mem := by
    rcases k.members id mem with mem | ⟨s, hs, mem⟩
    · exact h.members id mem
    · exact Or.inr ⟨s, h.left hs, mem⟩
  kept id mem := k.kept id (h.kept id mem)
  merged s hs := by
    rcases h.merged s hs with waits | mem
    · exact k.merged s waits
    · exact Or.inr fun id hid => k.kept id (mem id hid)
  left _ hs := h.left (k.left hs)

theorem merged_one {s : StreamTree} {trees left : List StreamTree} {t₁ t₂ t₃ : DependencyTree}
    (members : ∀ id, id ∈ t₂.modules ↔ id ∈ t₁.modules ∨ id ∈ s.tree.modules)
    (h : Merged dep t₂ trees t₃ left) : Merged dep t₁ (s :: trees) t₃ left where
  sound := h.sound
  members id mem := by
    rcases h.members id mem with mem | ⟨r, hr, mem⟩
    · rcases (members id).mp mem with mem | mem
      · exact Or.inl mem
      · exact Or.inr ⟨s, List.mem_cons_self, mem⟩
    · exact Or.inr ⟨r, List.mem_cons_of_mem _ hr, mem⟩
  kept id mem := h.kept id ((members id).mpr (Or.inl mem))
  merged r hr := by
    rcases List.mem_cons.mp hr with rfl | hr
    · exact Or.inr fun id hid => h.kept id ((members id).mpr (Or.inr hid))
    · exact h.merged r hr
  left _ hr := List.mem_cons_of_mem _ (h.left hr)

theorem merged_wait {s : StreamTree} {trees left : List StreamTree} {t' : DependencyTree}
    (h : Merged dep t trees t' left) : Merged dep t (s :: trees) t' (s :: left) where
  sound := h.sound
  members id mem := by
    rcases h.members id mem with mem | ⟨r, hr, mem⟩
    · exact Or.inl mem
    · exact Or.inr ⟨r, List.mem_cons_of_mem _ hr, mem⟩
  kept := h.kept
  merged r hr := by
    rcases List.mem_cons.mp hr with rfl | hr
    · exact Or.inl List.mem_cons_self
    · exact (h.merged r hr).imp_left (List.mem_cons_of_mem _)
  left := List.cons_subset_cons s h.left

theorem mergeRound_cases [IsTrans ModuleId dep] {waiting : List StreamTree} (h : Sound dep t)
    (grounded : ∀ s ∈ waiting, Grounded dep [] s.tree) :
    (∃ t' left, mergeRound waiting t = .ok (t', left) ∧ Merged dep t waiting t' left ∧
      left.length ≤ waiting.length ∧
      (left.length = waiting.length → t' = t ∧ ∀ s ∈ left, s.key.producer ∉ t.modules)) ∨
    ((∃ e, mergeRound waiting t = .error e) ∧ ∃ a, dep a a) := by
  induction waiting generalizing t with
  | nil =>
    have merged : Merged dep t [] t [] := ⟨h, fun _ => Or.inl, fun _ h => h, by simp, by simp⟩
    exact Or.inl ⟨t, [], rfl, merged, Nat.le_refl _, fun _ => ⟨rfl, by simp⟩⟩
  | cons s rest ih =>
    rw [List.forall_mem_cons] at grounded
    rw [mergeRound]
    by_cases placed : t.contains s.key.producer = true
    · rw [if_pos placed]
      rcases merge_cases h grounded.1 with ⟨t₁, eq, sound, members⟩ | ⟨⟨t₁, e, eq⟩, loop⟩
      · rw [eq]
        rcases ih sound grounded.2 with ⟨t', left, eq', merged, shorter, -⟩ | failed
        · refine Or.inl ⟨t', left, eq', merged_one members merged, Nat.le_succ_of_le shorter, ?_⟩
          intro same
          rw [List.length_cons] at same
          omega
        · exact Or.inr failed
      · exact Or.inr ⟨⟨e, by rw [eq]⟩, loop⟩
    · rw [if_neg placed]
      rcases ih h grounded.2 with ⟨t', left, eq, merged, shorter, stuck⟩ | ⟨⟨e, eq⟩, loop⟩
      · refine Or.inl ⟨t', s :: left, by rw [eq]; rfl, merged_wait merged,
          Nat.succ_le_succ shorter, fun same => ?_⟩
        obtain ⟨unchanged, absent⟩ := stuck (Nat.succ.inj same)
        rw [contains_iff] at placed
        exact ⟨unchanged, List.forall_mem_cons.mpr ⟨placed, absent⟩⟩
      · exact Or.inr ⟨⟨e, by rw [eq]; rfl⟩, loop⟩

def Stuck (t : DependencyTree) (left : List StreamTree) : Prop :=
  left ≠ [] ∧ ∀ s ∈ left, s.key.producer ∉ t.modules

theorem mergeWaiting_cases [IsTrans ModuleId dep] {waiting : List StreamTree} (h : Sound dep t)
    (grounded : ∀ s ∈ waiting, Grounded dep [] s.tree) :
    (∃ t', mergeWaiting waiting t = .ok t' ∧ Merged dep t waiting t' []) ∨
    ((∃ e, mergeWaiting waiting t = .error e) ∧
      ((∃ a, dep a a) ∨ ∃ t' left, Merged dep t waiting t' left ∧ Stuck t' left)) := by
  fun_induction mergeWaiting waiting t with
  | case1 waiting t empty =>
    rw [List.isEmpty_iff] at empty
    subst empty
    exact Or.inl ⟨t, rfl, h, fun _ => Or.inl, fun _ h => h, by simp, by simp⟩
  | case2 waiting t _ e eq =>
    rcases mergeRound_cases h grounded with ⟨t', left, eq', -⟩ | ⟨-, loop⟩
    · cases eq.symm.trans eq'
    · exact Or.inr ⟨⟨e, rfl⟩, Or.inl loop⟩
  | case3 waiting t _ t' left eq _ ih =>
    rcases mergeRound_cases h grounded with ⟨t'', left', eq', merged, -⟩ | ⟨⟨e, eq'⟩, -⟩
    · cases eq.symm.trans eq'
      have rest : ∀ s ∈ left, Grounded dep [] s.tree := fun s hs => grounded s (merged.left hs)
      rcases ih merged.sound rest with ⟨last, ok, all⟩ | ⟨failed, loop | ⟨last, stuck, part, hs⟩⟩
      · exact Or.inl ⟨last, ok, merged.trans all⟩
      · exact Or.inr ⟨failed, Or.inl loop⟩
      · exact Or.inr ⟨failed, Or.inr ⟨last, stuck, merged.trans part, hs⟩⟩
    · cases eq.symm.trans eq'
  | case4 waiting t some t' left eq full =>
    rcases mergeRound_cases h grounded with
      ⟨t'', left', eq', merged, shorter, stuck⟩ | ⟨⟨e, eq'⟩, -⟩
    · cases eq.symm.trans eq'
      have same : left.length = waiting.length := by omega
      obtain ⟨rfl, absent⟩ := stuck same
      refine Or.inr ⟨⟨_, rfl⟩, Or.inr ⟨t', left, merged, ?_, absent⟩⟩
      rintro rfl
      exact some (by simpa using same.symm)
    · cases eq.symm.trans eq'

theorem mergeSources_cases [IsTrans ModuleId dep]
    {f : DependencyTree → StreamTree → Except TreeError DependencyTree}
    (ok : ∀ t s t', t.merge s.tree = (t', none) → f t s = .ok t')
    (failed : ∀ t s t' e, t.merge s.tree = (t', some e) → f t s = .error e)
    {sources : List StreamTree} (h : Sound dep t)
    (grounded : ∀ s ∈ sources, Grounded dep [] s.tree) :
    (∃ t', sources.foldlM f t = .ok t' ∧ Merged dep t sources t' []) ∨
    ((∃ e, sources.foldlM f t = .error e) ∧ ∃ a, dep a a) := by
  induction sources generalizing t with
  | nil => exact Or.inl ⟨t, rfl, h, fun _ => Or.inl, fun _ h => h, by simp, by simp⟩
  | cons s rest ih =>
    rw [List.forall_mem_cons] at grounded
    rw [List.foldlM_cons]
    rcases merge_cases h grounded.1 with ⟨t₁, eq, sound, members⟩ | ⟨⟨t₁, e, eq⟩, loop⟩
    · rw [ok _ _ _ eq]
      rcases ih sound grounded.2 with ⟨t', eq', merged⟩ | bad
      · exact Or.inl ⟨t', eq', merged_one members merged⟩
      · exact Or.inr bad
    · exact Or.inr ⟨⟨e, by rw [failed _ _ _ _ eq]; rfl⟩, loop⟩

theorem mergeAll_eq : ∃ f : DependencyTree → StreamTree → Except TreeError DependencyTree,
    (∀ t s t', t.merge s.tree = (t', none) → f t s = .ok t') ∧
    (∀ t s t' e, t.merge s.tree = (t', some e) → f t s = .error e) ∧
    ∀ trees, mergeAll trees = match (trees.filter (!·.fromProcessor)).foldlM f nil with
      | .error e => .error e
      | .ok t => mergeWaiting (trees.filter (·.fromProcessor)) t := by
  refine ⟨_, fun t s t' eq => ?_, fun t s t' e eq => ?_, fun _ => rfl⟩
  · rw [eq]
  · rw [eq]

theorem cycle_of_stuck [IsTrans ModuleId dep] {trees left : List StreamTree}
    (stuck : Stuck t left) (placed : ∀ s ∈ trees, s ∈ left ∨ ∀ id ∈ s.tree.modules, id ∈ t.modules)
    (fed : ∀ s ∈ left, ∃ r ∈ trees, s.key.producer ∈ r.tree.modules ∧
      dep s.key.producer r.key.producer) : ∃ a, dep a a := by
  have next : ∀ p ∈ left.map (·.key.producer), ∃ q ∈ left.map (·.key.producer), dep p q := by
    intro p mem
    obtain ⟨s, hs, rfl⟩ := List.mem_map.mp mem
    obtain ⟨r, hr, inside, edge⟩ := fed s hs
    rcases placed r hr with waits | all
    · exact ⟨r.key.producer, List.mem_map_of_mem waits, edge⟩
    · exact absurd (all _ inside) (stuck.2 s hs)
  obtain ⟨a, loop⟩ := exists_cycle (by simpa using stuck.1) next
  rw [transGen_eq_self] at loop
  exact ⟨a, loop⟩

/-- The tree of all streams holds the modules of each, or there is a circle. `fed` gives every
stream of a processor another stream that the processor reads. -/
theorem mergeAll_cases [IsTrans ModuleId dep] {trees : List StreamTree}
    (grounded : ∀ s ∈ trees, Grounded dep [] s.tree)
    (fed : ∀ s ∈ trees, s.fromProcessor = true →
      ∃ r ∈ trees, s.key.producer ∈ r.tree.modules ∧ dep s.key.producer r.key.producer) :
    (∃ t, mergeAll trees = .ok t ∧ Sound dep t ∧
      ∀ id, id ∈ t.modules ↔ ∃ s ∈ trees, id ∈ s.tree.modules) ∨
    ((∃ e, mergeAll trees = .error e) ∧ ∃ a, dep a a) := by
  have empty : Sound dep nil := ⟨List.nodup_nil, trivial⟩
  have isSource : ∀ s ∈ trees.filter (!·.fromProcessor), Grounded dep [] s.tree :=
    fun s hs => grounded s (List.mem_of_mem_filter hs)
  have isProcessor : ∀ s ∈ trees.filter (·.fromProcessor), Grounded dep [] s.tree :=
    fun s hs => grounded s (List.mem_of_mem_filter hs)
  have sort : ∀ s ∈ trees, s ∈ trees.filter (!·.fromProcessor) ∨
      s ∈ trees.filter (·.fromProcessor) := by
    intro s hs
    cases h : s.fromProcessor <;> simp [hs, h]
  obtain ⟨f, ok, failed, all⟩ := mergeAll_eq
  rw [all]
  rcases mergeSources_cases ok failed empty isSource with ⟨t, eq, first⟩ | ⟨⟨e, eq⟩, loop⟩
  · rw [eq]
    have early : ∀ s ∈ trees.filter (!·.fromProcessor), ∀ id ∈ s.tree.modules, id ∈ t.modules :=
      fun s hs => (first.merged s hs).resolve_left (by simp)
    rcases mergeWaiting_cases first.sound isProcessor with ⟨t', eq', rest⟩ |
      ⟨⟨e, eq'⟩, loop | ⟨t', left, rest, stuck⟩⟩
    · refine Or.inl ⟨t', eq', rest.sound, fun id => ⟨fun mem => ?_, fun ⟨s, hs, mem⟩ => ?_⟩⟩
      · rcases rest.members id mem with mem | ⟨s, hs, mem⟩
        · rcases first.members id mem with mem | ⟨s, hs, mem⟩
          · cases mem
          · exact ⟨s, List.mem_of_mem_filter hs, mem⟩
        · exact ⟨s, List.mem_of_mem_filter hs, mem⟩
      · rcases sort s hs with source | processor
        · exact rest.kept id (early s source id mem)
        · exact (rest.merged s processor).resolve_left (by simp) id mem
    · exact Or.inr ⟨⟨e, eq'⟩, loop⟩
    · have placed : ∀ s ∈ trees, s ∈ left ∨ ∀ id ∈ s.tree.modules, id ∈ t'.modules := by
        intro s hs
        rcases sort s hs with source | processor
        · exact Or.inr fun id mem => rest.kept id (early s source id mem)
        · exact rest.merged s processor
      refine Or.inr ⟨⟨e, eq'⟩, cycle_of_stuck stuck placed fun s hs => ?_⟩
      obtain ⟨mem, processor⟩ := List.mem_filter.mp (rest.left hs)
      exact fed s mem processor
  · exact Or.inr ⟨⟨e, by rw [eq]⟩, loop⟩

end EventFlow.DependencyTree

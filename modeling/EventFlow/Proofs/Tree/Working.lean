import EventFlow.Proofs.Tree.Merge
import EventFlow.Proofs.Tree.Places

/-!
Merging as a run of visits. Each visit adds one module, leaves the tree as it is, or pushes one
module down below its new parent; `mergeAll` works in the visits of all trees one after the other.
-/

namespace EventFlow.DependencyTree

variable {t t' : DependencyTree} {v : Visit} {vs ws : List Visit} {p : Place}

/-- All that working one module in can do to a tree. -/
inductive Worked (t : DependencyTree) (v : Visit) (t' : DependencyTree) : Prop
  | top (fresh : v.id ∉ t.modules) (parent : v.parent = none)
      (places : t'.places.Perm (⟨v.id, [], 0⟩ :: t.places)) (fillers : t'.fillers = t.fillers)
  | below (p : Place) (fresh : v.id ∉ t.modules) (placed : p ∈ t.places)
      (parent : v.parent = some p.id)
      (places : t'.places.Perm (⟨v.id, p.above ++ [p.id], p.depth + 1⟩ :: t.places))
      (fillers : t'.fillers = t.fillers)
  | kept (u : Place) (placed : u ∈ t.places) (own : u.id = v.id)
      (free : ∀ d ∈ v.below.modules, d ∉ u.above)
      (deeper : ∀ p ∈ t.places, v.parent = some p.id → p.depth < u.depth) (same : t' = t)
  | pushed (u p : Place) (placed : u ∈ t.places) (own : u.id = v.id)
      (free : ∀ d ∈ v.below.modules, d ∉ u.above) (above : p ∈ t.places)
      (parent : v.parent = some p.id) (shallow : u.depth ≤ p.depth)
      (places : t'.places = t.places.map (Place.shift v.id (p.depth + 1 - u.depth)))
      (fillers : t'.fillers = t.fillers + (p.depth + 1 - u.depth))

theorem mergeOne_worked (nodup : t.modules.Nodup) (ok : t.mergeOne v = .ok t') :
    Worked t v t' := by
  cases found : t.above? v.id with
  | none =>
    have fresh := above?_eq_none_iff.mp found
    cases parent : v.parent with
    | none =>
      simp only [mergeOne, found, parent, Except.ok.injEq] at ok
      subst ok
      exact .top fresh parent (placesFrom_addTop v.id [] 0 t) (fillers_addTop v.id t)
    | some a =>
      simp only [mergeOne, found, parent] at ok
      split at ok
      · rename_i there
        cases ok
        obtain ⟨p, placed, rfl⟩ := exists_place (contains_iff.mp there)
        exact .below p fresh placed parent (placesFrom_addBelow nodup placed)
          (fillers_addBelow p.id v.id t)
      · cases ok
  | some above =>
    obtain ⟨u, placed, own, rfl⟩ := exists_place_of_above? found
    simp only [mergeOne, found] at ok
    split at ok
    · cases ok
    · rename_i unreversed
      have free : ∀ d ∈ v.below.modules, d ∉ u.above := by
        intro d below isAbove
        have missed := List.find?_eq_none.mp unreversed d (mem_descendants.mpr below)
        simp [isAbove] at missed
      have depth := depth?_of_place nodup placed
      rw [own] at depth
      split at ok
      · rename_i a b parentDepth ownDepth
        obtain ⟨w, parent, deep⟩ := Option.bind_eq_some_iff.mp parentDepth
        obtain ⟨p, above, rfl, rfl⟩ := exists_place_of_depth? deep
        obtain rfl : u.depth = b := Option.some.inj (depth.symm.trans ownDepth)
        split at ok
        · rename_i shallow
          cases ok
          obtain ⟨places, fillers⟩ := placesFrom_pushFrom nodup List.not_mem_nil placed
            (Nat.lt_succ_of_le shallow)
          rw [own] at places fillers
          exact .pushed u p placed own free above parent shallow places fillers
        · rename_i deeper
          cases ok
          refine .kept u placed own free (fun q there same => ?_) rfl
          rw [parent, Option.some.injEq] at same
          rw [place_unique nodup there above same.symm]
          omega
      · rename_i missing
        cases ok
        refine .kept u placed own free (fun q there same => ?_) rfl
        have deep := depth?_of_place nodup there
        exact (missing _ _ (by rw [same]; exact deep) depth).elim

theorem Worked.modules (worked : Worked t v t') :
    t'.modules.Perm (v.id :: t.modules) ∧ v.id ∉ t.modules ∨ t'.modules = t.modules := by
  cases worked with
  | top fresh parent places =>
    left
    have perm := places.map (·.id)
    simp only [List.map_cons, map_id_places] at perm
    exact ⟨perm, fresh⟩
  | below p fresh placed parent places =>
    left
    have perm := places.map (·.id)
    simp only [List.map_cons, map_id_places] at perm
    exact ⟨perm, fresh⟩
  | kept u placed own free deeper same => exact Or.inr (by rw [same])
  | pushed u p placed own free above parent shallow places =>
    right
    rw [← map_id_places, places, List.map_map, ← map_id_places]
    exact List.map_congr_left fun q _ => q.shift_id _ _

theorem Worked.nodup (worked : Worked t v t') (nodup : t.modules.Nodup) : t'.modules.Nodup := by
  rcases worked.modules with ⟨perm, fresh⟩ | same
  · exact perm.nodup_iff.mpr (List.nodup_cons.mpr ⟨fresh, nodup⟩)
  · rwa [same]

theorem Worked.keeps (worked : Worked t v t') (mem : p ∈ t.places) :
    ∃ q ∈ t'.places, q.id = p.id ∧ q.above = p.above ∧ p.depth ≤ q.depth := by
  cases worked with
  | top fresh parent places =>
    exact ⟨p, places.mem_iff.mpr (List.mem_cons_of_mem _ mem), rfl, rfl, Nat.le_refl _⟩
  | below w fresh placed parent places =>
    exact ⟨p, places.mem_iff.mpr (List.mem_cons_of_mem _ mem), rfl, rfl, Nat.le_refl _⟩
  | kept u placed own free deeper same => exact ⟨p, same ▸ mem, rfl, rfl, Nat.le_refl _⟩
  | pushed u w placed own free above parent shallow places =>
    refine ⟨_, places ▸ List.mem_map_of_mem mem, p.shift_id _ _, p.shift_above _ _, ?_⟩
    rw [Place.shift_depth]
    split <;> omega

/-! ### Runs -/

theorem mergeVisits_append (first : t.mergeVisits vs = (t', none)) (ws : List Visit) :
    t.mergeVisits (vs ++ ws) = t'.mergeVisits ws := by
  induction vs generalizing t with
  | nil =>
    cases first
    rfl
  | cons v vs ih =>
    rw [mergeVisits] at first
    rw [List.cons_append, mergeVisits]
    split at first
    · cases first
    · exact ih first

theorem mergeVisits_split (all : t.mergeVisits (vs ++ ws) = (t', none)) :
    ∃ u, t.mergeVisits vs = (u, none) ∧ u.mergeVisits ws = (t', none) := by
  induction vs generalizing t with
  | nil => exact ⟨t, rfl, all⟩
  | cons v vs ih =>
    rw [List.cons_append, mergeVisits] at all
    rw [mergeVisits]
    split at all
    · cases all
    · exact ih all

/-- What every visit preserves holds after a run. -/
theorem mergeVisits_induction {P : DependencyTree → Prop} (nodup : t.modules.Nodup) (start : P t)
    (step : ∀ v ∈ vs, ∀ t t', t.modules.Nodup → P t → Worked t v t' → P t')
    (ok : t.mergeVisits vs = (t', none)) : t'.modules.Nodup ∧ P t' := by
  induction vs generalizing t with
  | nil =>
    cases ok
    exact ⟨nodup, start⟩
  | cons v vs ih =>
    rw [List.forall_mem_cons] at step
    rw [mergeVisits] at ok
    split at ok
    · cases ok
    · rename_i u one
      have worked := mergeOne_worked nodup one
      exact ih (worked.nodup nodup) (step.1 _ _ nodup start worked) step.2 ok

theorem mergeVisits_nodup (nodup : t.modules.Nodup) (ok : t.mergeVisits vs = (t', none)) :
    t'.modules.Nodup :=
  (mergeVisits_induction (P := fun _ => True) nodup trivial (fun _ _ _ _ _ _ _ => trivial) ok).1

theorem mergeVisits_keeps (nodup : t.modules.Nodup) (ok : t.mergeVisits vs = (t', none))
    (mem : p ∈ t.places) :
    ∃ q ∈ t'.places, q.id = p.id ∧ q.above = p.above ∧ p.depth ≤ q.depth := by
  refine (mergeVisits_induction (P := fun t => ∃ q ∈ t.places, q.id = p.id ∧ q.above = p.above ∧
    p.depth ≤ q.depth) nodup ⟨p, mem, rfl, rfl, Nat.le_refl _⟩ ?_ ok).2
  rintro v - t t' - ⟨q, there, id, above, depth⟩ worked
  obtain ⟨q', there', id', above', depth'⟩ := worked.keeps there
  exact ⟨q', there', id'.trans id, above'.trans above, depth.trans depth'⟩

/-! ### The trees of all streams -/

def visitsOf (trees : List StreamTree) : List Visit := trees.flatMap fun s => s.tree.visits

theorem mergeSources_visits {f : DependencyTree → StreamTree → Except TreeError DependencyTree}
    (ok : ∀ t s t', t.merge s.tree = (t', none) → f t s = .ok t')
    (failed : ∀ t s t' e, t.merge s.tree = (t', some e) → f t s = .error e)
    {sources : List StreamTree} (all : sources.foldlM f t = .ok t') :
    t.mergeVisits (visitsOf sources) = (t', none) := by
  induction sources generalizing t with
  | nil =>
    cases all
    rfl
  | cons s rest ih =>
    rw [List.foldlM_cons] at all
    rw [visitsOf, List.flatMap_cons]
    rcases merged : t.merge s.tree with ⟨u, ⟨⟩ | ⟨e⟩⟩
    · rw [ok _ _ _ merged] at all
      rw [mergeVisits_append merged]
      exact ih all
    · rw [failed _ _ _ _ merged] at all
      cases all

theorem mergeRound_visits {waiting left : List StreamTree}
    (ok : mergeRound waiting t = .ok (t', left)) : ∃ merged,
      (merged ++ left).Perm waiting ∧ t.mergeVisits (visitsOf merged) = (t', none) := by
  induction waiting generalizing t left with
  | nil =>
    cases ok
    exact ⟨[], List.Perm.refl _, rfl⟩
  | cons s rest ih =>
    rw [mergeRound] at ok
    split at ok
    · split at ok
      · cases ok
      · rename_i u first
        obtain ⟨merged, perm, visits⟩ := ih ok
        refine ⟨s :: merged, perm.cons s, ?_⟩
        rw [visitsOf, List.flatMap_cons, mergeVisits_append first]
        exact visits
    · cases later : mergeRound rest t with
      | error e =>
        rw [later] at ok
        cases ok
      | ok r =>
        rw [later] at ok
        cases ok
        obtain ⟨merged, perm, visits⟩ := ih later
        exact ⟨merged, List.perm_middle.trans (perm.cons s), visits⟩

theorem mergeWaiting_visits {waiting : List StreamTree} (ok : mergeWaiting waiting t = .ok t') :
    ∃ order, order.Perm waiting ∧ t.mergeVisits (visitsOf order) = (t', none) := by
  fun_induction mergeWaiting waiting t with
  | case1 waiting t empty =>
    cases ok
    exact ⟨[], by rw [List.isEmpty_iff.mp empty], rfl⟩
  | case2 => cases ok
  | case3 waiting t some u left round shorter ih =>
    obtain ⟨merged, perm, visits⟩ := mergeRound_visits round
    obtain ⟨order, perm', visits'⟩ := ih ok
    refine ⟨merged ++ order, (perm'.append_left merged).trans perm, ?_⟩
    rw [visitsOf, List.flatMap_append]
    exact (mergeVisits_append visits _).trans visits'
  | case4 => cases ok

/-- The merge of all trees is one run over the visits of each, in some order of the trees. -/
theorem mergeAll_visits {trees : List StreamTree} (ok : mergeAll trees = .ok t) :
    ∃ order, order.Perm trees ∧ nil.mergeVisits (visitsOf order) = (t, none) := by
  obtain ⟨f, good, bad, all⟩ := mergeAll_eq
  rw [all] at ok
  split at ok
  · cases ok
  · rename_i u sources
    obtain ⟨order, perm, visits⟩ := mergeWaiting_visits ok
    refine ⟨trees.filter (!·.fromProcessor) ++ order, ?_, ?_⟩
    · refine (perm.append_left _).trans (List.perm_append_comm.trans ?_)
      exact List.filter_append_perm _ trees
    · rw [visitsOf, List.flatMap_append]
      exact (mergeVisits_append (mergeSources_visits good bad sources) _).trans visits

end EventFlow.DependencyTree

import EventFlow.Proofs.Arena.Basic
import Mathlib.Data.List.Nodup
import Mathlib.Data.List.Perm.Basic

/-!
The modules above a module. They are found by going up from level to level, and they stay when
modules are added (`Extends`).
-/

namespace EventFlow.Arena

variable {a b : Arena} {n l : Nat} {ms : List ModuleId} {id m p : ModuleId}

/-- The modules above a level, nearest first. -/
inductive Above (a : Arena) : Nat → List ModuleId → Prop where
  | top {n : Nat} (inside : n < a.levels.length) (first : (a.level n).parent = none) : Above a n []
  | under {n l : Nat} {ms : List ModuleId} (inside : n < a.levels.length)
      (parent : (a.level n).parent = some l) (hung : l < a.links.length)
      (rest : Above a (a.link l).owner ms) : Above a n ((a.link l).module.toList ++ ms)

theorem Above.unique {ms' : List ModuleId} (h : Above a n ms) (h' : Above a n ms') : ms = ms' := by
  induction h generalizing ms' with
  | top _ first =>
    cases h' with
    | top => rfl
    | under _ parent => cases first.symm.trans parent
  | under _ parent _ _ ih =>
    cases h' with
    | top _ first => cases first.symm.trans parent
    | under _ parent' _ rest =>
      obtain rfl := Option.some.inj (parent.symm.trans parent')
      rw [ih rest]

theorem Above.mem_of_parent (h : Above a n ms) (parent : (a.level n).parent = some l)
    (own : (a.link l).module = some id) : id ∈ ms := by
  cases h with
  | top _ first => cases first.symm.trans parent
  | under _ parent' =>
    obtain rfl := Option.some.inj (parent.symm.trans parent')
    simp [own]

theorem Extends.above (e : Extends a b) (h : Above a n ms) : Above b n ms := by
  induction h with
  | @top n inside first =>
    exact .top (Nat.lt_of_lt_of_le inside e.levels) ((e.level n inside).2.trans first)
  | @under n l ms inside parent hung _ ih =>
    obtain ⟨module, owner⟩ := e.link l hung
    rw [← module]
    exact .under (Nat.lt_of_lt_of_le inside e.levels) ((e.level n inside).2.trans parent)
      (Nat.lt_of_lt_of_le hung e.links) (owner ▸ ih)

/-! ### The way up -/

section
variable (h : a.WellFormed none)
include h

theorem WellFormed.exists_depth {d : Nat} (inside : n < a.levels.length)
    (above : d ≤ (a.level n).depth) : ∃ k < a.levels.length, (a.level k).depth = d := by
  obtain ⟨e, deep⟩ : ∃ e, (a.level n).depth = e := ⟨_, rfl⟩
  induction e generalizing n with
  | zero => exact ⟨n, inside, by omega⟩
  | succ e ih =>
    by_cases here : d = e + 1
    · exact ⟨n, inside, deep.trans here.symm⟩
    · have lower : n ≠ 0 := by
        rintro rfl
        rw [h.root.2.1] at deep
        cases deep
      obtain ⟨l, -, next, depth⟩ := h.up n inside lower (by simp)
      rw [depthOf] at depth
      exact ih (h.owner_lt (lt_of_next next)) (by omega) (by omega)

/-- There is a level at every depth on the way up, so that a depth is less than the number of
levels. -/
theorem WellFormed.depth_lt (inside : n < a.levels.length) :
    (a.level n).depth < a.levels.length := by
  have passed : List.range ((a.level n).depth + 1) ⊆
      (List.range a.levels.length).map fun k => (a.level k).depth := by
    intro d hd
    obtain ⟨k, hk, depth⟩ := h.exists_depth inside (Nat.lt_succ_iff.mp (List.mem_range.mp hd))
    exact List.mem_map.mpr ⟨k, List.mem_range.mpr hk, depth⟩
  have size := (List.subperm_of_subset List.nodup_range passed).length_le
  rwa [List.length_range, List.length_map, List.length_range] at size

theorem WellFormed.above_climb {fuel : Nat} (inside : n < a.levels.length)
    (enough : (a.level n).depth < fuel) : Above a n (a.climb fuel n) := by
  induction fuel generalizing n with
  | zero => cases enough
  | succ fuel ih =>
    rw [climb]
    by_cases top : n = 0
    · subst top
      rw [h.root.2.2]
      exact .top inside h.root.2.2
    · obtain ⟨l, parent, next, depth⟩ := h.up n inside top (by simp)
      rw [parent]
      rw [depthOf] at depth
      have hung := lt_of_next next
      exact .under inside parent hung (ih (h.owner_lt hung) (by omega))

theorem WellFormed.above_ancestors (hung : l < a.links.length) :
    Above a (a.link l).owner (a.ancestors l) :=
  h.above_climb (h.owner_lt hung) (h.depth_lt (h.owner_lt hung))

theorem WellFormed.lt_of_index (placed : a.index.value? id = some l) : l < a.links.length :=
  lt_of_module ((h.index id l).mp placed)

theorem WellFormed.mem_row : id ∈ a.row n ↔
    ∃ l, a.index.value? id = some l ∧ (a.link l).owner = n := by
  rw [row, List.mem_filterMap]
  constructor
  · rintro ⟨l, held, module⟩
    exact ⟨l, (h.index id l).mpr module, (h.held n l held).2⟩
  · rintro ⟨l, placed, rfl⟩
    exact ⟨l, h.owned l (h.lt_of_index placed), (h.index id l).mp placed⟩

theorem WellFormed.above?_eq_some : a.above? id = some ms ↔
    ∃ l, a.index.value? id = some l ∧ Above a (a.link l).owner ms := by
  rw [above?, Option.map_eq_some_iff]
  constructor
  · rintro ⟨l, placed, rfl⟩
    exact ⟨l, placed, h.above_ancestors (h.lt_of_index placed)⟩
  · rintro ⟨l, placed, above⟩
    exact ⟨l, placed, (h.above_ancestors (h.lt_of_index placed)).unique above⟩

end

theorem contains_iff : a.contains id = true ↔ ∃ l, a.index.value? id = some l := by
  rw [contains, Table.has, Option.isSome_iff_exists]

theorem Extends.index (e : Extends a b) (ha : a.WellFormed none) (hb : b.WellFormed none)
    (placed : a.index.value? id = some l) : b.index.value? id = some l := by
  have hung := ha.lt_of_index placed
  rw [hb.index, (e.link l hung).1]
  exact (ha.index id l).mp placed

theorem Extends.above?_eq (e : Extends a b) (ha : a.WellFormed none) (hb : b.WellFormed none)
    (placed : a.contains id = true) : b.above? id = a.above? id := by
  obtain ⟨l, placed⟩ := contains_iff.mp placed
  have hung := ha.lt_of_index placed
  have above := ha.above_ancestors hung
  rw [show a.above? id = some (a.ancestors l) by rw [above?, placed]; rfl, hb.above?_eq_some]
  refine ⟨l, e.index ha hb placed, ?_⟩
  rw [(e.link l hung).2]
  exact e.above above

end EventFlow.Arena

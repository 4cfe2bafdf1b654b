import EventFlow.Proofs.Arena.Above
import Mathlib.Data.List.Range

/-!
The rounds of a queue that starts at the top of an arena: one for every depth, so that each level,
and with it each link, comes once.
-/

namespace EventFlow.Arena

variable {a : Arena} {n k l d : Nat} {ns : List Nat} {id : ModuleId}

def generation (a : Arena) (ns : List Nat) : Nat → List Nat
  | 0 => ns
  | k + 1 => a.generation (ns.flatMap a.below) k

theorem generation_nil : a.generation [] k = [] := by
  induction k with
  | zero => rfl
  | succ k ih => exact ih

theorem generation_succ : a.generation ns (k + 1) = (a.generation ns k).flatMap a.below := by
  induction k generalizing ns with
  | zero => rfl
  | succ k ih => exact ih

/-- The queue ends with the first empty round, and all later ones would be empty too. -/
theorem getD_roundsFrom {fuel : Nat} :
    (a.roundsFrom fuel ns)[k]?.getD [] = if k < fuel then a.generation ns k else [] := by
  induction fuel generalizing ns k with
  | zero => simp [roundsFrom]
  | succ fuel ih =>
    cases ns with
    | nil => simp [roundsFrom, generation_nil]
    | cons n ns =>
      rw [roundsFrom]
      · cases k with
        | zero => simp [generation]
        | succ k => simpa [generation] using ih
      · simp

theorem flatten_roundsFrom {fuel : Nat} :
    (a.roundsFrom fuel ns).flatten = (List.range fuel).flatMap (a.generation ns) := by
  induction fuel generalizing ns with
  | zero => rfl
  | succ fuel ih =>
    cases ns with
    | nil =>
      symm
      simp [roundsFrom, generation_nil]
    | cons n ns =>
      rw [roundsFrom]
      · rw [List.flatten_cons, ih, List.range_succ_eq_map]
        simp only [List.flatMap_cons, List.flatMap_map]
        rfl
      · simp

section
variable (h : a.WellFormed none)
include h

theorem WellFormed.mem_generation :
    n ∈ a.generation [0] k ↔ n < a.levels.length ∧ (a.level n).depth = k := by
  induction k generalizing n with
  | zero =>
    rw [generation, List.mem_singleton]
    constructor
    · rintro rfl
      exact ⟨h.root.1, h.root.2.1⟩
    · rintro ⟨inside, top⟩
      by_contra lower
      exact Nat.lt_irrefl _ (top ▸ h.depth_pos inside lower (by simp))
  | succ k ih =>
    rw [generation_succ, List.mem_flatMap]
    constructor
    · rintro ⟨m, mem, below⟩
      obtain ⟨inside, -, -, depth⟩ := h.depth_of_mem_below below
      exact ⟨inside, depth.trans (congrArg _ (ih.mp mem).2)⟩
    · rintro ⟨inside, depth⟩
      have lower : n ≠ 0 := by
        rintro rfl
        cases depth.symm.trans h.root.2.1
      obtain ⟨m, inside', below⟩ := h.exists_below inside lower (by simp)
      have deep := (h.depth_of_mem_below below).2.2.2
      exact ⟨m, ih.mpr ⟨inside', by omega⟩, below⟩

theorem WellFormed.generation_nodup : (a.generation [0] k).Nodup := by
  induction k with
  | zero => exact List.nodup_singleton 0
  | succ k ih =>
    rw [generation_succ, List.nodup_flatMap]
    refine ⟨fun n _ => h.below_nodup, ih.imp fun differ => ?_⟩
    intro m first second
    exact differ (h.below_unique first second)

theorem WellFormed.flatten_rounds : a.rounds.flatten.Perm (List.range a.levels.length) := by
  rw [rounds, flatten_roundsFrom]
  refine (List.perm_ext_iff_of_nodup ?_ List.nodup_range).mpr fun n => ?_
  · refine List.nodup_flatMap.mpr ⟨fun k _ => h.generation_nodup, ?_⟩
    refine List.nodup_range.imp fun differ n first second => differ ?_
    exact (h.mem_generation.mp first).2.symm.trans (h.mem_generation.mp second).2
  · rw [List.mem_flatMap, List.mem_range]
    constructor
    · rintro ⟨k, -, mem⟩
      exact (h.mem_generation.mp mem).1
    · intro inside
      exact ⟨_, List.mem_range.mpr (h.depth_lt inside), h.mem_generation.mpr ⟨inside, rfl⟩⟩

/-- Every link is reached once from the top. -/
theorem WellFormed.links_reached :
    (a.rounds.flatten.flatMap fun n => (a.level n).links).Perm (List.range a.links.length) := by
  refine (h.flatten_rounds.flatMap_right _).trans ?_
  refine (List.perm_ext_iff_of_nodup ?_ List.nodup_range).mpr fun l => ?_
  · refine List.nodup_flatMap.mpr ⟨fun n _ => h.once n, ?_⟩
    refine List.nodup_range.imp fun differ l first second => differ ?_
    exact (h.held _ l first).2.symm.trans (h.held _ l second).2
  · rw [List.mem_flatMap, List.mem_range]
    constructor
    · rintro ⟨n, -, mem⟩
      exact (h.held n l mem).1
    · intro inside
      exact ⟨_, List.mem_range.mpr (h.owner_lt inside), h.owned l inside⟩

theorem WellFormed.mem_rounds :
    n ∈ a.rounds[d]?.getD [] ↔ n < a.levels.length ∧ (a.level n).depth = d := by
  rw [rounds, getD_roundsFrom]
  split
  · exact h.mem_generation
  · rename_i deeper
    constructor
    · simp
    · rintro ⟨inside, rfl⟩
      exact absurd (h.depth_lt inside) deeper

theorem WellFormed.depth?_eq_some :
    a.depth? id = some d ↔ ∃ row, a.rows[d]? = some row ∧ id ∈ row := by
  have listed : (∃ row, a.rows[d]? = some row ∧ id ∈ row) ↔
      ∃ n ∈ a.rounds[d]?.getD [], id ∈ a.row n := by
    rw [rows, List.getElem?_map]
    cases a.rounds[d]? <;> simp
  rw [listed, depth?, Option.map_eq_some_iff]
  constructor
  · rintro ⟨l, placed, depth⟩
    have owner := h.owner_lt (h.lt_of_index placed)
    exact ⟨_, h.mem_rounds.mpr ⟨owner, depth⟩, h.mem_row.mpr ⟨l, placed, rfl⟩⟩
  · rintro ⟨n, mem, there⟩
    obtain ⟨l, placed, rfl⟩ := h.mem_row.mp there
    exact ⟨l, placed, (h.mem_rounds.mp mem).2⟩

end

end EventFlow.Arena

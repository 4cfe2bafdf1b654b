import Mathlib
import EventFlow.Proofs.Arena.Settled

/-!
Pushing a module down takes along what is below it and leaves every other module at its depth.
-/

namespace EventFlow.Arena

variable {a b src : Arena} {l i n s moved d distance target : Nat} {id m : ModuleId}
  {ms : List ModuleId} {vs ws : List Visit} {srcs : List Arena} {streams : List Readers}

/-! ### Modules below a module -/

/-- The modules below a placed module. -/
def below? (a : Arena) (id : ModuleId) : Option (List ModuleId) :=
  (a.index.value? id).map a.descendants

theorem Above.within (above : Above a n ms) (h : a.WellFormed none)
    (own : (a.link l).module = some id) (mem : id ∈ ms) :
    ∃ s, (a.link l).next = some s ∧ a.Within s n := by
  induction above with
  | top => cases mem
  | @under n i ms inside parent hung _ ih =>
    have next := (h.parent inside (by simp) parent).1
    rcases List.mem_append.mp mem with here | higher
    · have own' : (a.link i).module = some id := by simpa using here
      obtain rfl : i = l :=
        Option.some.inj (((h.index id i).mpr own').symm.trans ((h.index id l).mpr own))
      exact ⟨n, next, .refl⟩
    · obtain ⟨s, first, within⟩ := ih higher
      exact ⟨s, first, within.tail (h.mem_below_iff.mpr ⟨i, rfl, next⟩)⟩

theorem WellFormed.mem_descendants_iff (h : a.WellFormed none)
    (placed : a.index.value? id = some l) :
    m ∈ a.descendants l ↔ ∃ ms, a.above? m = some ms ∧ id ∈ ms := by
  constructor
  · exact h.above_descendant placed
  · rintro ⟨ms, found, mem⟩
    obtain ⟨i, place, above⟩ := h.above?_eq_some.mp found
    obtain ⟨s, next, within⟩ := above.within h ((h.index id l).mp placed) mem
    exact h.mem_descendants.mpr ⟨s, i, next, place, within⟩

/-! ### Depths -/

/-- An arena `b` in which the module of the link `l` has been moved to the link `moved`, with the
levels below it and no others. -/
structure Lowered (a b : Arena) (l moved : Nat) (id : ModuleId) (distance : Nat) : Prop where
  turned : Turned a b l moved id
  own : b.depthOf moved = a.depthOf l + distance
  lower : ∀ s n, (a.link l).next = some s → a.Within s n →
    (b.level n).depth = (a.level n).depth + distance
  stay : ∀ n < a.levels.length, (∀ s, (a.link l).next = some s → ¬ a.Within s n) →
    (b.level n).depth = (a.level n).depth

theorem Chained.depth (c : Chained a b l moved id distance) :
    b.depthOf moved = a.depthOf l + distance := by
  rw [c.hung.depth, depthOf, depthOf, owner_vacate, level_vacate]

theorem Chained.lowered_none (c : Chained a b l moved id distance)
    (next : (a.link l).next = none) : Lowered a b l moved id distance where
  turned := c.turned_none next
  own := c.depth
  lower s n next' := by cases next.symm.trans next'
  stay n inside _ := (c.hung.old.level n inside).1

theorem Chained.lowered_some (c : Chained a b l moved id distance) (h : a.WellFormed none)
    (next : (a.link l).next = some s) :
    Lowered a ((b.adopt moved s).shiftDepth s distance) l moved id distance where
  turned := c.turned_some h next
  own := by
    have adopted := c.adopted h next
    rw [depthOf, adopted.owner, adopted.stay _ (c.spares h next).2]
    exact c.depth
  lower s' n next' within := by
    obtain rfl := Option.some.inj (next.symm.trans next')
    have inside := (h.within (h.down l s next).1 within).1
    rw [(c.adopted h next).lower n ((c.within h next).mpr within), (c.hung.old.level n inside).1,
      level_vacate]
  stay n inside apart := by
    rw [(c.adopted h next).stay n (mt (c.within h next).mp (apart s next)),
      (c.hung.old.level n inside).1, level_vacate]

theorem WellFormed.lowered (h : a.WellFormed none) (placed : a.index.value? id = some l)
    (deeper : a.depthOf l < target) :
    ∃ moved, Lowered a (a.pushDown id target) l moved id (target - a.depthOf l) := by
  have chained := h.chained placed (target - a.depthOf l - 1)
  have distance : 1 + (target - a.depthOf l - 1) = target - a.depthOf l := by omega
  rw [distance] at chained
  rw [pushDown_eq placed deeper]
  cases next : (a.link l).next with
  | none => exact ⟨_, chained.lowered_none next⟩
  | some s => exact ⟨_, chained.lowered_some h next⟩

theorem Lowered.depth?_self (low : Lowered a b l moved id distance) :
    b.depth? id = some (a.depthOf l + distance) := by
  rw [depth?, low.turned.index, if_pos rfl, ← low.own]
  rfl

theorem Lowered.depth?_other (low : Lowered a b l moved id distance) (h : a.WellFormed none)
    (placed : a.index.value? id = some l) (other : m ≠ id) : b.depth? m =
      (a.depth? m).map fun e => if m ∈ a.descendants l then e + distance else e := by
  rw [depth?, depth?, low.turned.index, if_neg other]
  cases place : a.index.value? m with
  | none => rfl
  | some i =>
    have hung := h.lt_of_index place
    have apart : i ≠ l := by
      rintro rfl
      have own := (h.index m i).mp place
      rw [(h.index id i).mp placed, Option.some.injEq] at own
      exact other own.symm
    have owner := (low.turned.link i hung apart).2
    simp only [Option.map_some, Option.some.injEq, depthOf, owner]
    split
    · rename_i below
      obtain ⟨s, i', next, place', within⟩ := h.mem_descendants.mp below
      obtain rfl := Option.some.inj (place.symm.trans place')
      exact low.lower s _ next within
    · rename_i aside
      refine low.stay _ (h.owner_lt hung) fun s next within => aside ?_
      exact h.mem_descendants.mpr ⟨s, i, next, place, within⟩

/-! ### Arenas that merges come to -/

/-- The arena of nothing, that of a stream, and any arena that merges of these come to. A merge may
still be under way, or have failed. -/
inductive Reached : Arena → Prop where
  | start : Reached {}
  | stream {a : Arena} {key : StreamKey} {users : List (ModuleId × Tap)}
      (built : ofStream key users = .ok a) : Reached a
  | merging {a src : Arena} {vs : List Visit} (reached : Reached a) (source : Reached src)
      (part : vs <+: src.visits) : Reached (a.mergeVisits src vs).1

theorem ParentsFirst.of_append {seen : List ModuleId} (h : ParentsFirst seen (vs ++ ws)) :
    ParentsFirst seen vs := by
  induction vs generalizing seen with
  | nil => trivial
  | cons v vs ih => exact ⟨h.1, ih h.2⟩

theorem Reached.sound (reached : Reached a) : Sound (fun _ _ => True) a := by
  have : IsTrans ModuleId fun _ _ => True := ⟨fun _ _ _ _ _ => trivial⟩
  induction reached with
  | start => exact sound_empty
  | stream built => exact ofStream_sound (fun _ _ => trivial) built
  | @merging a src vs _ _ part ih source =>
    obtain ⟨ws, split⟩ := part
    have first : ParentsFirst [] vs := (split ▸ source.wellFormed.parentsFirst).of_append
    have visited : ∀ v ∈ vs, v ∈ src.visits := fun v mem => split ▸ List.mem_append_left ws mem
    exact (mergeVisits_spec ih source visited first (by simp)).1.sound

theorem Reached.mergeEach (reached : Reached a) (built : Built streams srcs) :
    Reached (a.mergeEach srcs) := by
  induction built generalizing a with
  | nil => exact reached
  | cons ok _ ih => exact ih (reached.merging (.stream ok) List.prefix_rfl)

/-- Pushing a placed module down to a greater depth puts it there and takes along the modules below
it, those that it is above. No other module changes its depth and none the modules above it, and
there is one filler more for every level that the module goes down. -/
theorem pushDown_moves_subtree (reached : Reached a) (depth : a.depth? id = some d)
    (deeper : d < target) :
    (a.pushDown id target).depth? id = some target ∧
    (∃ lower, a.below? id = some lower ∧
      (∀ m, m ∈ lower ↔ ∃ ms, a.above? m = some ms ∧ id ∈ ms) ∧
      (∀ m ∈ lower, ∃ e, a.depth? m = some e ∧
        (a.pushDown id target).depth? m = some (e + (target - d))) ∧
      ∀ m ∉ lower, m ≠ id → (a.pushDown id target).depth? m = a.depth? m) ∧
    (∀ m, (a.pushDown id target).above? m = a.above? m) ∧
    (a.pushDown id target).fillers = a.fillers + (target - d) := by
  have h := reached.sound.wellFormed
  obtain ⟨l, placed, rfl⟩ := Option.map_eq_some_iff.mp depth
  obtain ⟨moved, low⟩ := h.lowered placed deeper
  have below {m : ModuleId} : m ∈ a.descendants l ↔ ∃ ms, a.above? m = some ms ∧ id ∈ ms :=
    h.mem_descendants_iff placed
  refine ⟨?_, ⟨a.descendants l, ?_, fun m => below, fun m mem => ?_, fun m aside other => ?_⟩,
    low.turned.above?_eq h placed, h.fillers_pushDown placed deeper⟩
  · rw [low.depth?_self]
    exact congrArg some (by omega)
  · rw [below?, placed]
    rfl
  · obtain ⟨s, i, next, place, within⟩ := h.mem_descendants.mp mem
    have other : m ≠ id := by
      rintro rfl
      obtain rfl := Option.some.inj (place.symm.trans placed)
      exact h.owner_apart next within
    have found : a.depth? m = some (a.depthOf i) := by
      rw [depth?, place]
      rfl
    refine ⟨_, found, ?_⟩
    rw [low.depth?_other h placed other, found]
    simp [mem]
  · rw [low.depth?_other h placed other]
    simp [aside]

/-- Module 2 goes down by three levels and takes 3 along, while 5 stays beside the old place of 3. -/
theorem tangled_pushed_down : Reached (mergeEach {} (tangled.map treeOf)) ∧
    (mergeEach {} (tangled.map treeOf)).depth? ⟨2⟩ = some 1 ∧ 1 < 4 ∧
    ((mergeEach {} (tangled.map treeOf)).pushDown ⟨2⟩ 4).depth? ⟨2⟩ = some 4 ∧
    ((mergeEach {} (tangled.map treeOf)).pushDown ⟨2⟩ 4).depth? ⟨3⟩ = some 5 ∧
    ((mergeEach {} (tangled.map treeOf)).pushDown ⟨2⟩ 4).depth? ⟨5⟩ = some 2 ∧
    ((mergeEach {} (tangled.map treeOf)).pushDown ⟨2⟩ 4).above? ⟨3⟩ = some [⟨2⟩, ⟨1⟩] ∧
    ((mergeEach {} (tangled.map treeOf)).pushDown ⟨2⟩ 4).fillers = 5 := by
  have built : Built tangled (tangled.map treeOf) :=
    List.forall₂_map_right_iff.mpr (List.forall₂_same.mpr tangled_built)
  have reached := Reached.start.mergeEach built
  have depth : (mergeEach {} (tangled.map treeOf)).depth? ⟨2⟩ = some 1 := by cbv
  have deeper : 1 < 4 := by decide
  obtain ⟨own, ⟨lower, below, -, moved, stayed⟩, above, fillers⟩ :=
    pushDown_moves_subtree reached depth deeper
  obtain rfl : lower = [⟨3⟩] := Option.some.inj (below.symm.trans (by cbv))
  refine ⟨reached, depth, deeper, own, ?_, ?_, ?_, ?_⟩
  · obtain ⟨e, old, new⟩ := moved ⟨3⟩ (by simp)
    have two : (mergeEach {} (tangled.map treeOf)).depth? ⟨3⟩ = some 2 := by cbv
    obtain rfl := Option.some.inj (old.symm.trans two)
    exact new
  · rw [stayed ⟨5⟩ (by decide) (by decide)]
    cbv
  · rw [above]
    cbv
  · rw [fillers]
    cbv

end EventFlow.Arena

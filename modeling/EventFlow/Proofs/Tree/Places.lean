import Mathlib.Algebra.GroupWithZero.Nat
import EventFlow.Proofs.Tree.Placing

/-!
Where the modules of a tree stand. A module that is added leaves all others where they are, and one
that is pushed down takes all below it along over the same distance.
-/

namespace EventFlow.DependencyTree

/-- Where a module stands: below which modules, from the top down, and how deep. -/
structure Place where
  id : ModuleId
  above : List ModuleId
  depth : Nat

def Place.shift (id : ModuleId) (k : Nat) (p : Place) : Place :=
  if p.id = id ∨ id ∈ p.above then { p with depth := p.depth + k } else p

@[simp] theorem Place.shift_id (id : ModuleId) (k : Nat) (p : Place) :
    (p.shift id k).id = p.id := by
  unfold shift
  split <;> rfl

@[simp] theorem Place.shift_above (id : ModuleId) (k : Nat) (p : Place) :
    (p.shift id k).above = p.above := by
  unfold shift
  split <;> rfl

theorem Place.shift_depth (id : ModuleId) (k : Nat) (p : Place) :
    (p.shift id k).depth = if p.id = id ∨ id ∈ p.above then p.depth + k else p.depth := by
  unfold shift
  split <;> rfl

/-- The places of all modules of a tree, the tops of which stand below `above` at a given depth. -/
def placesFrom : List ModuleId → Nat → DependencyTree → List Place
  | _, _, nil => []
  | above, d, link m below rest =>
    m.toList.map (⟨·, above, d⟩) ++
      (placesFrom (above ++ m.toList) (d + 1) below ++ placesFrom above d rest)

def places (t : DependencyTree) : List Place := t.placesFrom [] 0

variable {t : DependencyTree} {above : List ModuleId} {d : Nat} {p q : Place}

section
variable {id parent : ModuleId}

theorem map_id_placesFrom (above : List ModuleId) (d : Nat) (t : DependencyTree) :
    (placesFrom above d t).map (·.id) = t.modules := by
  induction t generalizing above d with
  | nil => rfl
  | link m below rest ihBelow ihRest =>
    simp [placesFrom, modules, ihBelow, ihRest, Function.comp_def]

theorem map_id_places (t : DependencyTree) : t.places.map (·.id) = t.modules :=
  map_id_placesFrom [] 0 t

theorem mem_modules_of_place (mem : p ∈ placesFrom above d t) : p.id ∈ t.modules :=
  map_id_placesFrom above d t ▸ List.mem_map_of_mem mem

theorem exists_place (mem : id ∈ t.modules) : ∃ p ∈ t.places, p.id = id :=
  List.mem_map.mp (map_id_places t ▸ mem)

theorem place_unique (nodup : t.modules.Nodup) (hp : p ∈ t.places) (hq : q ∈ t.places)
    (same : p.id = q.id) : p = q :=
  List.inj_on_of_nodup_map (map_id_places t ▸ nodup) hp hq same

theorem place_cases {m : Option ModuleId} {below rest : DependencyTree}
    (nodup : (link m below rest).modules.Nodup) (mem : p ∈ placesFrom above d (link m below rest)) :
    (p = ⟨p.id, above, d⟩ ∧ m = some p.id ∧ p.id ∉ rest.modules) ∨
    (p ∈ placesFrom (above ++ m.toList) (d + 1) below ∧ below.modules.Nodup ∧ m ≠ some p.id ∧
      p.id ∉ rest.modules) ∨
    (p ∈ placesFrom above d rest ∧ rest.modules.Nodup ∧ m ≠ some p.id ∧ p.id ∉ below.modules) := by
  simp only [modules] at nodup
  obtain ⟨left, nodupRest, apart⟩ := List.nodup_append.mp nodup
  obtain ⟨-, nodupBelow, apart'⟩ := List.nodup_append.mp left
  rw [placesFrom, List.mem_append, List.mem_append] at mem
  rcases mem with here | inBelow | inRest
  · obtain ⟨x, top, rfl⟩ := List.mem_map.mp here
    exact Or.inl ⟨rfl, Option.mem_toList.mp top, fun mem =>
      apart x (List.mem_append_left _ top) x mem rfl⟩
  · have there := mem_modules_of_place inBelow
    exact Or.inr (Or.inl ⟨inBelow, nodupBelow,
      fun same => apart' p.id (Option.mem_toList.mpr same) p.id there rfl,
      fun mem => apart p.id (List.mem_append_right _ there) p.id mem rfl⟩)
  · have there := mem_modules_of_place inRest
    exact Or.inr (Or.inr ⟨inRest, nodupRest,
      fun same => apart p.id (List.mem_append_left _ (Option.mem_toList.mpr same)) p.id there rfl,
      fun mem => apart p.id (List.mem_append_right _ mem) p.id there rfl⟩)

theorem mem_above (mem : p ∈ placesFrom above d t) {a : ModuleId} (ha : a ∈ p.above) :
    a ∈ above ∨ a ∈ t.modules := by
  induction t generalizing above d with
  | nil => cases mem
  | link m below rest ihBelow ihRest =>
    simp only [placesFrom, List.mem_append, List.mem_map] at mem
    simp only [modules, List.mem_append]
    rcases mem with ⟨x, -, rfl⟩ | inBelow | inRest
    · exact Or.inl ha
    · rcases ihBelow inBelow with early | there
      · rcases List.mem_append.mp early with before | here
        · exact Or.inl before
        · exact Or.inr (Or.inl (Or.inl here))
      · exact Or.inr (Or.inl (Or.inr there))
    · exact (ihRest inRest).imp_right Or.inr

theorem prefix_above (mem : p ∈ placesFrom above d t) : above <+: p.above := by
  induction t generalizing above d with
  | nil => cases mem
  | link m below rest ihBelow ihRest =>
    simp only [placesFrom, List.mem_append, List.mem_map] at mem
    rcases mem with ⟨x, -, rfl⟩ | inBelow | inRest
    · exact List.prefix_refl _
    · exact (List.prefix_append above _).trans (ihBelow inBelow)
    · exact ihRest inRest

theorem le_depth (mem : p ∈ placesFrom above d t) : d ≤ p.depth ∧ p.depth < d + t.height := by
  induction t generalizing above d with
  | nil => cases mem
  | link m below rest ihBelow ihRest =>
    simp only [placesFrom, List.mem_append, List.mem_map] at mem
    rw [height]
    rcases mem with ⟨x, -, rfl⟩ | inBelow | inRest
    · simp only
      omega
    · have := ihBelow inBelow
      omega
    · have := ihRest inRest
      omega

theorem nestedFrom (nodup : t.modules.Nodup) (outside : ∀ a ∈ above, a ∉ t.modules)
    (hp : p ∈ placesFrom above d t) (hq : q ∈ placesFrom above d t) (higher : q.id ∈ p.above) :
    q.above ++ [q.id] <+: p.above ∧ q.depth < p.depth := by
  induction t generalizing above d with
  | nil => cases hp
  | link m below rest ihBelow ihRest =>
    have foreign : q.id ∉ above := fun mem => outside _ mem (mem_modules_of_place hq)
    have inner : below.modules ⊆ (link m below rest).modules := fun x hx => by simp [modules, hx]
    have outer : rest.modules ⊆ (link m below rest).modules := fun x hx => by simp [modules, hx]
    -- A module and one above it are in the same tree, unless the upper one is the top.
    rcases place_cases nodup hp with ⟨here, -⟩ | ⟨inBelow, nodupBelow, -⟩ | ⟨inRest, nodupRest, -⟩
    · rw [here] at higher
      exact absurd higher foreign
    · rcases place_cases nodup hq with ⟨here, top, -⟩ | ⟨inBelow', -⟩ | ⟨-, -, other, absent⟩
      · have start := prefix_above inBelow
        have deep := (le_depth inBelow).1
        rw [top] at start
        rw [here]
        exact ⟨start, deep⟩
      · refine ihBelow nodupBelow (fun a ha mem => ?_) inBelow inBelow'
        rcases List.mem_append.mp ha with early | top
        · exact outside a early (inner mem)
        · exact (List.nodup_append.mp (List.nodup_append.mp nodup).1).2.2 a top a mem rfl
      · rcases mem_above inBelow higher with early | there
        · rcases List.mem_append.mp early with early | top
          · exact absurd early foreign
          · exact absurd (Option.mem_toList.mp top) other
        · exact absurd there absent
    · have absent : q.id ∈ rest.modules := (mem_above inRest higher).resolve_left foreign
      rcases place_cases nodup hq with ⟨-, -, elsewhere⟩ | ⟨-, -, -, elsewhere⟩ | ⟨inRest', -⟩
      · exact absurd absent elsewhere
      · exact absurd absent elsewhere
      · exact ihRest nodupRest (fun a ha mem => outside a ha (outer mem)) inRest inRest'

theorem nested (nodup : t.modules.Nodup) (hp : p ∈ t.places) (hq : q ∈ t.places)
    (higher : q.id ∈ p.above) : q.above ++ [q.id] <+: p.above ∧ q.depth < p.depth :=
  nestedFrom nodup (by simp) hp hq higher

theorem above_of_above {r : Place} (nodup : t.modules.Nodup) (hp : p ∈ t.places)
    (hq : q ∈ t.places) (higher : q.id ∈ p.above) (above : r.id ∈ q.above) : r.id ∈ p.above :=
  (nested nodup hp hq higher).1.subset (List.mem_append_left _ above)

theorem above_cases {r : Place} (nodup : t.modules.Nodup) (hp : p ∈ t.places) (hq : q ∈ t.places)
    (hr : r ∈ t.places) (first : q.id ∈ p.above) (second : r.id ∈ p.above) :
    q.id ∈ r.above ∨ q.id = r.id ∨ r.id ∈ q.above := by
  have upTo := (nested nodup hp hq first).1
  have upTo' := (nested nodup hp hr second).1
  rcases List.prefix_or_prefix_of_prefix upTo upTo' with short | short
  · rcases List.prefix_concat_iff.mp short with same | short
    · exact Or.inr (Or.inl (List.singleton_inj.mp (List.append_inj' same rfl).2))
    · exact Or.inl (short.subset (by simp))
  · rcases List.prefix_concat_iff.mp short with same | short
    · exact Or.inr (Or.inl (List.singleton_inj.mp (List.append_inj' same rfl).2).symm)
    · exact Or.inr (Or.inr (short.subset (by simp)))

theorem above_of_within {r : Place} (nodup : t.modules.Nodup) (hp : p ∈ t.places)
    (hq : q ∈ t.places) (hr : r ∈ t.places) (higher : q.id ∈ p.above)
    (within : p.id = r.id ∨ r.id ∈ p.above) (outside : ¬ (q.id = r.id ∨ r.id ∈ q.above)) :
    q.id ∈ r.above := by
  rcases within with same | lower
  · exact place_unique nodup hp hr same ▸ higher
  · rcases above_cases nodup hp hq hr higher lower with above | same | below
    · exact above
    · exact absurd (Or.inl same) outside
    · exact absurd (Or.inr below) outside

/-! ### Looking up -/

theorem find?_link {m : Option ModuleId} {below rest : DependencyTree} (other : m ≠ some id) :
    (placesFrom above d (link m below rest)).find? (·.id == id) =
      ((placesFrom (above ++ m.toList) (d + 1) below).find? (·.id == id)).or
        ((placesFrom above d rest).find? (·.id == id)) := by
  have head : (m.toList.map fun x => (⟨x, above, d⟩ : Place)).find? (·.id == id) = none := by
    rw [List.find?_eq_none]
    intro p mem
    obtain ⟨x, hx, rfl⟩ := List.mem_map.mp mem
    have differs : x ≠ id := fun same => other (same ▸ Option.mem_toList.mp hx)
    simpa using differs
  rw [placesFrom, List.find?_append, head, Option.none_or, List.find?_append]

theorem depthFrom_eq (id : ModuleId) (above : List ModuleId) (d : Nat) (t : DependencyTree) :
    t.depthFrom id d = ((placesFrom above d t).find? (·.id == id)).map (·.depth) := by
  induction t generalizing above d with
  | nil => rfl
  | link m below rest ihBelow ihRest =>
    rw [depthFrom]
    split
    · rename_i here
      simp [placesFrom, here]
    · rename_i other
      rw [find?_link other, Option.map_or, ← ihBelow, ← ihRest]

theorem above?_eq (id : ModuleId) (above : List ModuleId) (d : Nat) (t : DependencyTree) :
    (t.above? id).map (above ++ ·) =
      ((placesFrom above d t).find? (·.id == id)).map (·.above) := by
  induction t generalizing above d with
  | nil => rfl
  | link m below rest ihBelow ihRest =>
    rw [above?]
    split
    · rename_i here
      simp [placesFrom, here]
    · rename_i other
      rw [find?_link other, Option.map_or, Option.map_or, ← ihBelow, ← ihRest, Option.map_map]
      simp only [Function.comp_def, List.append_assoc]

theorem find?_place (nodup : t.modules.Nodup) (mem : p ∈ t.places) :
    t.places.find? (·.id == p.id) = some p := by
  cases found : t.places.find? (·.id == p.id) with
  | none =>
    have absent := List.find?_eq_none.mp found p mem
    simp at absent
  | some q =>
    have same : q.id = p.id := by simpa using List.find?_some found
    rw [place_unique nodup (List.mem_of_find?_eq_some found) mem same]

theorem depth?_of_place (nodup : t.modules.Nodup) (mem : p ∈ t.places) :
    t.depth? p.id = some p.depth := by
  rw [depth?, depthFrom_eq p.id []]
  exact congrArg _ (find?_place nodup mem)

theorem above?_of_place (nodup : t.modules.Nodup) (mem : p ∈ t.places) :
    t.above? p.id = some p.above := by
  have found := above?_eq p.id [] 0 t
  simp only [List.nil_append, Option.map_id'] at found
  rw [found]
  exact congrArg _ (find?_place nodup mem)

theorem exists_place_of_depth? {n : Nat} (found : t.depth? id = some n) :
    ∃ p ∈ t.places, p.id = id ∧ p.depth = n := by
  rw [depth?, depthFrom_eq id []] at found
  obtain ⟨p, there, rfl⟩ := Option.map_eq_some_iff.mp found
  exact ⟨p, List.mem_of_find?_eq_some there, by simpa using List.find?_some there, rfl⟩

theorem exists_place_of_above? {found : List ModuleId} (there : t.above? id = some found) :
    ∃ p ∈ t.places, p.id = id ∧ p.above = found := by
  have same := above?_eq id [] 0 t
  simp only [List.nil_append, Option.map_id', there] at same
  obtain ⟨p, there, above⟩ := Option.map_eq_some_iff.mp same.symm
  exact ⟨p, List.mem_of_find?_eq_some there, by simpa using List.find?_some there, above⟩

/-! ### Modules that are added -/

theorem placesFrom_eq_flatMap (above : List ModuleId) (d : Nat) (t : DependencyTree) :
    placesFrom above d t = t.toList.flatMap fun e =>
      e.1.toList.map (⟨·, above, d⟩) ++ placesFrom (above ++ e.1.toList) (d + 1) e.2 := by
  induction t with
  | nil => rfl
  | link m below rest _ ih =>
    rw [placesFrom, toList, List.flatMap_cons, ← ih, List.append_assoc]

theorem fillers_eq_sum (t : DependencyTree) :
    t.fillers = (t.toList.map fun e => (if e.1.isNone then 1 else 0) + e.2.fillers).sum := by
  induction t with
  | nil => rfl
  | link m below rest _ ih => rw [fillers, toList, List.map_cons, List.sum_cons, ← ih]

theorem placesFrom_addTop (id : ModuleId) (above : List ModuleId) (d : Nat) (t : DependencyTree) :
    (placesFrom above d (t.addTop id)).Perm (⟨id, above, d⟩ :: placesFrom above d t) := by
  rw [placesFrom_eq_flatMap, placesFrom_eq_flatMap above d t]
  exact (toList_addTop id t).flatMap_right _

theorem fillers_addTop (id : ModuleId) (t : DependencyTree) :
    (t.addTop id).fillers = t.fillers := by
  rw [fillers_eq_sum, fillers_eq_sum t, ((toList_addTop id t).map _).sum_nat]
  simp [fillers]

theorem fillers_addBelow (parent id : ModuleId) (t : DependencyTree) :
    (t.addBelow parent id).fillers = t.fillers := by
  induction t with
  | nil => rfl
  | link m below rest ihBelow ihRest =>
    rw [addBelow]
    split
    · rw [fillers, fillers, fillers_addTop]
    · rw [fillers, fillers, ihBelow, ihRest]

theorem placesFrom_addBelow (nodup : t.modules.Nodup) (mem : p ∈ placesFrom above d t) :
    (placesFrom above d (t.addBelow p.id id)).Perm
      (⟨id, p.above ++ [p.id], p.depth + 1⟩ :: placesFrom above d t) := by
  induction t generalizing above d with
  | nil => cases mem
  | link m below rest ihBelow ihRest =>
    rcases place_cases nodup mem with ⟨here, top, -⟩ | ⟨inBelow, nodupBelow, other, absent⟩ |
      ⟨inRest, nodupRest, other, absent⟩
    · rw [addBelow, if_pos top, placesFrom, placesFrom, here, top]
      have grown := placesFrom_addTop id (above ++ [p.id]) (d + 1) below
      exact ((grown.append_right _).append_left _).trans List.perm_middle
    · rw [addBelow, if_neg other, placesFrom, placesFrom, addBelow_of_not_mem absent]
      exact (((ihBelow nodupBelow inBelow).append_right _).append_left _).trans List.perm_middle
    · rw [addBelow, if_neg other, placesFrom, placesFrom, addBelow_of_not_mem absent]
      rw [← List.append_assoc, ← List.append_assoc]
      exact ((ihRest nodupRest inRest).append_left _).trans List.perm_middle

/-! ### Modules that are pushed down -/

theorem placesFrom_deeper (above : List ModuleId) (d k : Nat) (t : DependencyTree) :
    placesFrom above (d + k) t =
      (placesFrom above d t).map fun p => { p with depth := p.depth + k } := by
  induction t generalizing above d with
  | nil => rfl
  | link m below rest ihBelow ihRest =>
    simp only [placesFrom, List.map_append, List.map_map, ← ihBelow, ← ihRest]
    rw [Nat.add_right_comm]
    rfl

theorem placesFrom_chain (id : ModuleId) (above : List ModuleId) (d n : Nat)
    (below : DependencyTree) : placesFrom above d (chain id below n) =
      ⟨id, above, d + n⟩ :: placesFrom (above ++ [id]) (d + n + 1) below := by
  induction n generalizing d with
  | zero => simp [chain, placesFrom]
  | succ n ih =>
    simp only [chain, placesFrom, Option.toList_none, List.append_nil, List.map_nil,
      List.nil_append]
    rw [ih, show d + 1 + n = d + (n + 1) by omega]

theorem fillers_chain (id : ModuleId) (below : DependencyTree) (n : Nat) :
    (chain id below n).fillers = n + below.fillers := by
  induction n with
  | zero => simp [chain, fillers]
  | succ n ih =>
    simp only [chain, fillers, ih, Option.isNone_none, if_true]
    omega

theorem pushFrom_of_not_mem {target : Nat} (absent : id ∉ t.modules) :
    pushFrom id target d t = t := by
  induction t generalizing d with
  | nil => rfl
  | link m below rest ihBelow ihRest =>
    simp only [modules, List.mem_append, Option.mem_toList, not_or] at absent
    obtain ⟨⟨head, notBelow⟩, notRest⟩ := absent
    have other : m ≠ some id := head
    rw [pushFrom, if_neg other, ihBelow notBelow, ihRest notRest]

theorem map_shift_of_not_mem {k : Nat} (outside : id ∉ above) (absent : id ∉ t.modules) :
    (placesFrom above d t).map (Place.shift id k) = placesFrom above d t := by
  refine (List.map_congr_left fun p mem => ?_).trans (List.map_id' _)
  refine if_neg ?_
  rintro (here | there)
  · exact absent (here ▸ mem_modules_of_place mem)
  · exact (mem_above mem there).elim outside absent

theorem map_shift_of_above {k : Nat} (inside : id ∈ above) :
    (placesFrom above d t).map (Place.shift id k) = placesFrom above (d + k) t := by
  rw [placesFrom_deeper]
  exact List.map_congr_left fun p mem => if_pos (Or.inr ((prefix_above mem).subset inside))

theorem map_shift_top {k : Nat} {m : Option ModuleId} (outside : id ∉ above)
    (other : m ≠ some id) : (m.toList.map (⟨·, above, d⟩)).map (Place.shift id k) =
      m.toList.map (⟨·, above, d⟩) := by
  cases m with
  | none => rfl
  | some x =>
    have differs : x ≠ id := fun same => other (congrArg some same)
    simp [Place.shift, differs, outside]

theorem placesFrom_pushFrom {target : Nat} (nodup : t.modules.Nodup) (outside : p.id ∉ above)
    (mem : p ∈ placesFrom above d t) (deeper : p.depth < target) :
    placesFrom above d (pushFrom p.id target d t) =
        (placesFrom above d t).map (Place.shift p.id (target - p.depth)) ∧
      (pushFrom p.id target d t).fillers = t.fillers + (target - p.depth) := by
  induction t generalizing above d with
  | nil => cases mem
  | link m below rest ihBelow ihRest =>
    rcases place_cases nodup mem with ⟨here, top, absent⟩ | ⟨inBelow, nodupBelow, other, absent⟩ |
      ⟨inRest, nodupRest, other, absent⟩
    · have depth : p.depth = d := by rw [here]
      have self : Place.shift p.id (target - d) ⟨p.id, above, d⟩ = ⟨p.id, above, target⟩ := by
        rw [Place.shift, if_pos (Or.inl rfl), Place.mk.injEq]
        simp only [true_and]
        omega
      have inside : p.id ∈ above ++ [p.id] := by simp
      rw [pushFrom, if_pos top, if_pos (by omega), depth, top]
      constructor
      · simp only [placesFrom, placesFrom_chain, Option.toList_none, Option.toList_some,
          List.append_nil, List.map_nil, List.nil_append, List.map_append, List.map_cons, self,
          map_shift_of_not_mem outside absent, map_shift_of_above inside]
        rw [show d + 1 + (target - d - 1) = target by omega,
          show d + 1 + (target - d) = target + 1 by omega]
        rfl
      · simp only [fillers, fillers_chain, Option.isNone_none, Option.isNone_some, if_true,
          Bool.false_eq_true, if_false]
        omega
    · have outside' : p.id ∉ above ++ m.toList := by
        rw [List.mem_append, Option.mem_toList, not_or]
        exact ⟨outside, other⟩
      obtain ⟨places, count⟩ := ihBelow nodupBelow outside' inBelow
      rw [pushFrom, if_neg other, pushFrom_of_not_mem absent]
      constructor
      · simp only [placesFrom, List.map_append, map_shift_top outside other, places,
          map_shift_of_not_mem outside absent]
      · rw [fillers, count, fillers]
        omega
    · have outside' : p.id ∉ above ++ m.toList := by
        rw [List.mem_append, Option.mem_toList, not_or]
        exact ⟨outside, other⟩
      obtain ⟨places, count⟩ := ihRest nodupRest outside inRest
      rw [pushFrom, if_neg other, pushFrom_of_not_mem absent]
      constructor
      · simp only [placesFrom, List.map_append, map_shift_top outside other, places,
          map_shift_of_not_mem outside' absent]
      · rw [fillers, count, fillers]
        omega

end

/-! ### Levels -/

theorem linksAt_eq (above : List ModuleId) (d n : Nat) (t : DependencyTree) :
    (t.linksAt n).filterMap id =
      ((placesFrom above d t).filter fun p => p.depth = d + n).map (·.id) := by
  induction t generalizing above d n with
  | nil => cases n <;> rfl
  | link m below rest ihBelow ihRest =>
    cases n with
    | zero =>
      have none : (placesFrom (above ++ m.toList) (d + 1) below).filter
          (fun p => p.depth = d) = [] := by
        rw [List.filter_eq_nil_iff]
        intro p mem
        have deep := (le_depth mem).1
        simp only [decide_eq_true_eq]
        omega
      have ih := ihRest above d 0
      simp only [Nat.add_zero] at ih ⊢
      rw [linksAt, placesFrom, List.filter_append, List.filter_append, none, List.nil_append,
        List.map_append, ← ih]
      cases m <;> simp
    | succ n =>
      have none : (m.toList.map fun x => (⟨x, above, d⟩ : Place)).filter
          (fun p => p.depth = d + (n + 1)) = [] := by
        simp
      rw [linksAt, placesFrom, List.filter_append, List.filter_append, none, List.nil_append,
        List.map_append, List.filterMap_append, ihBelow (above ++ m.toList) (d + 1) n,
        ihRest above d (n + 1), show d + 1 + n = d + (n + 1) by omega]

theorem mem_level (mem : p ∈ t.places) :
    p.depth < t.height ∧ p.id ∈ (t.linksAt p.depth).filterMap id := by
  have bound := (le_depth mem).2
  rw [Nat.zero_add] at bound
  refine ⟨bound, ?_⟩
  rw [linksAt_eq [] 0, List.mem_map]
  exact ⟨p, List.mem_filter.mpr ⟨mem, by simp⟩, rfl⟩

end EventFlow.DependencyTree

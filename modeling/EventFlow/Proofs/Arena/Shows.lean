import EventFlow.Proofs.Arena.Pushing
import EventFlow.Proofs.Tree.Places

/-!
The tree that an arena stands for. Placing a module and pushing one down are the same on both
sides.
-/

namespace EventFlow

theorem forall₂_mergeSort {α β : Type} {r : α → α → Bool} {s : β → β → Bool} {R : α → β → Prop}
    {xs : List α} {ys : List β} (same : ∀ x y x' y', R x y → R x' y' → r x x' = s y y')
    (h : List.Forall₂ R xs ys) : List.Forall₂ R (xs.mergeSort r) (ys.mergeSort s) := by
  obtain ⟨length, related⟩ := List.forall₂_iff_zip.mp h
  have left := List.map_fst_zip (Nat.le_of_eq length)
  have right := List.map_snd_zip (Nat.le_of_eq length.symm)
  have sortLeft := List.map_mergeSort (f := Prod.fst) (l := xs.zip ys)
    (r := fun p q => r p.1 q.1) (s := r) fun _ _ _ _ => rfl
  have sortRight := List.map_mergeSort (f := Prod.snd) (l := xs.zip ys)
    (r := fun p q => r p.1 q.1) (s := s) fun p hp q hq => same _ _ _ _ (related hp) (related hq)
  rw [left] at sortLeft
  rw [right] at sortRight
  rw [← sortLeft, ← sortRight, List.forall₂_map_left_iff, List.forall₂_map_right_iff,
    List.forall₂_same]
  exact fun p hp => related ((List.mergeSort_perm ..).mem_iff.mp hp)

namespace Arena

variable {a b : Arena} {n k l i d : Nat} {ls : List Nat} {id p : ModuleId} {m : Option ModuleId}
  {t : DependencyTree} {free : Option Nat}

def under (a : Arena) (l : Nat) : List Nat :=
  match (a.link l).next with
  | none => []
  | some n => (a.level n).links

/-- The trees side by side whose tops are the links `ls`. -/
inductive Shows (a : Arena) : List Nat → DependencyTree → Prop where
  | nil : Shows a [] .nil
  | link {l : Nat} {ls : List Nat} {m : Option ModuleId} {below rest : DependencyTree}
      (module : (a.link l).module = m) (inner : Shows a (a.under l) below)
      (outer : Shows a ls rest) : Shows a (l :: ls) (.link m below rest)

theorem under_of_next (next : (a.link l).next = some n) : a.under l = (a.level n).links := by
  rw [under, next]

theorem under_of_none (next : (a.link l).next = none) : a.under l = [] := by
  rw [under, next]

theorem WellFormed.under_inside (h : a.WellFormed none) (mem : i ∈ a.under l) :
    i < a.links.length ∧ a.depthOf i = a.depthOf l + 1 := by
  rw [under] at mem
  split at mem
  · cases mem
  · rename_i n next
    obtain ⟨inside, owner⟩ := h.held n i mem
    obtain ⟨hn, -, -, parent⟩ := h.down l n next
    rw [depthOf, owner]
    exact ⟨inside, (h.parent hn (by simp) parent).2⟩

/-! ### Adding a module -/

theorem shows_iff : Shows a ls t ↔
    List.Forall₂ (fun l e => (a.link l).module = e.1 ∧ Shows a (a.under l) e.2) ls t.toList := by
  constructor
  · intro shows
    induction shows with
    | nil => exact .nil
    | link module inner _ _ ih => exact .cons ⟨module, inner⟩ ih
  · intro each
    induction t generalizing ls with
    | nil =>
      cases each
      exact .nil
    | link m below rest _ ih =>
      cases each with
      | cons first others => exact .link first.1 first.2 (ih others)

theorem Shows.addTop (shows : Shows a ls t) (module : (a.link l).module = some id)
    (bare : a.under l = []) :
    Shows a ((ls ++ [l]).mergeSort fun i j =>
      DependencyTree.linkLe (a.link i).module (a.link j).module) (t.addTop id) := by
  rw [shows_iff] at shows ⊢
  rw [DependencyTree.addTop, DependencyTree.toList_ofList]
  refine forall₂_mergeSort (fun i e j f hi hj => by rw [hi.1, hj.1]) ?_
  have last : (a.link l).module = some id ∧ Shows a (a.under l) .nil := ⟨module, bare ▸ .nil⟩
  exact List.rel_append shows (.cons last .nil)

theorem under_nextLevel : (a.nextLevel l).1.under i = a.under i := by
  cases next : (a.link l).next with
  | some n => rw [nextLevel_some next]
  | none =>
    rw [under, under, link_nextLevel next]
    by_cases here : i = l ∧ l < a.links.length
    · rw [if_pos here, here.1, next]
      simp only [held_nextLevel]
      rw [level, List.getElem?_eq_none (Nat.le_refl _)]
      rfl
    · rw [if_neg here]
      cases (a.link i).next with
      | none => rfl
      | some n => exact held_nextLevel

theorem under_pushLink : (a.pushLink n m).1.under i =
    if (a.link i).next = some n ∧ n < a.levels.length then a.under i ++ [a.links.length]
    else a.under i := by
  rw [under, under, next_pushLink]
  cases (a.link i).next with
  | none => simp
  | some k =>
    simp only [level_pushLink, Option.some.injEq]
    split
    · rename_i here
      rw [here.1]
    · rfl

theorem under_sortLinks : (a.sortLinks n).under i =
    if (a.link i).next = some n ∧ n < a.levels.length then
      (a.under i).mergeSort fun i l => DependencyTree.linkLe (a.link i).module (a.link l).module
    else a.under i := by
  rw [under, under, link_sortLinks]
  cases (a.link i).next with
  | none => simp
  | some k =>
    simp only [level_sortLinks, Option.some.injEq]
    split
    · rename_i here
      rw [here.1]
    · rfl

section
variable (h : a.WellFormed free) (hung : l < a.links.length)
include h hung

omit hung in
theorem WellFormed.lower_nextLevel : (a.nextLevel l).2 ≠ 0 := by
  intro top
  have parent := (h.nextLevel_spec l).2.1
  have root := ((extends_nextLevel (a := a) (l := l)).level 0 h.root.1).2
  rw [top] at parent
  cases (root.trans h.root.2.2).symm.trans parent

theorem WellFormed.next_nextLevel :
    ((a.nextLevel l).1.link i).next = some (a.nextLevel l).2 ↔ i = l := by
  have wellFormed := h.nextLevel hung
  obtain ⟨inside, parent, -⟩ := h.nextLevel_spec l
  constructor
  · intro next
    have parent' := (wellFormed.down i _ next).2.2.2
    exact Option.some.inj (parent'.symm.trans parent)
  · rintro rfl
    cases next : (a.link i).next with
    | some n =>
      rw [nextLevel_some next]
      exact next
    | none => rw [link_nextLevel next, if_pos ⟨rfl, hung⟩, snd_nextLevel next]

theorem WellFormed.under_pushBelow : (a.pushBelow l m).1.under i =
    if i = l then a.under l ++ [a.links.length] else a.under i := by
  rw [pushBelow_eq, under_pushLink, under_nextLevel, links_nextLevel]
  simp only [h.next_nextLevel hung, (h.nextLevel_spec l).1, and_true]
  split
  · rename_i here
    rw [here]
  · rfl

theorem WellFormed.under_addBelow : (a.addBelow l id).under i =
    if i = l then (a.under l ++ [a.links.length]).mergeSort fun i j => DependencyTree.linkLe
      ((a.addBelow l id).link i).module ((a.addBelow l id).link j).module
    else a.under i := by
  have next : ((a.pushBelow l (some id)).1.link i).next = some (a.nextLevel l).2 ↔ i = l := by
    rw [pushBelow_eq, next_pushLink]
    exact h.next_nextLevel hung
  have inside : (a.nextLevel l).2 < (a.pushBelow l (some id)).1.levels.length := by
    rw [pushBelow_eq, levels_pushLink]
    exact (h.nextLevel_spec l).1
  have pushed := h.under_pushBelow hung (i := i) (m := some id)
  change ((a.pushBelow l (some id)).1.sortLinks (a.nextLevel l).2).under i = _
  rw [under_sortLinks, pushed]
  simp only [next, inside, and_true]
  split <;> rfl

end

theorem extends_addBelow : Extends a (a.addBelow l id) :=
  extends_pushBelow.trans extends_sortLinks

theorem link_addBelow : (a.addBelow l id).link a.links.length =
    { module := some id, owner := (a.nextLevel l).2 } :=
  link_pushBelow (m := some id)

theorem WellFormed.top_addBelow (h : a.WellFormed free) :
    ((a.addBelow l id).level 0).links = (a.level 0).links := by
  have lower := Ne.symm (h.lower_nextLevel (l := l))
  change ((((a.nextLevel l).1.pushLink _ _).1.sortLinks _).level 0).links = _
  rw [level_sortLinks, if_neg fun here => lower here.1, level_pushLink,
    if_neg fun here => lower here.1, held_nextLevel]

theorem under_length : a.under a.links.length = [] := by
  refine under_of_none ?_
  rw [link, List.getElem?_eq_none (Nat.le_refl _)]
  rfl

theorem Shows.addBelow (h : a.WellFormed none) (own : (a.link l).module = some p)
    (shows : Shows a ls t) (nodup : t.modules.Nodup) (inside : ∀ i ∈ ls, i < a.links.length) :
    Shows (a.addBelow l id) ls (t.addBelow p id) := by
  have hung := lt_of_module own
  have old : Extends a (a.addBelow l id) := extends_addBelow
  have under {i : Nat} : (a.addBelow l id).under i = _ := h.under_addBelow hung
  induction shows with
  | nil => exact .nil
  | @link i ls m below rest module inner outer ihInner ihOuter =>
    obtain ⟨here, others⟩ := List.forall_mem_cons.mp inside
    simp only [DependencyTree.modules] at nodup
    obtain ⟨left, nodupRest, apart⟩ := List.nodup_append.mp nodup
    obtain ⟨-, nodupBelow, apart'⟩ := List.nodup_append.mp left
    have module' := (old.link i here).1.trans module
    have rest' := ihOuter nodupRest others
    have below' := ihInner nodupBelow fun j hj => (h.under_inside hj).1
    rw [DependencyTree.addBelow]
    split
    · rename_i top
      subst top
      obtain rfl : i = l :=
        Option.some.inj (((h.index p i).mpr module).symm.trans ((h.index p l).mpr own))
      have absent : p ∉ below.modules := fun mem => apart' p (by simp) p mem rfl
      have absent' : p ∉ rest.modules := fun mem => apart p (by simp) p mem rfl
      rw [DependencyTree.addBelow_of_not_mem absent] at below'
      rw [DependencyTree.addBelow_of_not_mem absent'] at rest'
      refine .link module' ?_ rest'
      rw [under, if_pos rfl]
      refine below'.addTop (by rw [link_addBelow]) ?_
      rw [under, if_neg (Nat.ne_of_gt hung), under_length]
    · rename_i other
      have differs : i ≠ l := by
        rintro rfl
        exact other (module.symm.trans own)
      refine .link module' ?_ rest'
      rw [under, if_neg differs]
      exact below'

/-! ### What stands for what -/

structure Represents (a : Arena) (t : DependencyTree) : Prop where
  wellFormed : a.WellFormed none
  shows : Shows a (a.level 0).links t
  nodup : t.modules.Nodup
  contains : ∀ id, a.contains id = true ↔ id ∈ t.modules
  fillers : a.fillers = t.fillers

theorem represents_empty : Represents {} .nil where
  wellFormed := wellFormed_empty
  shows := .nil
  nodup := List.nodup_nil
  contains id := by simp [Arena.contains, Table.has, DependencyTree.modules]
  fillers := rfl

theorem Represents.fresh (r : Represents a t) (new : a.index.value? id = none) :
    id ∉ t.modules := by
  intro mem
  obtain ⟨l, there⟩ := contains_iff.mp ((r.contains id).mpr mem)
  cases new.symm.trans there

theorem Represents.addBelow (r : Represents a t) (placed : a.index.value? p = some l)
    (new : a.index.value? id = none) : Represents (a.addBelow l id) (t.addBelow p id) := by
  have h := r.wellFormed
  have own := (h.index p l).mp placed
  have there : p ∈ t.modules := (r.contains p).mp (contains_iff.mpr ⟨l, placed⟩)
  have perm : ((t.addBelow p id).modules).Perm (id :: t.modules) :=
    DependencyTree.modules_addBelow r.nodup there
  have pushed := h.pushBelow (m := some id) (lt_of_module own) (by simpa using new)
  constructor
  case wellFormed => exact pushed.sortLinks
  case shows =>
    rw [h.top_addBelow]
    exact r.shows.addBelow h own r.nodup fun i mem => (h.held 0 i mem).1
  case nodup => exact perm.nodup_iff.mpr (List.nodup_cons.mpr ⟨r.fresh new, r.nodup⟩)
  case contains =>
    intro m
    have grown : (a.addBelow l id).contains m = true ↔ a.contains m = true ∨ m = id :=
      contains_of_value? (value?_pushBelow (a := a) (l := l) (m := some id)) m
    rw [grown, r.contains, perm.mem_iff, List.mem_cons, or_comm]
  case fillers =>
    rw [DependencyTree.fillers_addBelow, ← r.fillers]
    exact fillers_nextLevel

theorem Shows.congr (h : a.WellFormed none) (shows : Shows a ls t)
    (inside : ∀ i ∈ ls, i < a.links.length)
    (module : ∀ i < a.links.length, (b.link i).module = (a.link i).module)
    (under : ∀ i < a.links.length, b.under i = a.under i) : Shows b ls t := by
  induction shows with
  | nil => exact .nil
  | @link i ls m below rest own _ _ ihInner ihOuter =>
    obtain ⟨here, others⟩ := List.forall_mem_cons.mp inside
    refine .link ((module i here).trans own) ?_ (ihOuter others)
    rw [under i here]
    exact ihInner fun j hj => (h.under_inside hj).1

theorem WellFormed.next_ne (h : a.WellFormed free) : (a.link i).next ≠ some 0 :=
  fun next => (h.down i 0 next).2.1 rfl

theorem WellFormed.under_pushTop (h : a.WellFormed free) :
    (a.pushLink 0 m).1.under i = a.under i := by
  rw [under_pushLink, if_neg fun here => h.next_ne here.1]

theorem Represents.addTop (r : Represents a t) (new : a.index.value? id = none) :
    Represents (a.addTop id) (t.addTop id) := by
  have h := r.wellFormed
  have perm := DependencyTree.modules_addTop id t
  have pushed := h.pushLink (m := some id) h.root.1 (by simpa using new)
  have under {i : Nat} : (a.addTop id).under i = a.under i := by
    rw [Arena.addTop, under_sortLinks, if_neg fun here => pushed.next_ne here.1, h.under_pushTop]
  constructor
  case wellFormed => exact pushed.sortLinks
  case shows =>
    have old : Shows (a.addTop id) (a.level 0).links t :=
      r.shows.congr h (fun i mem => (h.held 0 i mem).1)
        (fun i hi => (extends_pushLink.link i hi).1) fun _ _ => under
    have module : ((a.addTop id).link a.links.length).module = some id := by
      rw [Arena.addTop, link_sortLinks, link_pushLink, if_pos rfl]
    have sorted := old.addTop module (by rw [under, under_length])
    rw [Arena.addTop, level_sortLinks, if_pos ⟨rfl, pushed.root.1⟩, level_pushLink,
      if_pos ⟨rfl, h.root.1⟩]
    exact sorted
  case nodup => exact perm.nodup_iff.mpr (List.nodup_cons.mpr ⟨r.fresh new, r.nodup⟩)
  case contains =>
    intro m
    have grown : (a.addTop id).contains m = true ↔ a.contains m = true ∨ m = id :=
      contains_of_value? (value?_pushLink (a := a) (n := 0) (m := some id)) m
    rw [grown, r.contains, perm.mem_iff, List.mem_cons, or_comm]
  case fillers =>
    rw [DependencyTree.fillers_addTop, ← r.fillers]
    rfl

theorem represents_ofProducer (id : ModuleId) :
    Represents (ofProducer id) (.link (some id) .nil .nil) where
  wellFormed := wellFormed_empty.pushLink wellFormed_empty.root.1 (by simp)
  shows := .link rfl .nil .nil
  nodup := by simp [DependencyTree.modules]
  contains m := by
    have own : (ofProducer id).contains m = true ↔ Arena.contains {} m = true ∨ m = id :=
      contains_of_value? (value?_pushLink (a := {}) (n := 0) (m := some id)) m
    rw [own]
    simp [Arena.contains, Table.has, DependencyTree.modules]
  fillers := rfl

/-! ### Depths and modules above -/

theorem Shows.depth? {e : Nat} (h : a.WellFormed none) (shows : Shows a ls t)
    (level : ∀ i ∈ ls, i < a.links.length ∧ a.depthOf i = d)
    (found : t.depthFrom id d = some e) : a.depth? id = some e := by
  induction shows generalizing d with
  | nil => cases found
  | @link i ls m below rest module _ _ ihInner ihOuter =>
    obtain ⟨⟨-, depth⟩, others⟩ := List.forall_mem_cons.mp level
    rw [DependencyTree.depthFrom] at found
    split at found
    · rename_i here
      rw [Arena.depth?, (h.index id i).mpr (module.trans here), Option.map_some, depth]
      exact found
    · rcases Option.or_eq_some_iff.mp found with inBelow | ⟨-, inRest⟩
      · exact ihInner (fun j hj => depth ▸ h.under_inside hj) inBelow
      · exact ihOuter others inRest

theorem WellFormed.under_owner (h : a.WellFormed none) (next : (a.link l).next = some n)
    (mem : i ∈ a.under l) : i < a.links.length ∧ (a.link i).owner = n :=
  h.held n i (under_of_next next ▸ mem)

theorem Shows.above? {ms found : List ModuleId} (h : a.WellFormed none) (shows : Shows a ls t)
    (level : ∀ i ∈ ls, i < a.links.length ∧ (a.link i).owner = n) (above : Above a n ms)
    (there : t.above? id = some found) : a.above? id = some (found.reverse ++ ms) := by
  induction shows generalizing n ms found with
  | nil => cases there
  | @link i ls m below rest module inner _ ihInner ihOuter =>
    obtain ⟨⟨inside, owner⟩, others⟩ := List.forall_mem_cons.mp level
    rw [DependencyTree.above?] at there
    split at there
    · rename_i here
      obtain rfl := Option.some.inj there
      exact h.above?_eq_some.mpr ⟨i, (h.index id i).mpr (module.trans here), owner ▸ above⟩
    · rcases Option.or_eq_some_iff.mp there with inBelow | ⟨-, inRest⟩
      · obtain ⟨found', below', rfl⟩ := Option.map_eq_some_iff.mp inBelow
        cases next : (a.link i).next with
        | none =>
          rw [under_of_none next] at inner
          cases inner
          cases below'
        | some n' =>
          obtain ⟨inside', -, -, parent⟩ := h.down i n' next
          have higher := Above.under inside' parent inside (owner ▸ above)
          have rest := ihInner (fun j hj => h.under_owner next hj) higher below'
          rw [rest, module]
          cases m <;> simp
      · exact ihOuter others above inRest

theorem WellFormed.top_inside (h : a.WellFormed none) :
    ∀ i ∈ (a.level 0).links, i < a.links.length ∧ a.depthOf i = 0 := by
  intro i mem
  obtain ⟨inside, owner⟩ := h.held 0 i mem
  rw [depthOf, owner]
  exact ⟨inside, h.root.2.1⟩

section
variable (r : Represents a t)
include r

theorem Represents.above_top : Above a 0 [] := .top r.wellFormed.root.1 r.wellFormed.root.2.2

theorem Represents.index_none : a.index.value? id = none ↔ id ∉ t.modules := by
  rw [← r.contains, contains_iff]
  cases a.index.value? id <;> simp

theorem Represents.above? (id : ModuleId) : a.above? id = (t.above? id).map List.reverse := by
  cases there : t.above? id with
  | none =>
    have absent := DependencyTree.above?_eq_none_iff.mp there
    rw [Arena.above?, r.index_none.mpr absent]
    rfl
  | some found =>
    have shown := r.shows.above? r.wellFormed (r.wellFormed.held 0) r.above_top there
    rwa [List.append_nil] at shown

theorem Represents.depth? (id : ModuleId) : a.depth? id = t.depth? id := by
  by_cases mem : id ∈ t.modules
  · obtain ⟨p, place, rfl⟩ := DependencyTree.exists_place mem
    have depth := DependencyTree.depth?_of_place r.nodup place
    rw [depth]
    exact r.shows.depth? r.wellFormed r.wellFormed.top_inside depth
  · rw [Arena.depth?, r.index_none.mpr mem]
    cases depth : t.depth? id with
    | none => rfl
    | some e =>
      obtain ⟨p, place, rfl, -⟩ := DependencyTree.exists_place_of_depth? depth
      exact absurd (DependencyTree.mem_modules_of_place place) mem

end

end Arena
end EventFlow

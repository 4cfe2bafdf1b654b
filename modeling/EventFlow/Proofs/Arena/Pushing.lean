import EventFlow.Proofs.Arena.Adding
import EventFlow.Proofs.Arena.Subtree

/-!
Pushing a module down. Its link becomes a filler with a chain of fillers below it, the module goes
to the end of the chain, and the level that was below it is hung there as a whole.
-/

namespace EventFlow.Arena

variable {a b : Arena} {n k l i s moved delta : Nat} {ms : List ModuleId} {id : ModuleId}
  {m : Option ModuleId} {free : Option Nat}

/-! ### Leaving the old place -/

theorem link_vacate : (a.vacate l id).link i =
    if i = l ∧ l < a.links.length then { a.link l with module := none, next := none }
    else a.link i :=
  getD_modify a.links _ {} l i

@[simp]
theorem level_vacate : (a.vacate l id).level n = a.level n := rfl

@[simp]
theorem owner_vacate : ((a.vacate l id).link i).owner = (a.link i).owner :=
  getD_modify_same ArenaLink.owner a.links {} l i fun _ => rfl

@[simp]
theorem links_vacate : (a.vacate l id).links.length = a.links.length :=
  List.length_modify ..

theorem WellFormed.vacate (h : a.WellFormed none) (placed : a.index.value? id = some l) :
    (a.vacate l id).WellFormed (a.link l).next := by
  have hung := h.lt_of_index placed
  have own := (h.index id l).mp placed
  have other {i : Nat} (differs : i ≠ l) : (a.vacate l id).link i = a.link i := by
    rw [link_vacate, if_neg fun here => differs here.1]
  have same : (a.vacate l id).link l = { a.link l with module := none, next := none } := by
    rw [link_vacate, if_pos ⟨rfl, hung⟩]
  constructor
  case root => exact h.root
  case apart =>
    intro s hs
    obtain ⟨inside, lower, -⟩ := h.down l s hs
    exact ⟨inside, lower⟩
  case up =>
    intro n inside lower fixed
    obtain ⟨i, parent, next, depth⟩ := h.up n inside lower (by simp)
    have differs : i ≠ l := fun here => fixed (here ▸ next)
    exact ⟨i, parent, by rwa [other differs], by simpa [depthOf] using depth⟩
  case down =>
    intro i n next
    by_cases here : i = l
    · rw [here, same] at next
      cases next
    · rw [other here] at next
      obtain ⟨inside, lower, -, parent⟩ := h.down i n next
      refine ⟨inside, lower, fun old => here ?_, parent⟩
      have parent' := (h.down l n old).2.2.2
      exact Option.some.inj (parent.symm.trans parent')
  case owned =>
    intro i hi
    rw [owner_vacate]
    exact h.owned i (by simpa using hi)
  case held =>
    intro n i mem
    rw [links_vacate, owner_vacate]
    exact h.held n i mem
  case once => exact h.once
  case index =>
    intro id' i
    rw [Arena.vacate, Table.value?_erase]
    change _ ↔ ((a.vacate l id).link i).module = some id'
    by_cases here : i = l
    · rw [here, same]
      split
      · simp
      · rename_i differs
        rw [h.index, own, Option.some.injEq]
        simp [Ne.symm differs]
    · rw [other here, ← h.index]
      split
      · rename_i it
        subst it
        simp [placed, Ne.symm here]
      · rfl

theorem Counted.vacate (h : a.Counted) (own : (a.link l).module = some id) :
    (a.vacate l id).Counted := by
  have hung := lt_of_module own
  have there : a.links[l]? = some (a.link l) := by
    rw [link, List.getElem?_eq_getElem hung]
    rfl
  have count := countP_modify there (fun k => { k with module := none, next := none })
    (·.module.isNone)
  rw [own] at count
  rw [Counted, Arena.vacate, h]
  simpa using count.symm

theorem Above.vacate (above : Above a n ms) (h : a.WellFormed none)
    (high : (a.level n).depth ≤ a.depthOf l) : Above (a.vacate l id) n ms := by
  induction above with
  | top inside first => exact .top inside first
  | @under n i ms inside parent hung _ ih =>
    have depth := (h.parent inside (by simp) parent).2
    have differs : i ≠ l := by
      rintro rfl
      omega
    have same : (a.vacate l id).link i = a.link i := by
      rw [link_vacate, if_neg fun here => differs here.1]
    rw [← same]
    refine .under inside parent (by simpa using hung) ?_
    rw [same]
    rw [depthOf] at depth
    exact ih (by omega)

theorem WellFormed.owner_apart (h : a.WellFormed none) (next : (a.link l).next = some s) :
    ¬ a.Within s (a.link l).owner := by
  intro within
  obtain ⟨inside, -, -, parent⟩ := h.down l s next
  have depth := (h.parent inside (by simp) parent).2
  have deep := (h.within inside within).2
  rw [depthOf] at depth
  omega

theorem WellFormed.within_vacate (h : a.WellFormed none) (next : (a.link l).next = some s) :
    (a.vacate l id).Within s n ↔ a.Within s n := by
  refine Within.congr fun n within => ?_
  rw [below, below]
  refine List.filterMap_congr fun i mem => ?_
  rw [link_vacate, if_neg]
  rintro ⟨rfl, -⟩
  exact h.owner_apart next ((h.held n i mem).2 ▸ within)

/-! ### The chain of fillers -/

theorem below_pushLink : (a.pushLink n m).1.below k = a.below k := by
  have nexts : (fun i => ((a.pushLink n m).1.link i).next) = fun i => (a.link i).next :=
    funext fun _ => next_pushLink
  rw [below, below, nexts, level_pushLink]
  split
  · rename_i here
    have none : (a.link a.links.length).next = none := by
      rw [link, List.getElem?_eq_none (Nat.le_refl _)]
      rfl
    simp [here.1, none]
  · rfl

theorem WellFormed.below_pushBelow (h : a.WellFormed free) (other : k ≠ (a.link l).owner) :
    (a.pushBelow l m).1.below k = a.below k := by
  rw [pushBelow_eq, below_pushLink, below, below, held_nextLevel]
  refine List.filterMap_congr fun i mem => ?_
  cases next : (a.link l).next with
  | some n => rw [nextLevel_some next]
  | none =>
    rw [link_nextLevel next, if_neg]
    rintro ⟨rfl, -⟩
    exact other (h.held k i mem).2.symm

/-- What is known of an arena `b` that is `a` with a new link `moved` for `m` at a distance below the
link `l`. -/
structure Hung (a b : Arena) (l moved : Nat) (m : Option ModuleId) (distance : Nat)
    (free : Option Nat) : Prop where
  wellFormed : b.WellFormed free
  old : Extends a b
  index : ∀ id, b.index.value? id = if m = some id then some moved else a.index.value? id
  inside : moved < b.links.length
  module : (b.link moved).module = m
  next : (b.link moved).next = none
  depth : b.depthOf moved = a.depthOf l + distance
  above : ∀ ms, Above a (a.link l).owner ms →
    Above b (b.link moved).owner ((a.link l).module.toList ++ ms)
  below : ∀ s < a.levels.length, ¬ a.Within s (a.link l).owner →
    (∀ n, a.Within s n → b.below n = a.below n) ∧ ¬ b.Within s (b.link moved).owner

theorem Hung.trans {c : Arena} {d e : Nat} (h : Hung a b l k none d free)
    (h' : Hung b c k moved m e free) : Hung a c l moved m (d + e) free where
  wellFormed := h'.wellFormed
  old := h.old.trans h'.old
  index id := by
    rw [h'.index, h.index]
    simp
  inside := h'.inside
  module := h'.module
  next := h'.next
  depth := by
    rw [h'.depth, h.depth, Nat.add_assoc]
  above ms above := by
    have rest := h'.above _ (h.above ms above)
    rwa [h.module] at rest
  below s inside apart := by
    obtain ⟨same, apart⟩ := h.below s inside apart
    obtain ⟨same', apart⟩ := h'.below s (Nat.lt_of_lt_of_le inside h.old.levels) apart
    refine ⟨fun n within => ?_, apart⟩
    rw [same' n ((Within.congr same).mpr within), same n within]

theorem WellFormed.hung_pushBelow (h : a.WellFormed free) (hung : l < a.links.length)
    (tail : (a.link l).next = none) (fresh : ∀ id ∈ m, a.index.value? id = none) :
    Hung a (a.pushBelow l m).1 l a.links.length m 1 free where
  wellFormed := h.pushBelow hung fresh
  old := extends_pushBelow
  index := value?_pushBelow
  inside := by simp
  module := by rw [link_pushBelow]
  next := by rw [link_pushBelow]
  depth := depthOf_pushBelow h
  above ms above := above.pushBelow h hung
  below s inside apart := by
    have same (n : Nat) (within : a.Within s n) : (a.pushBelow l m).1.below n = a.below n :=
      h.below_pushBelow fun here => apart (here ▸ within)
    refine ⟨same, fun within => ?_⟩
    rw [link_pushBelow, snd_nextLevel tail, Within.congr same] at within
    exact Nat.lt_irrefl _ (h.within inside within).1

theorem Hung.recount {d : Nat} (h : Hung a b l moved m d free) (count : Nat) :
    Hung a { b with fillers := count } l moved m d free where
  wellFormed := ⟨h.wellFormed.root, h.wellFormed.apart, h.wellFormed.up, h.wellFormed.down,
    h.wellFormed.owned, h.wellFormed.held, h.wellFormed.once, h.wellFormed.index⟩
  old := ⟨h.old.levels, h.old.links, h.old.level, h.old.link⟩
  index := h.index
  inside := h.inside
  module := h.module
  next := h.next
  depth := h.depth
  above ms above := by
    have same : Extends b { b with fillers := count } := ⟨Nat.le_refl _, Nat.le_refl _,
      fun _ _ => ⟨rfl, rfl⟩, fun _ _ => ⟨rfl, rfl⟩⟩
    exact same.above (h.above ms above)
  below := h.below

theorem WellFormed.hung_pushFiller (h : a.WellFormed free) (hung : l < a.links.length)
    (tail : (a.link l).next = none) :
    Hung a (a.pushFiller l).1 l (a.pushFiller l).2 none 1 free := by
  have pushed := h.hung_pushBelow hung tail (m := none) (by simp)
  rw [pushFiller, snd_pushBelow]
  exact pushed.recount _

theorem hang_succ : hang id (n + 1) a l = hang id n (a.pushFiller l).1 (a.pushFiller l).2 := rfl

theorem WellFormed.hung_hang (h : a.WellFormed free) (hung : l < a.links.length)
    (tail : (a.link l).next = none) (fresh : a.index.value? id = none) (n : Nat) :
    Hung a (hang id n a l).1 l (hang id n a l).2 (some id) (1 + n) free := by
  induction n generalizing a l with
  | zero =>
    rw [hang, snd_pushBelow]
    exact h.hung_pushBelow hung tail (by simpa using fresh)
  | succ n ih =>
    have first := h.hung_pushFiller hung tail
    have rest := ih first.wellFormed first.inside first.next (by simp [first.index, fresh])
    rw [hang_succ, Nat.add_comm n]
    exact first.trans rest

theorem Counted.pushFiller (h : a.Counted) : (a.pushFiller l).1.Counted := by
  have next := h.nextLevel (l := l)
  rw [Counted] at next ⊢
  rw [Arena.pushFiller, pushBelow_eq, Arena.pushLink, List.countP_append, ← next]
  rfl

theorem Counted.hang (h : a.Counted) (n : Nat) : (hang id n a l).1.Counted := by
  induction n generalizing a l with
  | zero => exact h.nextLevel.pushLink
  | succ n ih =>
    rw [hang_succ]
    exact ih h.pushFiller

/-! ### Hanging the rest below -/

theorem foldl_modifyLevel {f : ArenaLevel → ArenaLevel} {ns : List Nat} (once : ns.Nodup)
    (inside : ∀ n ∈ ns, n < a.levels.length) : ∃ levels : List ArenaLevel,
      ns.foldl (fun a n => a.modifyLevel n f) a = { a with levels } ∧
      levels.length = a.levels.length ∧
      ∀ k, level { a with levels } k = if k ∈ ns then f (a.level k) else a.level k := by
  induction ns generalizing a with
  | nil => exact ⟨a.levels, rfl, rfl, by simp [level]⟩
  | cons n ns ih =>
    obtain ⟨apart, once⟩ := List.nodup_cons.mp once
    obtain ⟨here, inside⟩ := List.forall_mem_cons.mp inside
    have size : (a.modifyLevel n f).levels.length = a.levels.length := List.length_modify ..
    have inside' : ∀ m ∈ ns, m < (a.modifyLevel n f).levels.length := by rwa [size]
    obtain ⟨levels, eq, length, level⟩ := ih once inside'
    refine ⟨levels, eq, length.trans size, fun k => ?_⟩
    refine (level k).trans ?_
    rw [level_modifyLevel]
    by_cases first : k = n
    · subst first
      simp [apart, here]
    · simp [first]

@[simp]
theorem link_adopt : (a.adopt moved s).link i =
    if i = moved ∧ moved < a.links.length then { a.link moved with next := some s }
    else a.link i :=
  link_modifyLink

theorem level_adopt : (a.adopt moved s).level n =
    if n = s ∧ s < a.levels.length then { a.level s with parent := some moved }
    else a.level n :=
  getD_modify a.levels _ {} s n

/-- An arena `b` that is `a` with the level `s` below the link `moved`, all of it deeper. -/
structure Adopted (a b : Arena) (moved s delta : Nat) : Prop where
  levels : b.levels.length = a.levels.length
  links : b.links.length = a.links.length
  index : b.index = a.index
  fillers : b.fillers = a.fillers
  counted : a.Counted → b.Counted
  module : ∀ i, (b.link i).module = (a.link i).module
  owner : ∀ i, (b.link i).owner = (a.link i).owner
  next : ∀ i, (b.link i).next = if i = moved then some s else (a.link i).next
  held : ∀ n, (b.level n).links = (a.level n).links
  parent : ∀ n, (b.level n).parent = if n = s then some moved else (a.level n).parent
  lower : ∀ n, a.Within s n → (b.level n).depth = (a.level n).depth + delta
  stay : ∀ n, ¬ a.Within s n → (b.level n).depth = (a.level n).depth

theorem WellFormed.adopted (h : a.WellFormed (some s)) (hung : moved < a.links.length)
    (apart : ¬ a.Within s (a.link moved).owner) (delta : Nat) :
    Adopted a ((a.adopt moved s).shiftDepth s delta) moved s delta := by
  have inside : s < a.levels.length := (h.apart s rfl).1
  have size : (a.adopt moved s).levels.length = a.levels.length := List.length_modify ..
  have links (n : Nat) : ((a.adopt moved s).level n).links = (a.level n).links :=
    getD_modify_same ArenaLevel.links a.levels {} s n fun _ => rfl
  have depth (n : Nat) : ((a.adopt moved s).level n).depth = (a.level n).depth :=
    getD_modify_same ArenaLevel.depth a.levels {} s n fun _ => rfl
  have same (n : Nat) (within : a.Within s n) : (a.adopt moved s).below n = a.below n := by
    rw [below, below, links]
    refine List.filterMap_congr fun i mem => ?_
    rw [link_adopt, if_neg]
    rintro ⟨rfl, -⟩
    exact apart ((h.held n i mem).2 ▸ within)
  have forks := (h.forks inside).congr (Nat.le_of_eq size.symm) same
  obtain ⟨once, mem⟩ := forks.subtree
  have within (n : Nat) : n ∈ (a.adopt moved s).subtree s ↔ a.Within s n :=
    (mem n).trans (Within.congr same)
  obtain ⟨levels, eq, length, level⟩ := foldl_modifyLevel
    (f := fun v => { v with depth := v.depth + delta }) once fun n hn => forks.inside n ((mem n).mp hn)
  rw [shiftDepth, eq]
  constructor
  case levels => exact length.trans size
  case links => exact List.length_modify ..
  case index => rfl
  case fillers => rfl
  case counted =>
    have same := a.countP_modify_module moved (g := fun k => { k with next := some s }) fun _ => rfl
    exact fun counted => counted.trans same.symm
  case module => exact fun i => getD_modify_same ArenaLink.module a.links {} moved i fun _ => rfl
  case owner => exact fun i => getD_modify_same ArenaLink.owner a.links {} moved i fun _ => rfl
  case next =>
    intro i
    change ((a.adopt moved s).link i).next = _
    rw [link_adopt]
    simp only [hung, and_true]
    split <;> rfl
  case held =>
    intro n
    rw [level]
    split <;> exact links n
  case parent =>
    intro n
    have parent : ((a.adopt moved s).level n).parent =
        if n = s then some moved else (a.level n).parent := by
      rw [level_adopt]
      simp only [inside, and_true]
      split <;> rfl
    rw [level]
    split <;> exact parent
  case lower =>
    intro n hn
    rw [level, if_pos ((within n).mpr hn)]
    exact congrArg (· + delta) (depth n)
  case stay =>
    intro n hn
    rw [level, if_neg fun mem => hn ((within n).mp mem), depth]

theorem WellFormed.within_parent (h : a.WellFormed free) (parent : k ∈ a.below n) (other : k ≠ s) :
    a.Within s k ↔ a.Within s n := by
  constructor
  · intro within
    rcases Relation.ReflTransGen.cases_tail within with same | ⟨m, above, mem⟩
    · exact absurd same other
    · exact h.below_unique mem parent ▸ above
  · exact fun within => within.tail parent

section
variable (h : a.WellFormed (some s)) (adopted : Adopted a b moved s delta)
include h adopted

theorem WellFormed.adopt (hung : moved < a.links.length) (tail : (a.link moved).next = none)
    (apart : ¬ a.Within s (a.link moved).owner)
    (deep : (a.level s).depth + delta = a.depthOf moved + 1) : b.WellFormed none := by
  have inside : s < a.levels.length := (h.apart s rfl).1
  have lower : s ≠ 0 := (h.apart s rfl).2
  have root : ¬ a.Within s 0 := by
    intro within
    rcases Relation.ReflTransGen.cases_tail within with same | ⟨m, -, mem⟩
    · exact lower same.symm
    · exact (h.depth_of_mem_below mem).2.1 rfl
  constructor
  case root =>
    rw [adopted.levels, adopted.stay 0 root, adopted.parent, if_neg (Ne.symm lower)]
    exact h.root
  case apart => simp
  case up =>
    intro n hn notRoot _
    rw [adopted.levels] at hn
    by_cases here : n = s
    · refine ⟨moved, ?_, ?_, ?_⟩
      · rw [adopted.parent, if_pos here]
      · rw [adopted.next, if_pos rfl, here]
      · rw [here, adopted.lower s .refl, deep, depthOf, depthOf, adopted.owner,
          adopted.stay _ apart]
    · have fixed : some s ≠ some n := fun same => here (Option.some.inj same).symm
      obtain ⟨i, parent, next, depth⟩ := h.up n hn notRoot fixed
      have differs : i ≠ moved := by
        rintro rfl
        cases tail.symm.trans next
      refine ⟨i, ?_, ?_, ?_⟩
      · rw [adopted.parent, if_neg here, parent]
      · rw [adopted.next, if_neg differs, next]
      · have both := h.within_parent (h.mem_below_iff.mpr ⟨i, rfl, next⟩) here
        rw [depthOf] at depth
        rw [depthOf, adopted.owner]
        by_cases within : a.Within s n
        · rw [adopted.lower n within, adopted.lower _ (both.mp within), depth]
          omega
        · rw [adopted.stay n within, adopted.stay _ (mt both.mpr within), depth]
  case down =>
    intro i n next
    rw [adopted.next] at next
    rw [adopted.levels, adopted.parent]
    split at next
    · rename_i here
      obtain rfl := Option.some.inj next
      exact ⟨inside, lower, by simp, by rw [if_pos rfl, here]⟩
    · obtain ⟨hn, notRoot, fixed, parent⟩ := h.down i n next
      have differs : n ≠ s := fun same => fixed (congrArg some same.symm)
      exact ⟨hn, notRoot, by simp, by rw [if_neg differs, parent]⟩
  case owned =>
    intro i hi
    rw [adopted.links] at hi
    rw [adopted.owner, adopted.held]
    exact h.owned i hi
  case held =>
    intro n i mem
    rw [adopted.held] at mem
    rw [adopted.links, adopted.owner]
    exact h.held n i mem
  case once =>
    intro n
    rw [adopted.held]
    exact h.once n
  case index =>
    intro id i
    rw [adopted.index, adopted.module]
    exact h.index id i

theorem Above.adopt (above : Above a n ms) (apart : ¬ a.Within s n) : Above b n ms := by
  induction above with
  | @top n inside first =>
    have other : n ≠ s := fun same => apart (same ▸ .refl)
    refine .top (by rwa [adopted.levels]) ?_
    rw [adopted.parent, if_neg other, first]
  | @under n i ms inside parent hung _ ih =>
    have other : n ≠ s := fun same => apart (same ▸ .refl)
    have fixed : some s ≠ some n := fun same => other (Option.some.inj same).symm
    have mem : n ∈ a.below (a.link i).owner :=
      h.mem_below_iff.mpr ⟨i, rfl, (h.parent inside fixed parent).1⟩
    rw [← adopted.module]
    refine .under (by rwa [adopted.levels]) ?_ (by rwa [adopted.links]) ?_
    · rw [adopted.parent, if_neg other, parent]
    · rw [adopted.owner]
      exact ih (mt (h.within_parent mem other).mpr apart)

end

/-! ### Pushing a module down -/

/-- An arena `b` in which the link `moved` has taken the place of the link `l` of `a`, for the
modules below it as well as for those above. -/
structure Turned (a b : Arena) (l moved : Nat) (id : ModuleId) : Prop where
  wellFormed : b.WellFormed none
  levels : a.levels.length ≤ b.levels.length
  links : a.links.length ≤ b.links.length
  index : ∀ m, b.index.value? m = if m = id then some moved else a.index.value? m
  parent : ∀ n < a.levels.length, (b.level n).parent =
    if (a.link l).next = some n then some moved else (a.level n).parent
  link : ∀ i < a.links.length, i ≠ l →
    (b.link i).module = (a.link i).module ∧ (b.link i).owner = (a.link i).owner
  above : ∀ ms, Above a (a.link l).owner ms → Above b (b.link moved).owner ms

theorem Turned.above_level (t : Turned a b l moved id) (h : a.WellFormed none)
    (own : (a.link l).module = some id) (above : Above a n ms) : Above b n ms := by
  have own' : (b.link moved).module = some id :=
    (t.wellFormed.index id moved).mp ((t.index id).trans (if_pos rfl))
  induction above with
  | @top n inside first =>
    refine .top (Nat.lt_of_lt_of_le inside t.levels) ?_
    rw [t.parent n inside, if_neg, first]
    intro next
    cases first.symm.trans (h.down l n next).2.2.2
  | @under n i ms inside parent hung rest ih =>
    have inside' := Nat.lt_of_lt_of_le inside t.levels
    have next := (h.parent inside (by simp) parent).1
    by_cases here : i = l
    · subst here
      rw [own, ← own']
      refine .under inside' ?_ (lt_of_module own') (t.above ms rest)
      rw [t.parent n inside, if_pos next]
    · obtain ⟨module, owner⟩ := t.link i hung here
      rw [← module]
      refine .under inside' ?_ (Nat.lt_of_lt_of_le hung t.links) (owner ▸ ih)
      rw [t.parent n inside, if_neg, parent]
      intro next'
      have parent' := (h.down l n next').2.2.2
      exact here (Option.some.inj (parent.symm.trans parent'))

theorem Turned.above?_eq (t : Turned a b l moved id) (h : a.WellFormed none)
    (placed : a.index.value? id = some l) (m : ModuleId) : b.above? m = a.above? m := by
  have own := (h.index id l).mp placed
  cases found : a.above? m with
  | none =>
    rw [above?, Option.map_eq_none_iff] at found
    have other : m ≠ id := by
      rintro rfl
      cases found.symm.trans placed
    rw [above?, t.index, if_neg other, found]
    rfl
  | some ms =>
    obtain ⟨i, place, above⟩ := h.above?_eq_some.mp found
    rw [t.wellFormed.above?_eq_some, t.index]
    by_cases same : m = id
    · subst same
      obtain rfl := Option.some.inj (place.symm.trans placed)
      exact ⟨moved, if_pos rfl, t.above ms above⟩
    · have other : i ≠ l := by
        rintro rfl
        exact same (Option.some.inj (((h.index m i).mp place).symm.trans own))
      refine ⟨i, (if_neg same).trans place, ?_⟩
      rw [(t.link i (h.lt_of_index place) other).2]
      exact t.above_level h own above

structure Chained (a b : Arena) (l moved : Nat) (id : ModuleId) (distance : Nat) : Prop where
  hung : Hung (a.vacate l id) b l moved (some id) distance (a.link l).next
  counted : a.Counted → b.Counted
  index : ∀ m, b.index.value? m = if m = id then some moved else a.index.value? m
  link : ∀ i < a.links.length, i ≠ l →
    (b.link i).module = (a.link i).module ∧ (b.link i).owner = (a.link i).owner
  above : ∀ ms, Above a (a.link l).owner ms → Above b (b.link moved).owner ms

theorem WellFormed.chained (h : a.WellFormed none) (placed : a.index.value? id = some l)
    (n : Nat) : Chained a (hang id n (a.vacate l id) l).1 l (hang id n (a.vacate l id) l).2 id
      (1 + n) := by
  have inside := h.lt_of_index placed
  have own := (h.index id l).mp placed
  have empty : (a.vacate l id).link l = { a.link l with module := none, next := none } := by
    rw [link_vacate, if_pos ⟨rfl, inside⟩]
  have away (m : ModuleId) : (a.vacate l id).index.value? m =
      if m = id then none else a.index.value? m := Table.value?_erase a.index id m
  have hung := (h.vacate placed).hung_hang (by simpa using inside) (by rw [empty])
    ((away id).trans (if_pos rfl)) n
  refine ⟨hung, fun counted => (counted.vacate own).hang n, fun m => ?_, fun i hi other => ?_,
    fun ms above => ?_⟩
  · rw [hung.index, away]
    by_cases same : m = id
    · simp [same]
    · simp [same, Ne.symm same]
  · have old := hung.old.link i (by simpa using hi)
    rwa [link_vacate, if_neg fun here => other here.1] at old
  · have higher := hung.above ms (by
      rw [owner_vacate]
      exact above.vacate h (Nat.le_refl _))
    rwa [empty] at higher

theorem Chained.turned_none {d : Nat} (c : Chained a b l moved id d)
    (next : (a.link l).next = none) : Turned a b l moved id where
  wellFormed := next ▸ c.hung.wellFormed
  levels := c.hung.old.levels
  links := by simpa using c.hung.old.links
  index := c.index
  parent n inside := by
    rw [next, if_neg (by simp)]
    exact (c.hung.old.level n inside).2
  link := c.link
  above := c.above

section
variable {d : Nat} (c : Chained a b l moved id d) (h : a.WellFormed none)
  (next : (a.link l).next = some s)
include c h next

theorem Chained.spares : (∀ n, a.Within s n → b.below n = (a.vacate l id).below n) ∧
    ¬ b.Within s (b.link moved).owner := by
  have apart : ¬ (a.vacate l id).Within s ((a.vacate l id).link l).owner := by
    rw [h.within_vacate next, owner_vacate]
    exact h.owner_apart next
  obtain ⟨same, apart⟩ := c.hung.below s (h.down l s next).1 apart
  exact ⟨fun n within => same n ((h.within_vacate next).mpr within), apart⟩

theorem Chained.within : b.Within s n ↔ a.Within s n := by
  have vacated : (a.vacate l id).Within s n ↔ a.Within s n := h.within_vacate next
  refine (Within.congr fun n within => ?_).trans vacated
  exact (c.spares h next).1 n ((h.within_vacate next).mp within)

theorem Chained.adopted : Adopted b ((b.adopt moved s).shiftDepth s d) moved s d := by
  have wellFormed : b.WellFormed (some s) := next ▸ c.hung.wellFormed
  exact wellFormed.adopted c.hung.inside (c.spares h next).2 d

theorem Chained.turned_some : Turned a ((b.adopt moved s).shiftDepth s d) l moved id := by
  obtain ⟨inside, -, -, parent⟩ := h.down l s next
  have depth := (h.parent inside (by simp) parent).2
  have wellFormed : b.WellFormed (some s) := next ▸ c.hung.wellFormed
  have adopted := c.adopted h next
  have apart := (c.spares h next).2
  have deep : (b.level s).depth + d = b.depthOf moved + 1 := by
    rw [(c.hung.old.level s inside).1, level_vacate, depth, c.hung.depth, depthOf, depthOf,
      owner_vacate, level_vacate]
    omega
  constructor
  case wellFormed => exact wellFormed.adopt adopted c.hung.inside c.hung.next apart deep
  case levels => exact adopted.levels ▸ c.hung.old.levels
  case links => simpa [adopted.links] using c.hung.old.links
  case index => exact fun m => adopted.index ▸ c.index m
  case parent =>
    intro n hn
    have old := (c.hung.old.level n hn).2
    by_cases here : n = s
    · rw [adopted.parent, if_pos here, here, if_pos next]
    · have other : (a.link l).next ≠ some n := fun same =>
        here (Option.some.inj (same.symm.trans next))
      rw [adopted.parent, if_neg here, if_neg other, old, level_vacate]
  case link =>
    intro i hi other
    rw [adopted.module, adopted.owner]
    exact c.link i hi other
  case above =>
    intro ms above
    rw [adopted.owner]
    exact (c.above ms above).adopt wellFormed adopted apart

end

theorem pushDown_eq (placed : a.index.value? id = some l) {target : Nat}
    (deeper : a.depthOf l < target) : a.pushDown id target =
      let b := hang id (target - a.depthOf l - 1) (a.vacate l id) l
      match (a.link l).next with
      | none => b.1
      | some s => (b.1.adopt b.2 s).shiftDepth s (target - a.depthOf l) := by
  rw [pushDown, placed]
  exact if_neg (Nat.not_le.mpr deeper)

theorem WellFormed.turned (h : a.WellFormed none) (placed : a.index.value? id = some l)
    {target : Nat} (deeper : a.depthOf l < target) :
    ∃ moved, Turned a (a.pushDown id target) l moved id ∧
      (a.Counted → (a.pushDown id target).Counted) := by
  have chained := h.chained placed (target - a.depthOf l - 1)
  have distance : 1 + (target - a.depthOf l - 1) = target - a.depthOf l := by omega
  rw [distance] at chained
  rw [pushDown_eq placed deeper]
  cases next : (a.link l).next with
  | none => exact ⟨_, chained.turned_none next, chained.counted⟩
  | some s =>
    have adopted := chained.adopted h next
    exact ⟨_, chained.turned_some h next, adopted.counted ∘ chained.counted⟩

/-- Pushing down leaves the modules above every module. -/
theorem WellFormed.pushDown (h : a.WellFormed none) (counted : a.Counted) (id : ModuleId)
    (target : Nat) : (a.pushDown id target).WellFormed none ∧ (a.pushDown id target).Counted ∧
      ∀ m, (a.pushDown id target).above? m = a.above? m := by
  cases placed : a.index.value? id with
  | none =>
    rw [Arena.pushDown, placed]
    exact ⟨h, counted, fun _ => rfl⟩
  | some l =>
    by_cases deeper : a.depthOf l < target
    · obtain ⟨moved, turned, counted'⟩ := h.turned placed deeper
      exact ⟨turned.wellFormed, counted' counted, turned.above?_eq h placed⟩
    · have same : a.pushDown id target = a := by
        rw [Arena.pushDown, placed]
        exact if_pos (Nat.not_lt.mp deeper)
      rw [same]
      exact ⟨h, counted, fun _ => rfl⟩

end EventFlow.Arena

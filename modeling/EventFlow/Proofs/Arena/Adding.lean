import EventFlow.Proofs.Arena.Above
import Mathlib.Data.List.Sort

/-!
Placing a new module below a placed one or at the top of an arena.
-/

namespace EventFlow

theorem countP_modify {α : Type} {xs : List α} {i : Nat} {x : α} (there : xs[i]? = some x)
    (f : α → α) (p : α → Bool) : (xs.modify i f).countP p + (if p x then 1 else 0) =
      xs.countP p + (if p (f x) then 1 else 0) := by
  induction xs generalizing i with
  | nil => cases there
  | cons y xs ih =>
    cases i with
    | zero =>
      obtain rfl := Option.some.inj there
      rw [List.modify_zero_cons, List.countP_cons, List.countP_cons]
      omega
    | succ i =>
      have rest := ih there
      rw [List.modify_succ_cons, List.countP_cons, List.countP_cons]
      omega

namespace Arena

variable {a : Arena} {n k l i : Nat} {ms : List ModuleId} {id : ModuleId} {m : Option ModuleId}
  {free : Option Nat}

/-! ### Counting fillers -/

def Counted (a : Arena) : Prop := a.fillers = a.links.countP (·.module.isNone)

theorem countP_modify_module (a : Arena) (l : Nat) {g : ArenaLink → ArenaLink}
    (same : ∀ k, (g k).module = k.module) :
    (a.links.modify l g).countP (·.module.isNone) = a.links.countP (·.module.isNone) := by
  cases there : a.links[l]? with
  | none => rw [List.modify_eq_self (List.getElem?_eq_none_iff.mp there)]
  | some x =>
    have count := countP_modify there g (·.module.isNone)
    rw [same] at count
    omega

theorem Counted.nextLevel (h : a.Counted) : (a.nextLevel l).1.Counted := by
  rw [Counted, fillers_nextLevel, h]
  cases next : (a.link l).next with
  | some n => rw [nextLevel_some next]
  | none =>
    have same := a.countP_modify_module l
      (g := fun k => { k with next := some a.levels.length }) fun _ => rfl
    rw [Arena.nextLevel, next]
    exact same.symm

theorem Counted.pushLink (h : a.Counted) : (a.pushLink n (some id)).1.Counted := by
  rw [Counted, Arena.pushLink, List.countP_append]
  exact h

theorem Counted.sortLinks (h : a.Counted) : (a.sortLinks n).Counted := h

/-! ### Sorting -/

theorem level_sortLinks : (a.sortLinks n).level k =
    if k = n ∧ n < a.levels.length then
      { a.level n with links := (a.level n).links.mergeSort fun i l =>
          DependencyTree.linkLe (a.link i).module (a.link l).module } else a.level k :=
  getD_modify a.levels _ {} n k

@[simp]
theorem link_sortLinks : (a.sortLinks n).link l = a.link l := rfl

@[simp]
theorem levels_sortLinks : (a.sortLinks n).levels.length = a.levels.length :=
  List.length_modify ..

@[simp]
theorem depth_sortLinks : ((a.sortLinks n).level k).depth = (a.level k).depth :=
  getD_modify_same ArenaLevel.depth a.levels {} n k fun _ => rfl

@[simp]
theorem parent_sortLinks : ((a.sortLinks n).level k).parent = (a.level k).parent :=
  getD_modify_same ArenaLevel.parent a.levels {} n k fun _ => rfl

theorem links_sortLinks : (((a.sortLinks n).level k).links).Perm (a.level k).links := by
  rw [level_sortLinks]
  split
  · rename_i here
    rw [here.1]
    exact List.mergeSort_perm ..
  · exact List.Perm.refl _

theorem extends_sortLinks : Extends a (a.sortLinks n) where
  levels := by simp
  links := Nat.le_refl _
  level := by simp
  link := by simp

theorem WellFormed.sortLinks (h : a.WellFormed free) : (a.sortLinks n).WellFormed free where
  root := by simpa using h.root
  apart := by simpa using h.apart
  up k hk lower fixed := by
    obtain ⟨l, parent, next, depth⟩ := h.up k (by simpa using hk) lower fixed
    exact ⟨l, by simpa using parent, next, by simpa [depthOf] using depth⟩
  down l k next := by simpa using h.down l k next
  owned l hl := links_sortLinks.mem_iff.mpr (h.owned l hl)
  held k l mem := h.held k l (links_sortLinks.mem_iff.mp mem)
  once k := links_sortLinks.nodup_iff.mpr (h.once k)
  index := h.index

/-! ### A link below another one -/

theorem pushBelow_eq : a.pushBelow l m = (a.nextLevel l).1.pushLink (a.nextLevel l).2 m := rfl

@[simp]
theorem snd_pushBelow : (a.pushBelow l m).2 = a.links.length := by
  rw [pushBelow_eq]
  exact links_nextLevel

@[simp]
theorem links_pushBelow : (a.pushBelow l m).1.links.length = a.links.length + 1 := by
  rw [pushBelow_eq, links_pushLink, links_nextLevel]

theorem link_pushBelow : (a.pushBelow l m).1.link a.links.length =
    { module := m, owner := (a.nextLevel l).2 } := by
  rw [pushBelow_eq, link_pushLink, links_nextLevel, if_pos rfl]

theorem value?_pushBelow (id : ModuleId) : (a.pushBelow l m).1.index.value? id =
    if m = some id then some a.links.length else a.index.value? id := by
  rw [pushBelow_eq, value?_pushLink, links_nextLevel, index_nextLevel]

theorem extends_pushBelow : Extends a (a.pushBelow l m).1 :=
  extends_nextLevel.trans extends_pushLink

theorem WellFormed.pushBelow (h : a.WellFormed free) (hung : l < a.links.length)
    (fresh : ∀ id ∈ m, a.index.value? id = none) : (a.pushBelow l m).1.WellFormed free := by
  refine (h.nextLevel hung).pushLink (h.nextLevel_spec l).1 fun id hid => ?_
  rw [index_nextLevel]
  exact fresh id hid

theorem Above.pushBelow (above : Above a (a.link l).owner ms) (h : a.WellFormed free)
    (hung : l < a.links.length) : Above (a.pushBelow l m).1
      ((a.pushBelow l m).1.link a.links.length).owner ((a.link l).module.toList ++ ms) := by
  have e : Extends a (a.pushBelow l m).1 := extends_pushBelow
  obtain ⟨inside, parent, -⟩ := h.nextLevel_spec l
  obtain ⟨module, owner⟩ := e.link l hung
  rw [link_pushBelow, ← module]
  refine .under ?_ ?_ (Nat.lt_of_lt_of_le hung e.links) (owner ▸ e.above above)
  · rwa [pushBelow_eq, levels_pushLink]
  · rwa [pushBelow_eq, parent_pushLink]

theorem depthOf_pushBelow (h : a.WellFormed free) :
    (a.pushBelow l m).1.depthOf a.links.length = a.depthOf l + 1 := by
  rw [depthOf, link_pushBelow, pushBelow_eq, depth_pushLink]
  exact (h.nextLevel_spec l).2.2

/-! ### Adding modules -/

/-- `b` is `a` with one more module, which stands below the modules `ms`. -/
structure Adds (a b : Arena) (id : ModuleId) (ms : List ModuleId) : Prop where
  wellFormed : b.WellFormed none
  counted : b.Counted
  old : Extends a b
  contains : ∀ m, b.contains m = true ↔ a.contains m = true ∨ m = id
  above : b.above? id = some ms

theorem contains_of_value? {b : Arena} (values : ∀ m, b.index.value? m =
    if some id = some m then some l else a.index.value? m) (m : ModuleId) :
    b.contains m = true ↔ a.contains m = true ∨ m = id := by
  rw [contains_iff, contains_iff, values]
  by_cases here : id = m
  · simp [here]
  · simp [here, Ne.symm here]

theorem WellFormed.addTop (h : a.WellFormed none) (counted : a.Counted)
    (fresh : a.index.value? id = none) : Adds a (a.addTop id) id [] := by
  have pushed := h.pushLink h.root.1 (m := some id) (by simpa using fresh)
  have values := value?_pushLink (a := a) (n := 0) (m := some id)
  refine ⟨pushed.sortLinks, counted.pushLink.sortLinks, extends_pushLink.trans extends_sortLinks,
    contains_of_value? values, ?_⟩
  refine pushed.sortLinks.above?_eq_some.mpr ⟨a.links.length, (values id).trans (if_pos rfl), ?_⟩
  rw [Arena.link_sortLinks, link_pushLink, if_pos rfl]
  exact extends_sortLinks.above (.top (by simpa using h.root.1) (by simpa using h.root.2.2))

theorem WellFormed.addBelow {p : ModuleId} (h : a.WellFormed none) (counted : a.Counted)
    (placed : a.index.value? p = some l) (above : a.above? p = some ms)
    (fresh : a.index.value? id = none) : Adds a (a.addBelow l id) id (p :: ms) := by
  have hung := h.lt_of_index placed
  have pushed := h.pushBelow hung (m := some id) (by simpa using fresh)
  have values := value?_pushBelow (a := a) (l := l) (m := some id)
  refine ⟨pushed.sortLinks, counted.nextLevel.pushLink.sortLinks,
    extends_pushBelow.trans extends_sortLinks, contains_of_value? values, ?_⟩
  refine pushed.sortLinks.above?_eq_some.mpr ⟨a.links.length, (values id).trans (if_pos rfl), ?_⟩
  obtain ⟨l', placed', above⟩ := h.above?_eq_some.mp above
  obtain rfl := Option.some.inj (placed.symm.trans placed')
  have higher := above.pushBelow (m := some id) h hung
  rw [(h.index p l).mp placed] at higher
  exact extends_sortLinks.above higher

end Arena
end EventFlow

import EventFlow.Arena
import EventFlow.Proofs.Table
import Mathlib.Data.List.Basic

/-!
What holds of an arena while modules are placed and moved: its references lead to each other, and
nothing is held twice (`WellFormed`).
-/

namespace EventFlow

theorem getD_modify {α : Type} (xs : List α) (f : α → α) (d : α) (i j : Nat) :
    (xs.modify i f)[j]?.getD d = if j = i ∧ i < xs.length then f (xs[i]?.getD d) else xs[j]?.getD d := by
  rw [List.getElem?_modify]
  by_cases same : i = j
  · subst same
    by_cases inside : i < xs.length
    · simp [inside]
    · simp [inside]
  · rw [if_neg fun h => same h.1.symm]
    cases xs[j]? <;> simp [same]

theorem getD_modify_same {α β : Type} {f : α → α} (g : α → β) (xs : List α) (d : α) (i j : Nat)
    (same : ∀ x, g (f x) = g x) : g ((xs.modify i f)[j]?.getD d) = g (xs[j]?.getD d) := by
  rw [getD_modify]
  split
  · rename_i here
    rw [same, here.1]
  · rfl

theorem getD_concat {α : Type} (xs : List α) (x d : α) (j : Nat) :
    (xs ++ [x])[j]?.getD d = if j = xs.length then x else xs[j]?.getD d := by
  rw [List.getElem?_append]
  split
  · rename_i inside
    rw [if_neg (Nat.ne_of_lt inside)]
  · rename_i outside
    split
    · rename_i last
      simp [last]
    · rename_i beyond
      rw [List.getElem?_eq_none (by simp; omega), List.getElem?_eq_none (by omega)]

theorem Table.value?_erase {κ α : Type} [DecidableEq κ] (t : Table κ α) (k l : κ) :
    (t.erase k).value? l = if l = k then none else t.value? l := by
  induction t with
  | nil => simp [erase]
  | cons e t ih =>
    obtain ⟨m, b⟩ := e
    rw [erase, List.filter_cons]
    split
    · rename_i other
      rw [value?_cons, value?_cons, ← erase, ih]
      have other : m ≠ k := by simpa using other
      split
      · rename_i here
        rw [if_neg (here ▸ other)]
      · rfl
    · rename_i same
      have same : m = k := by simpa using same
      rw [← erase, ih, value?_cons]
      split
      · rfl
      · rename_i other
        rw [if_neg (fun h => other (h.symm.trans same))]

namespace Arena

variable {a : Arena} {f : ArenaLevel → ArenaLevel} {g : ArenaLink → ArenaLink} {n k l i : Nat}

/-! ### Reading what has been written -/

theorem level_modifyLevel : (a.modifyLevel n f).level k =
    if k = n ∧ n < a.levels.length then f (a.level n) else a.level k :=
  getD_modify a.levels f {} n k

theorem link_modifyLink : (a.modifyLink l g).link i =
    if i = l ∧ l < a.links.length then g (a.link l) else a.link i :=
  getD_modify a.links g {} l i

theorem level_lt (h : l ∈ (a.level n).links) : n < a.levels.length := by
  by_contra beyond
  rw [level, List.getElem?_eq_none (by omega)] at h
  cases h

theorem link_lt (h : a.link l ≠ {}) : l < a.links.length := by
  by_contra beyond
  rw [link, List.getElem?_eq_none (by omega)] at h
  exact h rfl

theorem lt_of_module {id : ModuleId} (h : (a.link l).module = some id) : l < a.links.length :=
  link_lt fun none => by rw [none] at h; cases h

theorem lt_of_next (h : (a.link l).next = some n) : l < a.links.length :=
  link_lt fun none => by rw [none] at h; cases h

/-- References lead to each other. The level `free` has been taken from the link above it and is
still to be hung below another one. -/
structure WellFormed (a : Arena) (free : Option Nat) : Prop where
  root : 0 < a.levels.length ∧ (a.level 0).depth = 0 ∧ (a.level 0).parent = none
  apart : ∀ s ∈ free, s < a.levels.length ∧ s ≠ 0
  up : ∀ n < a.levels.length, n ≠ 0 → free ≠ some n →
    ∃ l, (a.level n).parent = some l ∧ (a.link l).next = some n ∧
      (a.level n).depth = a.depthOf l + 1
  down : ∀ l n, (a.link l).next = some n →
    n < a.levels.length ∧ n ≠ 0 ∧ free ≠ some n ∧ (a.level n).parent = some l
  owned : ∀ l < a.links.length, l ∈ (a.level (a.link l).owner).links
  held : ∀ n, ∀ l ∈ (a.level n).links, l < a.links.length ∧ (a.link l).owner = n
  once : ∀ n, (a.level n).links.Nodup
  index : ∀ id l, a.index.value? id = some l ↔ (a.link l).module = some id

namespace WellFormed

variable {free : Option Nat} (h : a.WellFormed free)
include h

theorem owner_lt (inside : l < a.links.length) : (a.link l).owner < a.levels.length :=
  level_lt (h.owned l inside)

theorem depth_pos (inside : n < a.levels.length) (lower : n ≠ 0) (fixed : free ≠ some n) :
    0 < (a.level n).depth := by
  obtain ⟨l, -, -, depth⟩ := h.up n inside lower fixed
  omega

theorem parent (inside : n < a.levels.length) (fixed : free ≠ some n)
    (parent : (a.level n).parent = some l) :
    (a.link l).next = some n ∧ (a.level n).depth = a.depthOf l + 1 := by
  have lower : n ≠ 0 := by
    rintro rfl
    cases h.root.2.2.symm.trans parent
  obtain ⟨l', parent', next, depth⟩ := h.up n inside lower fixed
  obtain rfl := Option.some.inj (parent'.symm.trans parent)
  exact ⟨next, depth⟩

theorem mem_below_iff : k ∈ a.below n ↔
    ∃ l, (a.link l).owner = n ∧ (a.link l).next = some k := by
  rw [below, List.mem_filterMap]
  constructor
  · rintro ⟨l, mem, next⟩
    exact ⟨l, (h.held n l mem).2, next⟩
  · rintro ⟨l, rfl, next⟩
    exact ⟨l, h.owned l (lt_of_next next), next⟩

theorem depth_of_mem_below (mem : k ∈ a.below n) : k < a.levels.length ∧ k ≠ 0 ∧ free ≠ some k ∧
    (a.level k).depth = (a.level n).depth + 1 := by
  obtain ⟨l, rfl, next⟩ := h.mem_below_iff.mp mem
  obtain ⟨inside, lower, fixed, parent⟩ := h.down l k next
  exact ⟨inside, lower, fixed, (h.parent inside fixed parent).2⟩

theorem below_unique {m : Nat} (first : k ∈ a.below n) (second : k ∈ a.below m) : n = m := by
  obtain ⟨l, rfl, next⟩ := h.mem_below_iff.mp first
  obtain ⟨l', rfl, next'⟩ := h.mem_below_iff.mp second
  have parent := (h.down l k next).2.2.2
  rw [(h.down l' k next').2.2.2, Option.some.injEq] at parent
  rw [parent]

theorem below_nodup : (a.below n).Nodup := by
  refine (h.once n).filterMap fun l l' k next next' => ?_
  have parent := (h.down l k next).2.2.2
  rw [(h.down l' k next').2.2.2, Option.some.injEq] at parent
  exact parent.symm

theorem exists_below (inside : k < a.levels.length) (lower : k ≠ 0) (fixed : free ≠ some k) :
    ∃ n < a.levels.length, k ∈ a.below n := by
  obtain ⟨l, parent, next, -⟩ := h.up k inside lower fixed
  exact ⟨_, h.owner_lt (lt_of_next next), h.mem_below_iff.mpr ⟨l, rfl, next⟩⟩

end WellFormed

theorem wellFormed_empty : ({} : Arena).WellFormed none where
  root := by simp [level]
  apart := by simp
  up n inside lower := by
    simp at inside
    exact absurd inside lower
  down := by simp [link]
  owned := by simp
  held n l mem := by
    cases n <;> simp [level] at mem
  once n := by cases n <;> simp [level]
  index := by simp [link]

/-! ### Adding links and levels -/

section
variable {m : Option ModuleId}

theorem level_pushLink : (a.pushLink n m).1.level k =
    if k = n ∧ n < a.levels.length then
      { a.level n with links := (a.level n).links ++ [a.links.length] } else a.level k :=
  getD_modify a.levels _ {} n k

theorem link_pushLink : (a.pushLink n m).1.link i =
    if i = a.links.length then { module := m, owner := n } else a.link i :=
  getD_concat a.links _ {} i

@[simp]
theorem depth_pushLink : ((a.pushLink n m).1.level k).depth = (a.level k).depth :=
  getD_modify_same ArenaLevel.depth a.levels {} n k fun _ => rfl

@[simp]
theorem parent_pushLink : ((a.pushLink n m).1.level k).parent = (a.level k).parent :=
  getD_modify_same ArenaLevel.parent a.levels {} n k fun _ => rfl

@[simp]
theorem levels_pushLink : (a.pushLink n m).1.levels.length = a.levels.length :=
  List.length_modify ..

@[simp]
theorem links_pushLink : (a.pushLink n m).1.links.length = a.links.length + 1 :=
  List.length_append

theorem next_pushLink : ((a.pushLink n m).1.link i).next = (a.link i).next := by
  rw [link_pushLink]
  split
  · rename_i new
    subst new
    by_contra old
    exact absurd (link_lt fun none => old (by rw [none])) (Nat.lt_irrefl _)
  · rfl

theorem value?_pushLink (id : ModuleId) : (a.pushLink n m).1.index.value? id =
    if m = some id then some a.links.length else a.index.value? id := by
  cases m with
  | none => rfl
  | some id' =>
    rw [pushLink, Table.value?_put]
    simp only [Option.some.injEq]

theorem mem_links_pushLink : i ∈ ((a.pushLink n m).1.level k).links ↔
    i ∈ (a.level k).links ∨ i = a.links.length ∧ k = n ∧ n < a.levels.length := by
  rw [level_pushLink]
  split
  · rename_i here
    simp [here]
  · rename_i other
    simp [other]

theorem WellFormed.pushLink {free : Option Nat} (h : a.WellFormed free)
    (inside : n < a.levels.length) (fresh : ∀ id ∈ m, a.index.value? id = none) :
    (a.pushLink n m).1.WellFormed free where
  root := by simpa using h.root
  apart := by simpa using h.apart
  up k hk lower fixed := by
    rw [levels_pushLink] at hk
    obtain ⟨l, parent, next, depth⟩ := h.up k hk lower fixed
    have old := lt_of_next next
    refine ⟨l, by rwa [parent_pushLink], by rwa [next_pushLink], ?_⟩
    rw [depth_pushLink, depthOf, depth_pushLink, link_pushLink, if_neg (Nat.ne_of_lt old), depth]
    rfl
  down l k next := by
    rw [next_pushLink] at next
    rw [levels_pushLink, parent_pushLink]
    exact h.down l k next
  owned l hl := by
    rw [links_pushLink] at hl
    rw [link_pushLink, mem_links_pushLink]
    split
    · rename_i new
      exact Or.inr ⟨new, rfl, inside⟩
    · exact Or.inl (h.owned l (by omega))
  held k l mem := by
    rw [links_pushLink, link_pushLink]
    rcases mem_links_pushLink.mp mem with old | ⟨rfl, rfl, -⟩
    · obtain ⟨inside, owner⟩ := h.held k l old
      rw [if_neg (Nat.ne_of_lt inside)]
      exact ⟨by omega, owner⟩
    · simp
  once k := by
    rw [level_pushLink]
    split
    · refine List.nodup_append.mpr ⟨h.once n, List.nodup_singleton _, ?_⟩
      rintro l mem l' last rfl
      obtain rfl := List.mem_singleton.mp last
      exact Nat.lt_irrefl _ (h.held n _ mem).1
    · exact h.once k
  index id l := by
    rw [value?_pushLink, link_pushLink]
    by_cases new : l = a.links.length
    · subst new
      rw [if_pos rfl]
      split
      · simp_all
      · rename_i other
        constructor
        · intro old
          exact absurd (lt_of_module ((h.index id _).mp old)) (Nat.lt_irrefl _)
        · exact fun here => absurd here other
    · rw [if_neg new, ← h.index]
      split
      · rename_i here
        simp [fresh id here, Ne.symm new]
      · rfl

end

theorem nextLevel_some (next : (a.link l).next = some n) : a.nextLevel l = (a, n) := by
  rw [nextLevel, next]

theorem snd_nextLevel (next : (a.link l).next = none) : (a.nextLevel l).2 = a.levels.length := by
  rw [nextLevel, next]

theorem level_nextLevel (next : (a.link l).next = none) : (a.nextLevel l).1.level k =
    if k = a.levels.length then { depth := a.depthOf l + 1, parent := some l } else a.level k := by
  rw [nextLevel, next]
  exact getD_concat a.levels _ {} k

theorem link_nextLevel (next : (a.link l).next = none) : (a.nextLevel l).1.link i =
    if i = l ∧ l < a.links.length then { a.link l with next := some a.levels.length }
    else a.link i := by
  rw [nextLevel, next]
  exact getD_modify a.links _ {} l i

theorem levels_nextLevel (next : (a.link l).next = none) :
    (a.nextLevel l).1.levels.length = a.levels.length + 1 := by
  rw [nextLevel, next]
  exact List.length_append

@[simp]
theorem links_nextLevel : (a.nextLevel l).1.links.length = a.links.length := by
  cases next : (a.link l).next with
  | some n => rw [nextLevel_some next]
  | none =>
    rw [nextLevel, next]
    exact List.length_modify ..

@[simp]
theorem index_nextLevel : (a.nextLevel l).1.index = a.index := by
  unfold nextLevel
  split <;> rfl

@[simp]
theorem fillers_nextLevel : (a.nextLevel l).1.fillers = a.fillers := by
  unfold nextLevel
  split <;> rfl

@[simp]
theorem module_nextLevel : ((a.nextLevel l).1.link i).module = (a.link i).module := by
  cases next : (a.link l).next with
  | some n => rw [nextLevel_some next]
  | none =>
    rw [nextLevel, next]
    exact getD_modify_same ArenaLink.module a.links {} l i fun _ => rfl

@[simp]
theorem owner_nextLevel : ((a.nextLevel l).1.link i).owner = (a.link i).owner := by
  cases next : (a.link l).next with
  | some n => rw [nextLevel_some next]
  | none =>
    rw [nextLevel, next]
    exact getD_modify_same ArenaLink.owner a.links {} l i fun _ => rfl

@[simp]
theorem held_nextLevel : ((a.nextLevel l).1.level k).links = (a.level k).links := by
  cases next : (a.link l).next with
  | some n => rw [nextLevel_some next]
  | none =>
    rw [level_nextLevel next]
    split
    · rename_i new
      by_contra old
      obtain ⟨l', mem⟩ := List.exists_mem_of_ne_nil _ (Ne.symm old)
      exact absurd (level_lt mem) (by omega)
    · rfl

theorem WellFormed.nextLevel {free : Option Nat} (h : a.WellFormed free)
    (inside : l < a.links.length) : (a.nextLevel l).1.WellFormed free := by
  cases next : (a.link l).next with
  | some n =>
    rw [nextLevel_some next]
    exact h
  | none =>
    have size := levels_nextLevel next
    have owner := h.owner_lt inside
    have old {k : Nat} (hk : k < a.levels.length) : (a.nextLevel l).1.level k = a.level k := by
      rw [level_nextLevel next, if_neg (Nat.ne_of_lt hk)]
    constructor
    case root =>
      rw [old h.root.1, size]
      exact ⟨by omega, h.root.2⟩
    case apart =>
      intro s hs
      rw [size]
      have := h.apart s hs
      exact ⟨by omega, this.2⟩
    case up =>
      intro k hk lower fixed
      rw [size] at hk
      by_cases new : k = a.levels.length
      · refine ⟨l, ?_, ?_, ?_⟩
        · rw [level_nextLevel next, if_pos new]
        · rw [link_nextLevel next, if_pos ⟨rfl, inside⟩, new]
        · rw [level_nextLevel next, if_pos new, depthOf, depthOf, owner_nextLevel, old owner]
      · have hk : k < a.levels.length := by omega
        obtain ⟨l', parent, next', depth⟩ := h.up k hk lower fixed
        refine ⟨l', by rwa [old hk], ?_, ?_⟩
        · rw [link_nextLevel next, if_neg, next']
          rintro ⟨rfl, -⟩
          cases next.symm.trans next'
        · rw [old hk, depthOf, owner_nextLevel, old (h.owner_lt (lt_of_next next')), depth]
          rfl
    case down =>
      intro l' k next'
      rw [link_nextLevel next] at next'
      split at next'
      · rename_i here
        obtain rfl := Option.some.inj next'
        rw [size, level_nextLevel next, if_pos rfl, here.1]
        refine ⟨Nat.lt_succ_self _, Nat.ne_of_gt h.root.1, fun same => ?_, rfl⟩
        exact Nat.lt_irrefl _ (h.apart _ same).1
      · obtain ⟨hk, lower, fixed, parent⟩ := h.down l' k next'
        rw [size, old hk]
        exact ⟨by omega, lower, fixed, parent⟩
    case owned =>
      intro l' hl
      rw [links_nextLevel] at hl
      rw [owner_nextLevel, held_nextLevel]
      exact h.owned l' hl
    case held =>
      intro k l' mem
      rw [held_nextLevel] at mem
      rw [links_nextLevel, owner_nextLevel]
      exact h.held k l' mem
    case once =>
      intro k
      rw [held_nextLevel]
      exact h.once k
    case index =>
      intro id l'
      rw [index_nextLevel, module_nextLevel]
      exact h.index id l'

theorem WellFormed.nextLevel_spec {free : Option Nat} (h : a.WellFormed free) (l : Nat) :
    (a.nextLevel l).2 < (a.nextLevel l).1.levels.length ∧
    ((a.nextLevel l).1.level (a.nextLevel l).2).parent = some l ∧
    ((a.nextLevel l).1.level (a.nextLevel l).2).depth = a.depthOf l + 1 := by
  cases next : (a.link l).next with
  | some n =>
    obtain ⟨hn, -, fixed, parent⟩ := h.down l n next
    rw [nextLevel_some next]
    exact ⟨hn, parent, (h.parent hn fixed parent).2⟩
  | none =>
    rw [snd_nextLevel next, level_nextLevel next, if_pos rfl, levels_nextLevel next]
    exact ⟨Nat.lt_succ_self _, rfl, rfl⟩

/-! ### What stays -/

/-- Levels and links may have been added, but those of `a` stand where they stood. -/
structure Extends (a b : Arena) : Prop where
  levels : a.levels.length ≤ b.levels.length
  links : a.links.length ≤ b.links.length
  level : ∀ n < a.levels.length,
    (b.level n).depth = (a.level n).depth ∧ (b.level n).parent = (a.level n).parent
  link : ∀ l < a.links.length,
    (b.link l).module = (a.link l).module ∧ (b.link l).owner = (a.link l).owner

namespace Extends

variable {b c : Arena}

theorem rfl : Extends a a := ⟨Nat.le_refl _, Nat.le_refl _, fun _ _ => ⟨.refl _, .refl _⟩,
  fun _ _ => ⟨.refl _, .refl _⟩⟩

theorem trans (h : Extends a b) (k : Extends b c) : Extends a c where
  levels := Nat.le_trans h.levels k.levels
  links := Nat.le_trans h.links k.links
  level n hn := by
    have first := h.level n hn
    have second := k.level n (Nat.lt_of_lt_of_le hn h.levels)
    exact ⟨second.1.trans first.1, second.2.trans first.2⟩
  link l hl := by
    have first := h.link l hl
    have second := k.link l (Nat.lt_of_lt_of_le hl h.links)
    exact ⟨second.1.trans first.1, second.2.trans first.2⟩

end Extends

theorem extends_pushLink {m : Option ModuleId} : Extends a (a.pushLink n m).1 where
  levels := by simp
  links := by simp
  level k _ := by simp
  link i hi := by
    rw [link_pushLink, if_neg (Nat.ne_of_lt hi)]
    exact ⟨rfl, rfl⟩

theorem extends_nextLevel : Extends a (a.nextLevel l).1 := by
  cases next : (a.link l).next with
  | some n =>
    rw [nextLevel_some next]
    exact Extends.rfl
  | none =>
    refine ⟨?_, by simp, fun n hn => ?_, by simp⟩
    · rw [levels_nextLevel next]
      omega
    · rw [level_nextLevel next, if_neg (Nat.ne_of_lt hn)]
      exact ⟨rfl, rfl⟩

end Arena
end EventFlow

import EventFlow.Proofs.Arena.Above
import Mathlib.Logic.Relation

/-!
A level and all below it. A stack of levels meets each of them once, since no level hangs below two
links (`Forks`).
-/

namespace EventFlow.Arena

variable {a b : Arena} {s n k l : Nat} {done stack : List Nat}

def Within (a : Arena) (s n : Nat) : Prop := Relation.ReflTransGen (fun n k => k ∈ a.below n) s n

structure Forks (a : Arena) (s : Nat) : Prop where
  inside : ∀ n, a.Within s n → n < a.levels.length
  nodup : ∀ n, a.Within s n → (a.below n).Nodup
  unique : ∀ n m k, a.Within s n → a.Within s m → k ∈ a.below n → k ∈ a.below m → n = m
  apart : ∀ n, a.Within s n → s ∉ a.below n

theorem WellFormed.within {free : Option Nat} (h : a.WellFormed free) (inside : s < a.levels.length)
    (within : a.Within s n) :
    n < a.levels.length ∧ (a.level s).depth ≤ (a.level n).depth := by
  induction within with
  | refl => exact ⟨inside, Nat.le_refl _⟩
  | tail _ mem ih =>
    obtain ⟨inside, -, -, depth⟩ := h.depth_of_mem_below mem
    exact ⟨inside, by omega⟩

theorem WellFormed.forks {free : Option Nat} (h : a.WellFormed free)
    (inside : s < a.levels.length) : a.Forks s where
  inside _ within := (h.within inside within).1
  nodup _ _ := h.below_nodup
  unique _ _ _ _ _ first second := h.below_unique first second
  apart n within mem := by
    have deep := (h.within inside within).2
    obtain ⟨-, -, -, depth⟩ := h.depth_of_mem_below mem
    omega

theorem Within.congr (same : ∀ n, a.Within s n → b.below n = a.below n) :
    b.Within s n ↔ a.Within s n := by
  constructor
  · intro within
    induction within with
    | refl => exact .refl
    | tail _ mem ih => exact ih.tail (same _ ih ▸ mem)
  · intro within
    induction within with
    | refl => exact .refl
    | tail within mem ih => exact ih.tail (same _ within ▸ mem)

theorem Forks.congr (h : a.Forks s) (longer : a.levels.length ≤ b.levels.length)
    (same : ∀ n, a.Within s n → b.below n = a.below n) : b.Forks s := by
  have within {n : Nat} : b.Within s n ↔ a.Within s n := Within.congr same
  constructor
  case inside => exact fun n hn => Nat.lt_of_lt_of_le (h.inside n (within.mp hn)) longer
  case nodup =>
    intro n hn
    rw [same n (within.mp hn)]
    exact h.nodup n (within.mp hn)
  case unique =>
    intro n m k hn hm first second
    rw [same n (within.mp hn)] at first
    rw [same m (within.mp hm)] at second
    exact h.unique n m k (within.mp hn) (within.mp hm) first second
  case apart =>
    intro n hn
    rw [same n (within.mp hn)]
    exact h.apart n (within.mp hn)

/-! ### The stack -/

/-- What holds of the levels that have been taken from the stack and those that are still on it. -/
structure Unstacking (a : Arena) (s : Nat) (done stack : List Nat) : Prop where
  nodup : (done ++ stack).Nodup
  within : ∀ n ∈ done ++ stack, a.Within s n
  parent : ∀ k ∈ done ++ stack, k = s ∨ ∃ n ∈ done, k ∈ a.below n
  closed : ∀ n ∈ done, ∀ k ∈ a.below n, k ∈ done ++ stack
  start : s ∈ done ++ stack

theorem unstacking_start : a.Unstacking s [] [s] where
  nodup := by simp
  within n mem := by
    obtain rfl : n = s := by simpa using mem
    exact .refl
  parent k mem := Or.inl (by simpa using mem)
  closed n mem := by cases mem
  start := by simp

theorem Unstacking.step (h : a.Forks s) (st : a.Unstacking s done (n :: stack)) :
    a.Unstacking s (done ++ [n]) ((a.below n).reverse ++ stack) := by
  have here : a.Within s n := st.within n (by simp)
  have notDone : n ∉ done := fun mem =>
    (List.nodup_append.mp st.nodup).2.2 n mem n List.mem_cons_self rfl
  have fresh : ∀ k ∈ a.below n, k ∉ done ++ n :: stack := by
    intro k below mem
    rcases st.parent k mem with rfl | ⟨m, hm, other⟩
    · exact h.apart n here below
    · have within := st.within m (List.mem_append_left _ hm)
      exact notDone (h.unique m n k within here other below ▸ hm)
  have perm : ((done ++ [n]) ++ ((a.below n).reverse ++ stack)).Perm
      (a.below n ++ (done ++ n :: stack)) := by
    have front : (done ++ [n] ++ (a.below n).reverse).Perm (a.below n ++ (done ++ [n])) :=
      List.perm_append_comm.trans ((a.below n).reverse_perm.append_right _)
    simpa using front.append_right stack
  constructor
  case nodup =>
    refine perm.nodup_iff.mpr (List.nodup_append.mpr ⟨h.nodup n here, st.nodup, ?_⟩)
    rintro k below k' mem rfl
    exact fresh k below mem
  case within =>
    intro k mem
    rcases List.mem_append.mp (perm.mem_iff.mp mem) with below | old
    · exact here.tail below
    · exact st.within k old
  case parent =>
    intro k mem
    rcases List.mem_append.mp (perm.mem_iff.mp mem) with below | old
    · exact Or.inr ⟨n, by simp, below⟩
    · refine (st.parent k old).imp_right ?_
      rintro ⟨m, hm, below⟩
      exact ⟨m, List.mem_append_left _ hm, below⟩
  case closed =>
    intro m hm k below
    rw [perm.mem_iff, List.mem_append]
    rcases List.mem_append.mp hm with old | last
    · exact Or.inr (st.closed m old k below)
    · obtain rfl := List.mem_singleton.mp last
      exact Or.inl below
  case start => exact perm.mem_iff.mpr (List.mem_append_right _ st.start)

theorem Unstacking.length_le (h : a.Forks s) (st : a.Unstacking s done stack) :
    done.length ≤ a.levels.length := by
  have inside : done ⊆ List.range a.levels.length := fun n mem =>
    List.mem_range.mpr (h.inside n (st.within n (List.mem_append_left _ mem)))
  have size := (List.subperm_of_subset (List.nodup_append.mp st.nodup).1 inside).length_le
  rwa [List.length_range] at size

theorem Unstacking.run (h : a.Forks s) {fuel : Nat} (st : a.Unstacking s done stack)
    (enough : a.levels.length < done.length + fuel) :
    (done ++ a.unstack fuel stack).Nodup ∧
    ∀ n, n ∈ done ++ a.unstack fuel stack ↔ a.Within s n := by
  induction fuel generalizing done stack with
  | zero => exact absurd (st.length_le h) (by omega)
  | succ fuel ih =>
    cases stack with
    | nil =>
      simp only [unstack]
      refine ⟨st.nodup, fun n => ⟨st.within n, fun within => ?_⟩⟩
      induction within with
      | refl => exact st.start
      | tail _ below ih => exact st.closed _ (by simpa using ih) _ below
    | cons n stack =>
      rw [unstack]
      have rest := ih (st.step h) (by simp; omega)
      rwa [List.append_assoc, List.singleton_append] at rest

theorem Forks.subtree (h : a.Forks s) :
    (a.subtree s).Nodup ∧ ∀ n, n ∈ a.subtree s ↔ a.Within s n := by
  have all := unstacking_start.run h (show a.levels.length < List.length [] + (a.levels.length + 1) by simp)
  rwa [List.nil_append] at all

/-! ### Modules below a link -/

theorem WellFormed.above_within {ms : List ModuleId} {id : ModuleId} (h : a.WellFormed none)
    (own : (a.link l).module = some id) (next : (a.link l).next = some s)
    (within : a.Within s n) (above : Above a n ms) : id ∈ ms := by
  induction within generalizing ms with
  | refl => exact above.mem_of_parent (h.down l s next).2.2.2 own
  | tail _ mem ih =>
    obtain ⟨l', rfl, next'⟩ := h.mem_below_iff.mp mem
    have parent := (h.down l' _ next').2.2.2
    cases above with
    | top _ first => cases first.symm.trans parent
    | under _ parent' _ rest =>
      obtain rfl := Option.some.inj (parent.symm.trans parent')
      exact List.mem_append_right _ (ih rest)

theorem WellFormed.mem_descendants {m : ModuleId} (h : a.WellFormed none) : m ∈ a.descendants l ↔
    ∃ s i, (a.link l).next = some s ∧ a.index.value? m = some i ∧
      a.Within s (a.link i).owner := by
  rw [descendants]
  split
  · rename_i tail
    simp [tail]
  · rename_i s next
    have subtree := (h.forks (h.down l s next).1).subtree.2
    rw [List.mem_flatMap]
    constructor
    · rintro ⟨n, mem, there⟩
      obtain ⟨i, placed, rfl⟩ := h.mem_row.mp there
      exact ⟨s, i, next, placed, (subtree _).mp mem⟩
    · rintro ⟨s', i, next', placed, within⟩
      obtain rfl := Option.some.inj (next.symm.trans next')
      exact ⟨_, (subtree _).mpr within, h.mem_row.mpr ⟨i, placed, rfl⟩⟩

theorem WellFormed.above_descendant {id d : ModuleId} (h : a.WellFormed none)
    (placed : a.index.value? id = some l) (mem : d ∈ a.descendants l) :
    ∃ ms, a.above? d = some ms ∧ id ∈ ms := by
  obtain ⟨s, i, next, place, within⟩ := h.mem_descendants.mp mem
  have above := h.above_ancestors (h.lt_of_index place)
  exact ⟨_, h.above?_eq_some.mpr ⟨i, place, above⟩,
    h.above_within ((h.index id l).mp placed) next within above⟩

end EventFlow.Arena

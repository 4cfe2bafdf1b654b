import Mathlib.Algebra.Order.BigOperators.Group.List
import Mathlib.Data.Nat.Fib.Basic
import EventFlow.Proofs.Tree.Working

/-!
How deep the modules of a merged tree stand. A module that is pushed down takes all below it along
over the full distance, so the distances along two chains add up, and the depths may grow like the
Fibonacci numbers.
-/

namespace EventFlow.DependencyTree

variable {order : List ModuleId} {a b c : ModuleId} {t t' : DependencyTree} {u p n : Place}

/-- A module stands less deep than this, by its position in the order. -/
def reach (order : List ModuleId) (id : ModuleId) : Nat := Nat.fib (order.idxOf id + 2)

theorem reach_lt (nodup : order.Nodup) (before : Before order a b) :
    reach order a < reach order b :=
  Nat.fib_add_two_strictMono (before.idxOf_lt nodup)

theorem reach_add_le (nodup : order.Nodup) (ha : Before order a c) (hb : Before order b c)
    (apart : a ≠ b) : reach order a + reach order b ≤ reach order c := by
  have ordered {i j l : Nat} (hij : i < j) (hjl : j < l) :
      Nat.fib (i + 2) + Nat.fib (j + 2) ≤ Nat.fib (l + 2) := by
    rw [Nat.fib_add_two (n := l)]
    exact Nat.add_le_add (Nat.fib_mono (by omega)) (Nat.fib_mono (by omega))
  have left := ha.idxOf_lt nodup
  have right := hb.idxOf_lt nodup
  unfold reach
  rcases Nat.lt_trichotomy (order.idxOf a) (order.idxOf b) with less | same | less
  · exact ordered less right
  · exact absurd ((List.idxOf_inj ha.mem_left).mp same) apart
  · rw [Nat.add_comm]
    exact ordered less left

theorem reach_le (mem : a ∈ order) : reach order a ≤ Nat.fib (order.length + 1) :=
  Nat.fib_mono (Nat.succ_le_succ (List.idxOf_lt_length_of_mem mem))

/-- How deep modules stand if all edges lead forwards in the order. Since a pushed module takes all
below it along, it is not enough to bound its own depth: `near` bounds how far a module stands below
each one above it. -/
structure Bounded (order : List ModuleId) (t : DependencyTree) : Prop where
  after : ∀ p ∈ t.places, ∀ a ∈ p.above, Before order a p.id
  shallow : ∀ p ∈ t.places, p.depth < reach order p.id
  near : ∀ p ∈ t.places, ∀ q ∈ t.places, q.id ∈ p.above →
    p.depth + reach order q.id ≤ reach order p.id + q.depth
  fillers : t.fillers ≤ (t.places.map (·.depth)).sum

theorem bounded_nil : Bounded order nil := by
  constructor <;> simp [places, placesFrom, DependencyTree.fillers]

/-! ### Adding a module -/

theorem Bounded.add (nodup : order.Nodup) (bounded : Bounded order t) (fresh : n.id ∉ t.modules)
    (places : t'.places.Perm (n :: t.places)) (fillers : t'.fillers = t.fillers)
    (after : ∀ a ∈ n.above, Before order a n.id) (shallow : n.depth < reach order n.id)
    (near : ∀ q ∈ t.places, q.id ∈ n.above →
      n.depth + reach order q.id ≤ reach order n.id + q.depth) : Bounded order t' := by
  have cases_of {p : Place} (mem : p ∈ t'.places) : p = n ∨ p ∈ t.places :=
    List.mem_cons.mp (places.mem_iff.mp mem)
  constructor
  · intro p mem
    rcases cases_of mem with rfl | old
    · exact after
    · exact bounded.after p old
  · intro p mem
    rcases cases_of mem with rfl | old
    · exact shallow
    · exact bounded.shallow p old
  · intro p hp q hq higher
    rcases cases_of hp with rfl | old <;> rcases cases_of hq with rfl | old'
    · exact absurd (after _ higher) (not_before_self nodup _)
    · exact near q old' higher
    · exact absurd ((mem_above old higher).resolve_left List.not_mem_nil) fresh
    · exact bounded.near p old q old' higher
  · have sum := (places.map (·.depth)).sum_nat
    have grown := bounded.fillers
    rw [List.map_cons, List.sum_cons] at sum
    omega

theorem Bounded.addBelow (nodup : order.Nodup) (distinct : t.modules.Nodup)
    (bounded : Bounded order t) (fresh : a ∉ t.modules) (placed : p ∈ t.places)
    (before : Before order p.id a)
    (places : t'.places.Perm (⟨a, p.above ++ [p.id], p.depth + 1⟩ :: t.places))
    (fillers : t'.fillers = t.fillers) : Bounded order t' := by
  have less := reach_lt nodup before
  have shallow := bounded.shallow p placed
  refine bounded.add nodup fresh places fillers ?_ ?_ ?_
  · intro b mem
    rcases List.mem_append.mp mem with higher | right
    · exact before_trans nodup (bounded.after p placed b higher) before
    · obtain rfl := List.mem_singleton.mp right
      exact before
  · show p.depth + 1 < reach order a
    omega
  · intro q hq higher
    show p.depth + 1 + reach order q.id ≤ reach order a + q.depth
    rcases List.mem_append.mp higher with higher | right
    · have near := bounded.near p placed q hq higher
      omega
    · obtain rfl := place_unique distinct hq placed (List.mem_singleton.mp right)
      omega

/-! ### Pushing a module down -/

theorem sum_depth_shift {l : List Place} (mem : u ∈ l) (k : Nat) :
    (l.map (·.depth)).sum + k ≤ ((l.map (Place.shift u.id k)).map (·.depth)).sum := by
  have grows (x : Place) : x.depth ≤ (x.shift u.id k).depth := by
    rw [Place.shift_depth]
    split <;> omega
  obtain ⟨pre, post, rfl⟩ := List.append_of_mem mem
  have self : (u.shift u.id k).depth = u.depth + k := by simp [Place.shift_depth]
  have left : (pre.map (·.depth)).sum ≤ (pre.map fun x => (x.shift u.id k).depth).sum :=
    List.sum_le_sum fun x _ => grows x
  have right : (post.map (·.depth)).sum ≤ (post.map fun x => (x.shift u.id k).depth).sum :=
    List.sum_le_sum fun x _ => grows x
  simp only [List.map_map, Function.comp_def, List.map_append, List.map_cons, List.sum_append,
    List.sum_cons, self]
  omega

theorem Bounded.near_or_self (distinct : t.modules.Nodup) (bounded : Bounded order t)
    {x : Place} (hx : x ∈ t.places) (hu : u ∈ t.places) (within : x.id = u.id ∨ u.id ∈ x.above) :
    x.depth + reach order u.id ≤ reach order x.id + u.depth := by
  rcases within with same | higher
  · obtain rfl := place_unique distinct hx hu same
    omega
  · exact bounded.near x hx u hu higher

theorem Bounded.push (nodup : order.Nodup) (distinct : t.modules.Nodup) (bounded : Bounded order t)
    (hu : u ∈ t.places) (hp : p ∈ t.places) (before : Before order p.id u.id)
    (deep : u.depth ≤ p.depth)
    (places : t'.places = t.places.map (Place.shift u.id (p.depth + 1 - u.depth)))
    (fillers : t'.fillers = t.fillers + (p.depth + 1 - u.depth)) : Bounded order t' := by
  have tapShallow := bounded.shallow p hp
  have less := reach_lt nodup before
  have each {x' : Place} (mem : x' ∈ t'.places) :
      ∃ x ∈ t.places, x.shift u.id (p.depth + 1 - u.depth) = x' := List.mem_map.mp (places ▸ mem)
  constructor
  · intro x' mem
    obtain ⟨x, hx, rfl⟩ := each mem
    simpa using bounded.after x hx
  · intro x' mem
    obtain ⟨x, hx, rfl⟩ := each mem
    have shallow := bounded.shallow x hx
    rw [Place.shift_id, Place.shift_depth]
    split
    · rename_i within
      have near := bounded.near_or_self distinct hx hu within
      omega
    · exact shallow
  · intro x' hx' q' hq' higher
    obtain ⟨x, hx, rfl⟩ := each hx'
    obtain ⟨q, hq, rfl⟩ := each hq'
    rw [Place.shift_id, Place.shift_above] at higher
    rw [Place.shift_id, Place.shift_id, Place.shift_depth, Place.shift_depth]
    have near := bounded.near x hx q hq higher
    split
    · rename_i within
      split
      · omega
      · rename_i outside
        -- What stays stands above the pushed module, less deep than the tap.
        have above := above_of_within distinct hx hq hu higher within outside
        have lower := (nested distinct hu hq above).2
        have apart : q.id ≠ p.id := fun same => by
          have same := place_unique distinct hq hp same
          subst same
          omega
        have room := reach_add_le nodup (bounded.after u hu _ above) before apart
        have near := bounded.near_or_self distinct hx hu within
        omega
    · rename_i outside
      rw [not_or] at outside
      split
      · rename_i within
        rcases within with same | lower
        · exact absurd (same ▸ higher) outside.2
        · exact absurd (above_of_above distinct hx hq higher lower) outside.2
      · exact near
  · have sum := sum_depth_shift hu (p.depth + 1 - u.depth)
    have grown := bounded.fillers
    rw [places]
    omega

/-! ### Merging -/

theorem Worked.bounded {v : Visit} (worked : Worked t v t') (nodup : order.Nodup)
    (distinct : t.modules.Nodup) (bounded : Bounded order t)
    (before : ∀ a ∈ v.parent, Before order a v.id) : Bounded order t' := by
  cases worked with
  | top fresh parent places fillers =>
    exact bounded.add nodup fresh places fillers (by simp) (Nat.fib_pos.mpr (by omega)) (by simp)
  | below p fresh placed parent places fillers =>
    exact bounded.addBelow nodup distinct fresh placed (before p.id parent) places fillers
  | kept u placed own free deeper same => exact same ▸ bounded
  | pushed u p placed own free above parent shallow places fillers =>
    rw [← own] at places before
    exact bounded.push nodup distinct placed above (before p.id parent) shallow places fillers

theorem mergeAll_bounded {trees : List StreamTree} (nodup : order.Nodup)
    (grounded : ∀ s ∈ trees, Grounded (fun id a => Before order a id) [] s.tree)
    (merged : mergeAll trees = .ok t) : t.modules.Nodup ∧ Bounded order t := by
  obtain ⟨turns, perm, run⟩ := mergeAll_visits merged
  have empty : nil.modules.Nodup := List.nodup_nil
  refine mergeVisits_induction (P := Bounded order) empty bounded_nil ?_ run
  intro v mem t t' distinct bounded worked
  obtain ⟨s, hs, visited⟩ := List.mem_flatMap.mp mem
  have edges := visits_grounded (grounded s (perm.mem_iff.mp hs)) visited
  exact worked.bounded nodup distinct bounded edges.1

theorem Bounded.depth_lt (bounded : Bounded order t) (known : ∀ id ∈ t.modules, id ∈ order)
    (placed : p ∈ t.places) : p.depth < Nat.fib (order.length + 1) :=
  Nat.lt_of_lt_of_le (bounded.shallow p placed) (reach_le (known _ (mem_modules_of_place placed)))

theorem Bounded.fillers_le (bounded : Bounded order t) {m : Nat}
    (shallow : ∀ p ∈ t.places, p.depth ≤ m) : t.fillers ≤ t.modules.length * m := by
  have each : ∀ d ∈ t.places.map (·.depth), d ≤ m := by
    intro d mem
    obtain ⟨p, placed, rfl⟩ := List.mem_map.mp mem
    exact shallow p placed
  have sum := List.sum_le_card_nsmul _ _ each
  rw [List.length_map, smul_eq_mul, ← List.length_map (f := Place.id), map_id_places] at sum
  exact bounded.fillers.trans sum

end EventFlow.DependencyTree

import Mathlib
import EventFlow.Processor.NoiseFilter
import EventFlow.Proofs.Host

/-!
The pixels of the noise filter's array. Every pixel has a place of its own, and the pixels that the
filter looks up for an event are those around it that lie inside the array.
-/

namespace EventFlow.NoiseFilterSettings
open scoped Finset

variable {s : NoiseFilterSettings} {x y a b : Nat}

abbrev Inside (s : NoiseFilterSettings) (x y : Nat) : Prop := x < s.width ∧ y < s.height

def around (s : NoiseFilterSettings) (x y : Nat) : Finset (Nat × Nat) :=
  {q ∈ Finset.range s.width ×ˢ Finset.range s.height |
    q ≠ (x, y) ∧ (x ≤ q.1 + 1 ∧ q.1 ≤ x + 1) ∧ y ≤ q.2 + 1 ∧ q.2 ≤ y + 1}

/-! ### Places of pixels -/

def index (s : NoiseFilterSettings) (x y : Nat) : Nat := y * s.width + x

theorem index_lt (inside : s.Inside x y) : s.index x y < s.width * s.height := by
  rw [index, Nat.mul_comm y, Nat.mul_comm s.width s.height]
  exact Nat.mul_add_lt_mul_of_lt_of_lt inside.2 inside.1

/-- If all pixels can be counted, so can those before one of them. -/
theorem place_of_inside [Host] (inside : s.Inside x y) (counted : s.width * s.height < Word.limit) :
    s.place x y = .ok (s.index x y) := by
  have whole : y * s.width + x < Word.limit := (index_lt inside).trans counted
  have row : y * s.width < Word.limit := (Nat.le_add_right ..).trans_lt whole
  unfold place
  rw [Word.unsigned_of_lt row]
  exact Word.unsigned_of_lt whole

theorem index_inj (column : x < s.width) (column' : a < s.width) :
    s.index x y = s.index a b ↔ x = a ∧ y = b := by
  refine ⟨fun same => ?_, fun ⟨hx, hy⟩ => by rw [hx, hy]⟩
  have columns : x = a := by
    have left := congrArg (· % s.width) same
    simpa only [index, Nat.mul_add_mod_of_lt column, Nat.mul_add_mod_of_lt column'] using left
  subst columns
  have positive : 0 < s.width := Nat.zero_lt_of_lt column
  exact ⟨rfl, Nat.eq_of_mul_eq_mul_right positive (Nat.add_right_cancel same)⟩

/-! ### Counting neighbours -/

theorem mem_near {m n limit : Nat} : m ∈ near n limit ↔ m < limit ∧ n ≤ m + 1 ∧ m ≤ n + 1 := by
  simp only [near, List.mem_filter, List.mem_eraseDups, List.mem_cons, List.not_mem_nil, or_false,
    decide_eq_true_eq]
  omega

theorem nodup_near (n limit : Nat) : (near n limit).Nodup := by
  refine List.Nodup.filter _ ?_
  cases n with
  | zero => decide
  | succ n =>
    have apart : n + 1 + 1 ≠ n := by omega
    simp [List.eraseDups_cons, apart, apart.symm]

theorem mem_neighbours {q : Nat × Nat} : q ∈ s.neighbours x y ↔ q ∈ s.around x y := by
  obtain ⟨a, b⟩ := q
  simp only [neighbours, List.mem_flatMap, List.mem_filterMap, Option.ite_none_left_eq_some,
    Option.some.injEq, Prod.mk.injEq, around, Finset.mem_filter, Finset.mem_product,
    Finset.mem_range, mem_near, ne_eq]
  constructor
  · rintro ⟨b', ⟨row, above, below⟩, a', ⟨column, left, right⟩, other, rfl, rfl⟩
    exact ⟨⟨column, row⟩, other, ⟨left, right⟩, above, below⟩
  · rintro ⟨⟨column, row⟩, other, ⟨left, right⟩, above, below⟩
    exact ⟨b, ⟨row, above, below⟩, a, ⟨column, left, right⟩, other, rfl, rfl⟩

theorem nodup_neighbours (s : NoiseFilterSettings) (x y : Nat) : (s.neighbours x y).Nodup := by
  refine List.nodup_flatMap.mpr ⟨fun b _ => ?_, (nodup_near y s.height).imp fun {b b'} differs => ?_⟩
  · refine List.Nodup.filterMap (fun a a' q hq hq' => ?_) (nodup_near x s.width)
    simp only [Option.mem_def, Option.ite_none_left_eq_some, Option.some.injEq] at hq hq'
    exact (Prod.mk.inj (hq.2.trans hq'.2.symm)).1
  · intro q hq hq'
    simp only [List.mem_filterMap, Option.ite_none_left_eq_some, Option.some.injEq] at hq hq'
    obtain ⟨a, -, -, rfl⟩ := hq
    obtain ⟨a', -, -, same⟩ := hq'
    exact differs (Prod.mk.inj same).2.symm

theorem countP_neighbours (s : NoiseFilterSettings) (x y : Nat) (p : Nat × Nat → Prop)
    [DecidablePred p] : (s.neighbours x y).countP p = #{q ∈ s.around x y | p q} := by
  have pixels : (s.neighbours x y).toFinset = s.around x y := by
    ext q
    rw [List.mem_toFinset, mem_neighbours]
  rw [List.countP_eq_length_filter,
    ← List.toFinset_card_of_nodup ((nodup_neighbours s x y).filter _), List.toFinset_filter, pixels]
  congr 1
  exact Finset.filter_congr fun q _ => by simp

end EventFlow.NoiseFilterSettings

import Mathlib
import EventFlow.Proofs.Streams

/-!
Users in the order of a plan. Sorting them by their ranks puts them as the order names them, and
leaves those that it does not name at the end as they stood.
-/

namespace EventFlow

/-! ### Sorting into classes -/

section
variable {α : Type} {f : α → Nat} {l : List α} {n : Nat}

theorem filter_lt_append_filter_eq (sorted : l.Pairwise fun a b => f a ≤ f b)
    (bounded : ∀ a ∈ l, f a < n + 1) : l.filter (f · < n) ++ l.filter (f · = n) = l := by
  induction l with
  | nil => rfl
  | cons a l ih =>
    obtain ⟨first, sorted⟩ := List.pairwise_cons.mp sorted
    by_cases low : f a < n
    · rw [List.filter_cons_of_pos (by simpa using low),
        List.filter_cons_of_neg (by simpa using Nat.ne_of_lt low), List.cons_append,
        ih sorted fun b mem => bounded b (List.mem_cons_of_mem a mem)]
    · have high : ∀ b ∈ a :: l, f b = n := by
        intro b mem
        have above := bounded b mem
        rcases List.mem_cons.mp mem with rfl | later
        · omega
        · have := first b later
          omega
      have none : (a :: l).filter (f · < n) = [] :=
        List.filter_eq_nil_iff.mpr fun b mem => by simp [high b mem]
      have all : (a :: l).filter (f · = n) = a :: l :=
        List.filter_eq_self.mpr fun b mem => by simp [high b mem]
      rw [none, all, List.nil_append]

theorem flatMap_classes (sorted : l.Pairwise fun a b => f a ≤ f b) (bounded : ∀ a ∈ l, f a < n) :
    (List.range n).flatMap (fun i => l.filter (f · = i)) = l := by
  induction n generalizing l with
  | zero =>
    have empty : l = [] := List.eq_nil_iff_forall_not_mem.mpr fun a mem =>
      absurd (bounded a mem) (Nat.not_lt_zero _)
    simp [empty]
  | succ n ih =>
    have low := ih (sorted.filter (f · < n)) fun a mem => by simpa using (List.mem_filter.mp mem).2
    have same : ∀ i ∈ List.range n,
        (l.filter (f · < n)).filter (f · = i) = l.filter (f · = i) := by
      intro i mem
      rw [List.mem_range] at mem
      rw [List.filter_filter]
      refine List.filter_congr fun a _ => ?_
      rw [← Bool.decide_and, decide_eq_decide]
      omega
    rw [List.range_succ, List.flatMap_append, List.flatMap_singleton, ← List.flatMap_congr same, low]
    exact filter_lt_append_filter_eq sorted bounded

theorem filter_mergeSort (f : α → Nat) (l : List α) (n : Nat) :
    (l.mergeSort fun a b => decide (f a ≤ f b)).filter (f · = n) = l.filter (f · = n) := by
  have alike : (l.filter (f · = n)).Pairwise fun a b => decide (f a ≤ f b) = true := by
    refine List.pairwise_of_forall_mem_list fun a ha b hb => ?_
    have first : f a = n := by simpa using (List.mem_filter.mp ha).2
    have second : f b = n := by simpa using (List.mem_filter.mp hb).2
    simp [first, second]
  have sub : (l.filter (f · = n)).Sublist (l.mergeSort fun a b => decide (f a ≤ f b)) :=
    List.sublist_mergeSort
      (fun a b c first second => by simp only [decide_eq_true_eq] at *; omega)
      (fun a b => by simp only [Bool.or_eq_true, decide_eq_true_eq]; omega) alike
      List.filter_sublist
  have kept := sub.filter (f · = n)
  simp only [List.filter_filter, Bool.and_self] at kept
  exact (kept.eq_of_length (((List.mergeSort_perm l _).filter _).length_eq.symm)).symm

theorem mergeSort_classes (bounded : ∀ a ∈ l, f a < n) :
    (l.mergeSort fun a b => decide (f a ≤ f b)) =
      (List.range n).flatMap fun i => l.filter (f · = i) := by
  have perm : (l.mergeSort fun a b => decide (f a ≤ f b)).Perm l := List.mergeSort_perm l _
  rw [← flatMap_classes (mergeSort_pairwise f l) fun a mem => bounded a (perm.mem_iff.mp mem)]
  simp only [filter_mergeSort]

end

/-! ### Users in an order -/

namespace Streams

/-- The users that an order names, by the last place at which it names each, then all others as
they stood. -/
def inOrder (order users : List ModuleId) : List ModuleId :=
  order.dedup.flatMap (fun id => users.filter (· = id)) ++ users.filter (· ∉ order)

variable {order users : List ModuleId} {id : ModuleId}

theorem exists_last_place (mem : id ∈ order) :
    ∃ pre post, order = pre ++ id :: post ∧ id ∉ post := by
  obtain ⟨post, pre, split, last⟩ := List.eq_append_cons_of_mem (List.mem_reverse.mpr mem)
  refine ⟨pre.reverse, post.reverse, ?_, fun later => last (List.mem_reverse.mp later)⟩
  rw [← List.reverse_reverse order, split]
  simp

theorem rank_of_not_mem (missing : id ∉ order) : rank order id = order.length := by
  have place : order.reverse.idxOf? id = none := by simpa using missing
  rw [rank, place]

theorem rank_lt_iff : rank order id < order.length ↔ id ∈ order := by
  constructor
  · intro lt
    by_contra missing
    exact Nat.ne_of_lt lt (rank_of_not_mem missing)
  · intro mem
    obtain ⟨pre, post, rfl, last⟩ := exists_last_place mem
    rw [rank_append last]
    simp

theorem rank_le (order : List ModuleId) (id : ModuleId) : rank order id ≤ order.length := by
  by_cases mem : id ∈ order
  · exact Nat.le_of_lt (rank_lt_iff.mpr mem)
  · exact Nat.le_of_eq (rank_of_not_mem mem)

/-- The first place counts only for a module that is not named again. -/
theorem rank_cons (a : ModuleId) (order : List ModuleId) (id : ModuleId) :
    rank (a :: order) id = if id = a ∧ id ∉ order then 0 else rank order id + 1 := by
  by_cases mem : id ∈ order
  · obtain ⟨pre, post, rfl, last⟩ := exists_last_place mem
    have longer : rank ((a :: pre) ++ id :: post) id = (a :: pre).length := rank_append last
    rw [List.cons_append] at longer
    rw [longer, rank_append last, if_neg (by simp)]
    rfl
  · by_cases here : id = a
    · subst here
      rw [if_pos ⟨rfl, mem⟩]
      have first : rank ([] ++ id :: order) id = 0 := rank_append mem
      exact first
    · have missing : id ∉ a :: order := by simp [here, mem]
      rw [rank_of_not_mem missing, rank_of_not_mem mem, if_neg (by simp [here])]
      rfl

theorem classes_of_order (order users : List ModuleId) :
    (List.range order.length).flatMap (fun i => users.filter (rank order · = i)) =
      order.dedup.flatMap fun id => users.filter (· = id) := by
  induction order with
  | nil => rfl
  | cons a order ih =>
    have later : ∀ i ∈ List.range order.length,
        users.filter (rank (a :: order) · = i + 1) = users.filter (rank order · = i) := by
      intro i mem
      refine List.filter_congr fun id _ => ?_
      rw [decide_eq_decide, rank_cons]
      split
      · rename_i first
        have beyond := rank_of_not_mem first.2
        rw [List.mem_range] at mem
        omega
      · omega
    have first : users.filter (rank (a :: order) · = 0) =
        if a ∈ order then [] else users.filter (· = a) := by
      split
      · rename_i again
        refine List.filter_eq_nil_iff.mpr fun id _ => ?_
        rw [decide_eq_true_eq, rank_cons, if_neg fun here => here.2 (here.1 ▸ again)]
        exact Nat.succ_ne_zero _
      · rename_i last
        refine List.filter_congr fun id _ => ?_
        rw [decide_eq_decide, rank_cons]
        by_cases here : id = a
        · simp [here, last]
        · simp [here]
    rw [List.length_cons, List.range_succ_eq_map, List.flatMap_cons, List.flatMap_map,
      List.flatMap_congr later, ih, first, List.dedup_cons]
    split
    · rfl
    · rfl

theorem mergeSort_rank (order users : List ModuleId) :
    (users.mergeSort fun a b => decide (rank order a ≤ rank order b)) = inOrder order users := by
  have bounded : ∀ id ∈ users, rank order id < order.length + 1 := fun id _ =>
    Nat.lt_succ_of_le (rank_le order id)
  have others : users.filter (rank order · = order.length) = users.filter (· ∉ order) := by
    refine List.filter_congr fun id _ => ?_
    have := rank_le order id
    rw [decide_eq_decide, ← rank_lt_iff]
    omega
  rw [mergeSort_classes bounded, List.range_succ, List.flatMap_append, List.flatMap_singleton,
    classes_of_order, others]
  rfl

example : inOrder [⟨5⟩, ⟨2⟩, ⟨5⟩] [⟨9⟩, ⟨5⟩, ⟨8⟩, ⟨2⟩, ⟨9⟩] = [⟨2⟩, ⟨5⟩, ⟨9⟩, ⟨8⟩, ⟨9⟩] := by
  decide

theorem inOrder_perm (order users : List ModuleId) : (inOrder order users).Perm users :=
  mergeSort_rank order users ▸ List.mergeSort_perm users _

end Streams
end EventFlow

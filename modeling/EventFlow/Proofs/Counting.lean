import EventFlow.Proofs.Order

/-!
Settling by counting. Each place counts the places that it waits for and becomes ready when none is
left; of those that are ready the least is taken next. This finds the places that `settle` takes, and
leaves the same ones stuck.
-/

namespace EventFlow.Order

variable {all left : List (Nat × List Nat)} {e f : Nat × List Nat} {i j : Nat}

/-! ### Counters -/

structure Counting where
  ready : List Nat
  /-- How many of those that a place waits for have not been taken. -/
  count : Nat → Nat

namespace Counting

def release (c : Counting) (next : Nat) : Counting where
  ready := if c.count next = 1 then next :: c.ready else c.ready
  count := Function.update c.count next (c.count next - 1)

def successors (all : List (Nat × List Nat)) (i : Nat) : List Nat :=
  all.flatMap fun e => List.replicate (e.2.count i) e.1

def start (all : List (Nat × List Nat)) : Counting :=
  let waits (e : Nat × List Nat) : Nat := e.2.countP fun d => all.any (·.1 == d)
  { ready := (all.filter fun e => waits e = 0).map (·.1)
    count := fun i => ((all.find? fun e => e.1 == i).map waits).getD 0 }

def take (successors : Nat → List Nat) : (times : Nat) → Counting → List Nat × Counting
  | 0, c => ([], c)
  | n + 1, c =>
    match c.ready.min? with
    | none => ([], c)
    | some i =>
      let rest := take successors n
        ((successors i).foldl release { c with ready := c.ready.erase i })
      (i :: rest.1, rest.2)

def settle (times : Nat) (all : List (Nat × List Nat)) : List Nat × List Nat :=
  let r := take (successors all) times (start all)
  (r.1, (all.map (·.1)).filter fun i => 0 < r.2.count i)

/-! ### Releasing -/

theorem count_release (c : Counting) (i j : Nat) :
    (c.release i).count j = if j = i then c.count i - 1 else c.count j :=
  Function.update_apply ..

theorem mem_ready_release {c : Counting} :
    j ∈ (c.release i).ready ↔ j ∈ c.ready ∨ j = i ∧ c.count i = 1 := by
  rw [release]
  split
  · rename_i last
    rw [List.mem_cons, or_comm]
    simp [last]
  · rename_i more
    simp [more]

theorem count_foldl_release (c : Counting) (l : List Nat) (j : Nat) :
    (l.foldl release c).count j = c.count j - l.count j := by
  induction l generalizing c with
  | nil => rfl
  | cons i l ih =>
    rw [List.foldl_cons, ih, count_release, List.count_cons]
    by_cases same : j = i
    · subst same
      simp only [beq_self_eq_true, if_true]
      omega
    · simp [same, Ne.symm same]

theorem mem_foldl_release {c : Counting} {l : List Nat} (enough : ∀ j, l.count j ≤ c.count j) :
    j ∈ (l.foldl release c).ready ↔ j ∈ c.ready ∨ 0 < l.count j ∧ c.count j = l.count j := by
  induction l generalizing c with
  | nil => simp
  | cons i l ih =>
    have still : ∀ j, l.count j ≤ (c.release i).count j := by
      intro j
      have := enough j
      rw [List.count_cons] at this
      rw [count_release]
      by_cases same : j = i
      · subst same
        simp only [beq_self_eq_true, if_true] at this ⊢
        omega
      · rw [if_neg same]
        omega
    have own := enough j
    rw [List.foldl_cons, ih still, mem_ready_release, count_release]
    rw [List.count_cons] at own ⊢
    by_cases same : j = i
    · subst same
      simp only [beq_self_eq_true, if_true, true_and] at own ⊢
      rw [or_assoc]
      refine or_congr_right ?_
      omega
    · simp [same, Ne.symm same]

theorem nodup_foldl_release {c : Counting} (once : c.ready.Nodup)
    (quiet : ∀ j ∈ c.ready, c.count j = 0) (l : List Nat) : (l.foldl release c).ready.Nodup := by
  induction l generalizing c with
  | nil => exact once
  | cons i l ih =>
    refine ih ?_ fun j mem => ?_
    · rw [release]
      split
      · rename_i last
        exact List.nodup_cons.mpr ⟨fun mem => by simp [quiet i mem] at last, once⟩
      · exact once
    · rw [count_release]
      rcases mem_ready_release.mp mem with old | ⟨rfl, last⟩
      · have := quiet j old
        split
        · subst j
          omega
        · exact this
      · rw [if_pos rfl, last]

/-! ### What is counted -/

theorem count_successors (once : (all.map (·.1)).Nodup) (mem : f ∈ all) (i : Nat) :
    (successors all i).count f.1 = f.2.count i := by
  induction all with
  | nil => cases mem
  | cons e all ih =>
    rw [List.map_cons, List.nodup_cons] at once
    rw [successors, List.flatMap_cons, List.count_append, List.count_replicate]
    rcases List.mem_cons.mp mem with rfl | later
    · have others : (all.flatMap fun e => List.replicate (e.2.count i) e.1).count f.1 = 0 := by
        refine List.count_eq_zero.mpr fun again => once.1 ?_
        obtain ⟨e, he, here⟩ := List.mem_flatMap.mp again
        exact List.eq_of_mem_replicate here ▸ List.mem_map_of_mem he
      simp [others]
    · have apart : e.1 ≠ f.1 := fun same => once.1 (same ▸ List.mem_map_of_mem later)
      rw [if_neg (by simpa using apart), Nat.zero_add]
      exact ih once.2 later

theorem mem_of_mem_successors (mem : j ∈ successors all i) : ∃ f ∈ all, f.1 = j := by
  obtain ⟨f, hf, here⟩ := List.mem_flatMap.mp mem
  exact ⟨f, hf, (List.eq_of_mem_replicate here).symm⟩

def waiting (left : List (Nat × List Nat)) (f : Nat × List Nat) : Nat :=
  f.2.countP fun d => left.any (·.1 == d)

theorem waiting_erase (once : (left.map (·.1)).Nodup) (mem : e ∈ left) (f : Nat × List Nat) :
    waiting left f = waiting (left.erase e) f + f.2.count e.1 := by
  have keys : (left.map (·.1)).Perm (e.1 :: (left.erase e).map (·.1)) :=
    (List.perm_cons_erase mem).map _
  have fresh := (List.nodup_cons.mp (keys.nodup_iff.mp once)).1
  have there (l : List (Nat × List Nat)) (d : Nat) :
      (l.any (·.1 == d)) = decide (d ∈ l.map (·.1)) := by
    rw [Bool.eq_iff_iff]
    simp
  unfold waiting
  simp only [there, keys.mem_iff, List.mem_cons]
  induction f.2 with
  | nil => rfl
  | cons d ds ih =>
    simp only [List.countP_cons, List.count_cons, ih]
    by_cases same : d = e.1
    · subst same
      simp [fresh]
      omega
    · have other : (d == e.1) = false := beq_eq_false_iff_ne.mpr same
      simp only [same, false_or, other, Bool.false_eq_true, if_false]
      omega

theorem waiting_eq_zero :
    waiting left f = 0 ↔ (f.2.all fun d => !left.any (·.1 == d)) = true := by
  simp only [waiting, List.countP_eq_zero, List.all_eq_true, Bool.not_eq_true, Bool.not_eq_true']

/-- The counters when only some places are left. -/
structure Counts (all left : List (Nat × List Nat)) (c : Counting) : Prop where
  part : left.Sublist all
  count : ∀ f ∈ all, c.count f.1 = waiting left f
  taken : ∀ f ∈ all, f ∉ left → c.count f.1 = 0
  ready : ∀ i, i ∈ c.ready ↔ ∃ f ∈ left, f.1 = i ∧ c.count i = 0
  once : c.ready.Nodup

theorem Counts.nodup {c : Counting} (h : Counts all left c) (once : (all.map (·.1)).Nodup) :
    (left.map (·.1)).Nodup :=
  once.sublist (h.part.map _)

theorem Counts.enough {c : Counting} (h : Counts all left c) (once : (all.map (·.1)).Nodup)
    (mem : e ∈ left) (j : Nat) : (successors all e.1).count j ≤ c.count j := by
  by_cases some : j ∈ successors all e.1
  · obtain ⟨f, hf, rfl⟩ := mem_of_mem_successors some
    rw [count_successors once hf, h.count f hf, waiting_erase (h.nodup once) mem]
    exact Nat.le_add_left _ _
  · rw [List.count_eq_zero.mpr some]
    exact Nat.zero_le _

theorem Counts.mem_ready_next {c : Counting} (h : Counts all left c) (once : (all.map (·.1)).Nodup)
    (mem : e ∈ left) (free : c.count e.1 = 0) :
    j ∈ ((successors all e.1).foldl release { c with ready := c.ready.erase e.1 }).ready ↔
      ∃ f ∈ left.erase e, f.1 = j ∧ c.count j = (successors all e.1).count j := by
  have apart (f : Nat × List Nat) : f ∈ left.erase e ↔ f ≠ e ∧ f ∈ left :=
    (List.Nodup.of_map _ (h.nodup once)).mem_erase_iff
  rw [mem_foldl_release (c := { c with ready := c.ready.erase e.1 }) (h.enough once mem),
    h.once.mem_erase_iff, h.ready]
  dsimp only
  constructor
  · rintro (⟨other, f, hf, rfl, zero⟩ | ⟨some, last⟩)
    · have := h.enough once mem f.1
      exact ⟨f, (apart f).mpr ⟨fun same => other (same ▸ rfl), hf⟩, rfl, by omega⟩
    · obtain ⟨f, hf, rfl⟩ := mem_of_mem_successors (List.count_pos_iff.mp some)
      have there : f ∈ left := by
        by_contra gone
        have := h.taken f hf gone
        omega
      have other : f ≠ e := by
        rintro rfl
        omega
      exact ⟨f, (apart f).mpr ⟨other, there⟩, rfl, last⟩
  · rintro ⟨f, hf, rfl, last⟩
    obtain ⟨other, there⟩ := (apart f).mp hf
    by_cases before : c.count f.1 = 0
    · have names : f.1 ≠ e.1 := fun same =>
        other (List.inj_on_of_nodup_map (h.nodup once) there mem same)
      exact Or.inl ⟨names, f, there, rfl, before⟩
    · exact Or.inr ⟨by omega, last⟩

theorem Counts.next {c : Counting} (h : Counts all left c) (once : (all.map (·.1)).Nodup)
    (mem : e ∈ left) (free : c.count e.1 = 0) :
    Counts all (left.erase e)
      ((successors all e.1).foldl release { c with ready := c.ready.erase e.1 }) := by
  have counts (j : Nat) : ((successors all e.1).foldl release
      { c with ready := c.ready.erase e.1 }).count j = c.count j - (successors all e.1).count j :=
    count_foldl_release _ _ j
  constructor
  case part => exact List.erase_sublist.trans h.part
  case count =>
    intro f hf
    rw [counts, h.count f hf, count_successors once hf, waiting_erase (h.nodup once) mem]
    omega
  case taken =>
    intro f hf gone
    rw [counts]
    by_cases same : f = e
    · rw [same]
      omega
    · have := h.taken f hf fun there => gone ((List.mem_erase_of_ne same).mpr there)
      omega
  case ready =>
    intro j
    have := h.enough once mem j
    rw [h.mem_ready_next once mem free, counts]
    refine exists_congr fun f => and_congr_right fun _ => and_congr_right fun _ => ?_
    omega
  case once =>
    refine nodup_foldl_release (h.once.erase _) (fun j hj => ?_) _
    obtain ⟨f, -, rfl, zero⟩ := (h.ready j).mp (List.mem_of_mem_erase hj)
    exact zero

theorem counts_start (once : (all.map (·.1)).Nodup) : Counts all all (start all) := by
  have count : ∀ f ∈ all, (start all).count f.1 = waiting all f := by
    intro f hf
    have found : (all.find? fun e => e.1 == f.1) = some f := by
      obtain ⟨g, found⟩ : ∃ g, (all.find? fun e => e.1 == f.1) = some g :=
        Option.isSome_iff_exists.mp (List.find?_isSome.mpr ⟨f, hf, by simp⟩)
      have same : g.1 = f.1 := by simpa using List.find?_some found
      rw [found, List.inj_on_of_nodup_map once (List.mem_of_find?_eq_some found) hf same]
    simp [start, found, waiting]
  constructor
  case part => exact .refl all
  case count => exact count
  case taken => exact fun f hf gone => absurd hf gone
  case ready =>
    intro i
    simp only [start, List.mem_map, List.mem_filter, decide_eq_true_eq]
    constructor
    · rintro ⟨f, ⟨hf, zero⟩, rfl⟩
      exact ⟨f, hf, rfl, (count f hf).trans zero⟩
    · rintro ⟨f, hf, rfl, zero⟩
      exact ⟨f, ⟨hf, (count f hf).symm.trans zero⟩, rfl⟩
  case once => exact once.sublist ((List.filter_sublist).map _)

/-! ### Taking -/

theorem Counts.min?_ready {c : Counting} (h : Counts all left c)
    (ascending : (left.map (·.1)).Pairwise (· < ·))
    (found : left.find? (fun e => e.2.all fun d => !left.any (·.1 == d)) = some e) :
    c.ready.min? = some e.1 := by
  have mem := List.mem_of_find?_eq_some found
  obtain ⟨free, pre, post, rfl, earlier⟩ := List.find?_eq_some_iff_append.mp found
  have zero : c.count e.1 = 0 :=
    (h.count e (h.part.subset mem)).trans (waiting_eq_zero.mpr free)
  refine List.min?_eq_some_iff.mpr ⟨(h.ready _).mpr ⟨e, mem, rfl, zero⟩, fun j hj => ?_⟩
  obtain ⟨f, hf, rfl, zero'⟩ := (h.ready j).mp hj
  have free' := waiting_eq_zero.mp ((h.count f (h.part.subset hf)).symm.trans zero')
  have late : f ∉ pre := fun early => by
    have busy := earlier f early
    rw [free'] at busy
    cases busy
  rcases List.mem_cons.mp ((List.mem_append.mp hf).resolve_left late) with rfl | later
  · exact Nat.le_refl _
  · rw [List.map_append, List.map_cons] at ascending
    have tail := (List.pairwise_append.mp ascending).2.1
    exact ((List.pairwise_cons.mp tail).1 _ (List.mem_map_of_mem later)).le

theorem Counts.stuck {c : Counting} (h : Counts all left c)
    (ascending : (all.map (·.1)).Pairwise (· < ·)) (busy : ∀ f ∈ left, 0 < c.count f.1) :
    ((all.map (·.1)).filter fun i => 0 < c.count i) = left.map (·.1) := by
  have once : (all.map (·.1)).Nodup := ascending.imp Nat.ne_of_lt
  have members : ∀ i, i ∈ (all.map (·.1)).filter (fun i => decide (0 < c.count i)) ↔
      i ∈ left.map (·.1) := by
    intro i
    simp only [List.mem_filter, List.mem_map, decide_eq_true_eq]
    constructor
    · rintro ⟨⟨f, hf, rfl⟩, some⟩
      exact ⟨f, by_contra fun gone => some.ne' (h.taken f hf gone), rfl⟩
    · rintro ⟨f, hf, rfl⟩
      exact ⟨⟨f, h.part.subset hf, rfl⟩, busy f hf⟩
  have perm := (List.perm_ext_iff_of_nodup (once.filter _) (h.nodup once)).mpr members
  exact perm.eq_of_pairwise (fun _ _ _ _ h h' => absurd h h'.asymm)
    (ascending.filter _) (ascending.sublist (h.part.map _))

theorem take_eq {c : Counting} {n : Nat} (ascending : (all.map (·.1)).Pairwise (· < ·))
    (h : Counts all left c) (enough : left.length ≤ n) :
    (take (successors all) n c).1 = (Order.settle left).1 ∧
      ((all.map (·.1)).filter fun i => 0 < (take (successors all) n c).2.count i) =
        (Order.settle left).2 := by
  have once : (all.map (·.1)).Nodup := ascending.imp Nat.ne_of_lt
  fun_induction Order.settle left generalizing c n with
  | case1 left none =>
    have busy : ∀ f ∈ left, 0 < c.count f.1 := by
      intro f hf
      rw [h.count f (h.part.subset hf), Nat.pos_iff_ne_zero, Ne, waiting_eq_zero]
      exact List.find?_eq_none.mp none f hf
    have empty : c.ready.min? = .none := by
      refine List.min?_eq_none_iff.mpr (List.eq_nil_iff_forall_not_mem.mpr fun j hj => ?_)
      obtain ⟨f, hf, rfl, zero⟩ := (h.ready j).mp hj
      exact (busy f hf).ne' zero
    have stays : take (successors all) n c = ([], c) := by
      cases n with
      | zero => rfl
      | succ n => simp only [take, empty]
    rw [stays]
    exact ⟨rfl, h.stuck ascending busy⟩
  | case2 left e found placed stuck eq ih =>
    have mem := List.mem_of_find?_eq_some found
    have least := h.min?_ready (ascending.sublist (h.part.map _)) found
    have free : c.count e.1 = 0 := by
      obtain ⟨f, -, same, zero⟩ := (h.ready e.1).mp (List.min?_eq_some_iff.mp least).1
      exact zero
    have short := List.length_erase_of_mem mem
    have some := List.length_pos_of_mem mem
    cases n with
    | zero => omega
    | succ n =>
      have enough' : (left.erase e).length ≤ n := by omega
      obtain ⟨taken, last⟩ := ih (h.next once mem free) enough'
      rw [eq] at taken last
      simp only [take, least]
      exact ⟨congrArg (e.1 :: ·) taken, last⟩

end Counting

/-- Places in ascending order are settled by their counters. No place is taken twice, so that taking
one more often than there are places changes nothing. -/
theorem counting_settles {times : Nat} (ascending : (all.map (·.1)).Pairwise (· < ·))
    (enough : all.length ≤ times) : Counting.settle times all = settle all := by
  have once : (all.map (·.1)).Nodup := ascending.imp Nat.ne_of_lt
  obtain ⟨taken, stuck⟩ := Counting.take_eq ascending (Counting.counts_start once) enough
  exact Prod.ext taken stuck

theorem counting_settles_places (order : List ModuleId) (after : ModuleId → List ModuleId) :
    let places := (List.range order.length).map fun i => (i, before order after i)
    Counting.settle order.length places = settle places := by
  intro places
  refine counting_settles ?_ (by simp [places])
  simpa [places, Function.comp_def] using List.pairwise_lt_range

end EventFlow.Order

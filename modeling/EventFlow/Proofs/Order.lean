import EventFlow.Order
import EventFlow.Proofs.Dependence
import EventFlow.Proofs.Tree.Placing

/-!
The execution order: `flatten` lists the modules of a tree, and `normalize` puts each after those it
reads from, or some wait for each other in a circle.
-/

namespace EventFlow.Order
open Relation

theorem flatten_perm (t : DependencyTree) (copies : ModuleId → Nat) :
    (flatten t copies).Perm t.modules :=
  (List.Perm.flatMap_left _ fun _ _ => List.mergeSort_perm _ _).trans t.flatten_levels_perm

/-! ### Places -/

theorem place?_eq_some {order : List ModuleId} (nodup : order.Nodup) {id : ModuleId} {i : Nat} :
    place? order id = some i ↔ order[i]? = some id := by
  have found (j : Nat) : order.reverse.idxOf? id = some j ↔ order.reverse[j]? = some id := by
    rw [List.idxOf?_eq_some_iff, List.getElem?_eq_some_iff]
    refine ⟨fun ⟨h, same, _⟩ => ⟨h, same⟩, fun ⟨h, same⟩ => ⟨h, same, fun k below earlier => ?_⟩⟩
    have same' := earlier.trans same.symm
    rw [(List.nodup_reverse.mpr nodup).getElem_inj_iff] at same'
    omega
  simp only [place?, Option.map_eq_some_iff, found]
  constructor
  · rintro ⟨j, there, rfl⟩
    have short : j < order.length := by
      simpa using (List.getElem?_eq_some_iff.mp there).1
    rwa [List.getElem?_reverse short] at there
  · intro there
    have short : i < order.length := (List.getElem?_eq_some_iff.mp there).1
    refine ⟨order.length - 1 - i, ?_, by omega⟩
    rw [List.getElem?_reverse (by omega)]
    rwa [show order.length - 1 - (order.length - 1 - i) = i by omega]

theorem mem_before {order : List ModuleId} (nodup : order.Nodup)
    {after : ModuleId → List ModuleId} {i j : Nat} :
    j ∈ before order after i ↔
      ∃ m d, order[i]? = some m ∧ order[j]? = some d ∧ d ∈ after m := by
  unfold before
  cases there : order[i]? with
  | none => simp
  | some m =>
    dsimp only
    rw [if_pos ((place?_eq_some nodup).mpr there)]
    simp only [List.mem_filterMap, place?_eq_some nodup, Option.some.injEq]
    constructor
    · rintro ⟨d, hd, hj⟩
      exact ⟨m, d, rfl, hj, hd⟩
    · rintro ⟨_, d, rfl, hj, hd⟩
      exact ⟨d, hd, hj⟩

/-! ### Settling -/

/-- No place is lost or comes before those it waits for, and each that is stuck waits for another
that is stuck. -/
structure Settled (left : List (Nat × List Nat)) (placed stuck : List Nat) : Prop where
  perm : (placed ++ stuck).Perm (left.map (·.1))
  after : ∀ e ∈ left, e.1 ∈ placed → ∀ d ∈ e.2, d ∈ left.map (·.1) → Before placed d e.1
  waits : ∀ i ∈ stuck, ∃ e ∈ left, e.1 = i ∧ ∃ d ∈ e.2, d ∈ stuck

theorem settled_none {left : List (Nat × List Nat)}
    (h : left.find? (fun e => e.2.all fun d => !left.any (·.1 == d)) = none) :
    Settled left [] (left.map (·.1)) where
  perm := List.Perm.refl _
  after := by simp
  waits i mem := by
    obtain ⟨e, he, rfl⟩ := List.mem_map.mp mem
    have waits := List.find?_eq_none.mp h e he
    simp only [List.all_eq_true, Bool.not_eq_true', not_forall, Bool.not_eq_false] at waits
    obtain ⟨d, hd, other⟩ := waits
    obtain ⟨o, ho, same⟩ := List.any_eq_true.mp other
    exact ⟨e, he, rfl, d, hd, List.mem_map.mpr ⟨o, ho, by simpa using same⟩⟩

theorem settled_cons {left : List (Nat × List Nat)} {e : Nat × List Nat} {placed stuck : List Nat}
    (nodup : (left.map (·.1)).Nodup) (mem : e ∈ left) (free : ∀ d ∈ e.2, d ∉ left.map (·.1))
    (h : Settled (left.erase e) placed stuck) : Settled left (e.1 :: placed) stuck := by
  have split := List.perm_cons_erase mem
  have keys : (left.map (·.1)).Perm (e.1 :: (left.erase e).map (·.1)) := split.map _
  refine ⟨?_, fun f hf placedF d hd there => ?_, fun i stuckI => ?_⟩
  · exact (h.perm.cons e.1).trans keys.symm
  · rcases List.mem_cons.mp (split.mem_iff.mp hf) with rfl | later
    · exact absurd there (free d hd)
    · have apart : f.1 ≠ e.1 := fun same =>
        (List.nodup_cons.mp (keys.nodup_iff.mp nodup)).1 (same ▸ List.mem_map_of_mem later)
      have placedF : f.1 ∈ placed := (List.mem_cons.mp placedF).resolve_left apart
      rcases List.mem_cons.mp (keys.mem_iff.mp there) with rfl | waiting
      · exact before_head placedF
      · exact before_cons (h.after f later placedF d hd waiting)
  · obtain ⟨f, hf, rest⟩ := h.waits i stuckI
    exact ⟨f, List.mem_of_mem_erase hf, rest⟩

theorem settle_settled (left : List (Nat × List Nat)) (nodup : (left.map (·.1)).Nodup) :
    Settled left (settle left).1 (settle left).2 := by
  fun_induction settle left with
  | case1 left h => exact settled_none h
  | case2 left e found placed stuck eq ih =>
    have mem := List.mem_of_find?_eq_some found
    have free : ∀ d ∈ e.2, d ∉ left.map (·.1) := by
      intro d hd there
      obtain ⟨o, ho, rfl⟩ := List.mem_map.mp there
      have free := List.find?_some
        (p := fun e : Nat × List Nat => e.2.all fun d => !left.any (·.1 == d)) found
      have there : left.any (·.1 == o.1) = true := List.any_eq_true.mpr ⟨o, ho, by simp⟩
      simpa [there] using List.all_eq_true.mp free o.1 hd
    have rest := ih (nodup.sublist ((List.erase_sublist).map _))
    rw [eq] at rest
    exact settled_cons nodup mem free rest

/-! ### Normalisation -/

theorem before_map {α β : Type} {l : List α} {a b : α} (f : α → β) (h : Before l a b) :
    Before (l.map f) (f a) (f b) := by
  obtain ⟨pre, mid, post, rfl⟩ := h
  exact ⟨pre.map f, mid.map f, post.map f, by simp⟩

def Waits (order : List ModuleId) (after : ModuleId → List ModuleId) (m d : ModuleId) : Prop :=
  m ∈ order ∧ d ∈ order ∧ d ∈ after m

structure Obeys (order : List ModuleId) (after : ModuleId → List ModuleId)
    (result : List ModuleId) : Prop where
  perm : result.Perm order
  before : ∀ m d, Waits order after m d → Before result d m

/-- Every module comes after those that it waits for, or some wait for each other in a circle. -/
theorem normalize_cases {order : List ModuleId} (nodup : order.Nodup)
    (after : ModuleId → List ModuleId) :
    (∃ result, normalize order after = .ok result ∧ Obeys order after result) ∨
    ((∃ e, normalize order after = .error e) ∧ ∃ a, TransGen (Waits order after) a a) := by
  have named {i : Nat} {m : ModuleId} (h : order[i]? = some m) : order.getD i default = m := by
    rw [List.getD_eq_getElem?_getD, h, Option.getD_some]
  have names : (List.range order.length).map (order.getD · default) = order :=
    List.ext_getElem (by simp) fun i _ short => by simp [short]
  obtain ⟨places, hp⟩ : ∃ places, places =
    (List.range order.length).map fun i => (i, before order after i) := ⟨_, rfl⟩
  have keys : places.map (·.1) = List.range order.length := by simp [hp, Function.comp_def]
  have waits {i j : Nat} {deps : List Nat} (h : (i, deps) ∈ places) : j ∈ deps ↔
      ∃ m d, order[i]? = some m ∧ order[j]? = some d ∧ d ∈ after m := by
    rw [hp] at h
    obtain ⟨k, -, same⟩ := List.mem_map.mp h
    obtain ⟨rfl, rfl⟩ := Prod.mk.inj same
    exact mem_before nodup
  rw [normalize, ← hp]
  dsimp only
  split
  · rename_i i deps found
    right
    have self : i ∈ deps := by simpa using List.find?_some found
    obtain ⟨m, d, hm, hd, own⟩ := (waits (List.mem_of_find?_eq_some found)).mp self
    rw [hm] at hd
    cases hd
    have mem := List.mem_of_getElem? hm
    exact ⟨⟨_, rfl⟩, m, .single ⟨mem, mem, own⟩⟩
  · have settled := settle_settled places (keys ▸ List.nodup_range)
    generalize settle places = result at settled
    obtain ⟨placed, stuck⟩ := result
    cases stuck with
    | nil =>
      left
      have perm : placed.Perm (List.range order.length) := by
        simpa [keys] using settled.perm
      refine ⟨_, rfl, (perm.map _).trans (List.Perm.of_eq names), fun m d ⟨hm, there, hd⟩ => ?_⟩
      obtain ⟨i, short, rfl⟩ := List.getElem_of_mem hm
      obtain ⟨j, short', rfl⟩ := List.getElem_of_mem there
      have entry : (i, before order after i) ∈ places := by
        rw [hp]
        exact List.mem_map_of_mem (List.mem_range.mpr short)
      have edge : j ∈ before order after i :=
        (waits entry).mpr
          ⟨_, _, List.getElem?_eq_getElem short, List.getElem?_eq_getElem short', hd⟩
      have first : Before placed j i := settled.after _ entry
        (perm.mem_iff.mpr (List.mem_range.mpr short)) j edge (by simpa [keys] using short')
      have moved := before_map (order.getD · default) first
      rwa [named (List.getElem?_eq_getElem short),
        named (List.getElem?_eq_getElem short')] at moved
    | cons i stuck =>
      right
      refine ⟨⟨_, rfl⟩, ?_⟩
      refine exists_cycle (l := (i :: stuck).map (order.getD · default)) (by simp) ?_
      intro m mem
      obtain ⟨k, hk, rfl⟩ := List.mem_map.mp mem
      obtain ⟨⟨k', deps⟩, he, rfl, j, hj, stuckJ⟩ := settled.waits k hk
      obtain ⟨m, d, hm, hd, edge⟩ := (waits he).mp hj
      refine ⟨d, List.mem_map.mpr ⟨j, stuckJ, named hd⟩, ?_⟩
      rw [named hm]
      exact ⟨List.mem_of_getElem? hm, List.mem_of_getElem? hd, edge⟩

end EventFlow.Order

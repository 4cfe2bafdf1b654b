import Mathlib
import EventFlow.Proofs.Registry.Halving
import EventFlow.Proofs.Registry.Ranked

/-!
The registry as a finite map. Whatever it is asked for, in whatever order, it answers as a map from
keys to users does, and its streams stand in the order of their keys.
-/

namespace EventFlow

open Streams (Request Answer)

/-- Of every registered key, whether a processor produces its stream, and the users of the stream. -/
abbrev StreamMap := Std.ExtTreeMap StreamKey (Bool × List ModuleId) StreamKey.compare

instance : IsTrans ModuleId (· ≤ ·) := ⟨fun _ _ _ first second => Nat.le_trans first second⟩
instance : Std.Antisymm (α := ModuleId) (· ≤ ·) :=
  ⟨fun _ _ first second => ModuleId.ext_val (Nat.le_antisymm first second)⟩
instance : Std.Total (α := ModuleId) (· ≤ ·) := ⟨fun a b => Nat.le_total a.val b.val⟩

namespace StreamMap

def usersFrom (m : StreamMap) (producer : ModuleId) : Finset ModuleId :=
  ((m.toList.filter (·.1.producer = producer)).flatMap (·.2.2)).toFinset

theorem mem_usersFrom {m : StreamMap} {p id : ModuleId} :
    id ∈ m.usersFrom p ↔
      ∃ (k : StreamKey) (e : Bool × List ModuleId), m[k]? = some e ∧ k.producer = p ∧ id ∈ e.2 := by
  simp only [usersFrom, List.mem_toFinset, List.mem_flatMap, List.mem_filter, decide_eq_true_eq]
  constructor
  · rintro ⟨⟨k, e⟩, ⟨mem, producer⟩, user⟩
    exact ⟨k, e, Std.ExtTreeMap.mem_toList_iff_getElem?_eq_some.mp mem, producer, user⟩
  · rintro ⟨k, e, entry, producer, user⟩
    exact ⟨(k, e), ⟨Std.ExtTreeMap.mem_toList_iff_getElem?_eq_some.mpr entry, producer⟩, user⟩

def stream? (m : StreamMap) (k : StreamKey) : Option Stream := m[k]?.map fun e => ⟨k, e.1, e.2⟩

def serve (m : StreamMap) : Request → StreamMap × Answer
  | .register k fromProcessor => (m.insertIfNew k (fromProcessor, []), .flag (!m.contains k))
  | .find k => (m, .stream (m.stream? k))
  | .has k => (m, .flag (m.contains k))
  | .addUser k user => (m.modify k fun e => (e.1, e.2 ++ [user]), .flag (m.contains k))
  | .prune => (m.filter fun _ e => !e.2.isEmpty, .keys (m.filter fun _ e => e.2.isEmpty).keys)
  | .hasFrom producer => (m, .flag (m.keys.any (·.producer = producer)))
  | .reorder order => (m.map fun _ e => (e.1, Streams.inOrder order e.2), .done)
  | .consumers producer => (m, .modules (m.usersFrom producer).sort)

end StreamMap

namespace Streams

structure Represents (r : Streams) (m : StreamMap) : Prop where
  ascending : r.Ascending
  find? : ∀ k, r.find? k = m.stream? k

variable {r : Streams} {m : StreamMap} {k : StreamKey} {p : ModuleId}

theorem find?_eq_some_iff (asc : r.Ascending) {s : Stream} :
    r.find? k = some s ↔ s ∈ r.list ∧ s.key = k := by
  constructor
  · exact fun found => ⟨mem_of_find? found, find?_key found⟩
  · rintro ⟨mem, rfl⟩
    exact find?_of_mem asc mem

theorem find?_prune (asc : r.Ascending) :
    r.prune.find? k = (r.find? k).filter (!·.users.isEmpty) := by
  refine Option.ext fun s => ?_
  rw [find?_eq_some_iff (prune_ascending asc), mem_prune, Option.filter_eq_some_iff,
    find?_eq_some_iff asc]
  simp [and_right_comm]

theorem dedupSorted_ascending {ids : List ModuleId} (sorted : ids.Pairwise (· ≤ ·)) :
    (dedupSorted ids).Pairwise (· < ·) := by
  fun_induction dedupSorted ids with
  | case1 a l ih => exact ih (List.pairwise_cons.mp sorted).2
  | case2 a b l differs ih =>
    obtain ⟨first, rest⟩ := List.pairwise_cons.mp sorted
    have before : a < b := Nat.lt_of_le_of_ne (first b List.mem_cons_self) fun same =>
      differs (ModuleId.ext_val same)
    refine List.pairwise_cons.mpr ⟨fun id mem => ?_, ih rest⟩
    rcases List.mem_cons.mp (mem_dedupSorted.mp mem) with rfl | later
    · exact before
    · exact Nat.lt_of_lt_of_le before ((List.pairwise_cons.mp rest).1 id later)
  | case3 ids short =>
    rcases ids with _ | ⟨a, _ | ⟨b, l⟩⟩
    · exact List.Pairwise.nil
    · exact List.pairwise_singleton _ a
    · exact absurd rfl (short a b l)

theorem consumers_ascending : (r.consumers p).Pairwise (· < ·) :=
  dedupSorted_ascending (mergeSort_pairwise (fun id : ModuleId => id) _)

theorem unused_ascending (asc : r.Ascending) : r.unused.Pairwise (· < ·) :=
  List.Pairwise.sublist (List.filter_sublist.map _) asc

theorem users_reorder_perm (r : Streams) (order : List ModuleId) (k : StreamKey) :
    ((r.reorder order).users k).Perm (r.users k) := by
  rw [users_reorder, mergeSort_rank]
  exact inOrder_perm order (r.users k)

theorem represents_empty : Represents {} ∅ where
  ascending := List.Pairwise.nil
  find? k := by
    rw [StreamMap.stream?, Std.ExtTreeMap.getElem?_empty]
    rfl

namespace Represents

section
variable (h : Represents r m)
include h

theorem has (k : StreamKey) : r.has k = m.contains k := by
  rw [Streams.has, h.find?, StreamMap.stream?, Option.isSome_map,
    Std.ExtTreeMap.isSome_getElem?_eq_contains]

theorem mem_list {s : Stream} : s ∈ r.list ↔ m[s.key]? = some (s.fromProcessor, s.users) := by
  have found : s ∈ r.list ↔ m.stream? s.key = some s := by
    rw [← h.find?, find?_eq_some_iff h.ascending, and_iff_left rfl]
  rw [found, StreamMap.stream?, Option.map_eq_some_iff]
  constructor
  · rintro ⟨e, entry, made⟩
    rw [entry, ← made]
  · exact fun entry => ⟨_, entry, rfl⟩

theorem exists_iff {P : StreamKey → Bool × List ModuleId → Prop} :
    (∃ s ∈ r.list, P s.key (s.fromProcessor, s.users)) ↔ ∃ k e, m[k]? = some e ∧ P k e := by
  constructor
  · rintro ⟨s, mem, holds⟩
    exact ⟨s.key, _, h.mem_list.mp mem, holds⟩
  · rintro ⟨k, e, entry, holds⟩
    exact ⟨⟨k, e.1, e.2⟩, h.mem_list.mpr entry, holds⟩

/-! ### Changes -/

theorem register (k : StreamKey) (fromProcessor : Bool) :
    Represents (r.register k fromProcessor) (m.insertIfNew k (fromProcessor, [])) where
  ascending := register_ascending h.ascending
  find? l := by
    rw [find?_register, h.find?, h.find?]
    simp only [StreamMap.stream?, Std.ExtTreeMap.getElem?_insertIfNew, StreamKey.compare_eq_eq]
    by_cases same : k = l
    · subst same
      by_cases known : k ∈ m <;> simp [known]
    · simp [same]

theorem addUser (k : StreamKey) (user : ModuleId) :
    Represents (r.addUser k user) (m.modify k fun e => (e.1, e.2 ++ [user])) where
  ascending := map_ascending rfl (fun s => by split <;> rfl) h.ascending
  find? l := by
    have keep : ∀ s : Stream,
        (if s.key = k then { s with users := s.users ++ [user] } else s).key = s.key := by
      intro s
      split <;> rfl
    have changed : (r.addUser k user).find? l = (r.find? l).map _ := find?_map rfl keep l
    rw [changed, h.find?]
    simp only [StreamMap.stream?, Std.ExtTreeMap.getElem?_modify, StreamKey.compare_eq_eq]
    by_cases same : k = l
    · subst same
      simp [Function.comp_def]
    · simp [same, Ne.symm same, Function.comp_def]

theorem prune : Represents r.prune (m.filter fun _ e => !e.2.isEmpty) where
  ascending := prune_ascending h.ascending
  find? l := by
    rw [find?_prune h.ascending, h.find?, StreamMap.stream?, StreamMap.stream?,
      Std.ExtTreeMap.getElem?_filter']
    cases m[l]? with
    | none => rfl
    | some e => cases empty : e.2.isEmpty <;> simp [Option.filter, empty]

theorem reorder (order : List ModuleId) :
    Represents (r.reorder order) (m.map fun _ e => (e.1, inOrder order e.2)) where
  ascending := map_ascending (list_reorder r order) (fun _ => rfl) h.ascending
  find? l := by
    rw [find?_reorder, h.find?, StreamMap.stream?, StreamMap.stream?, Std.ExtTreeMap.getElem?_map]
    simp only [Option.map_map, Function.comp_def, mergeSort_rank]

/-! ### Answers -/

theorem unused : r.unused = (m.filter fun _ e => e.2.isEmpty).keys := by
  have asymm : ∀ k l : StreamKey, k < l → ¬ l < k := fun _ _ => StreamKey.lt_asymm
  have sorted : (m.filter fun _ e => e.2.isEmpty).keys.Pairwise (· < ·) :=
    Std.ExtTreeMap.ordered_keys.imp StreamKey.compare_eq_lt.mp
  refine eq_of_pairwise_of_mem asymm (unused_ascending h.ascending) sorted fun k => ?_
  have entries := h.exists_iff (P := fun l e => e.2 = [] ∧ l = k)
  rw [Std.ExtTreeMap.mem_keys, Std.ExtTreeMap.mem_iff_isSome_getElem?,
    Std.ExtTreeMap.getElem?_filter', Option.isSome_iff_exists]
  simp only [Streams.unused, List.mem_map, List.mem_filter, List.isEmpty_iff, and_assoc,
    Option.filter_eq_some_iff]
  simp only [entries]
  constructor
  · rintro ⟨l, e, entry, empty, rfl⟩
    exact ⟨e, entry, empty⟩
  · rintro ⟨e, entry, empty⟩
    exact ⟨k, e, entry, empty, rfl⟩

theorem hasFrom (p : ModuleId) : r.hasFrom p = m.keys.any (·.producer = p) := by
  rw [Bool.eq_iff_iff, hasFrom_iff, List.any_eq_true]
  refine (h.exists_iff (P := fun k _ => k.producer = p)).trans ?_
  simp only [decide_eq_true_eq, Std.ExtTreeMap.mem_keys,
    Std.ExtTreeMap.mem_iff_isSome_getElem?, Option.isSome_iff_exists]
  exact exists_congr fun k => exists_and_right

theorem consumers (p : ModuleId) : r.consumers p = (m.usersFrom p).sort := by
  have asymm : ∀ a b : ModuleId, a < b → ¬ b < a := fun _ _ => Nat.lt_asymm
  have strict : (m.usersFrom p).sort.Pairwise (· < ·) := by
    refine ((Finset.pairwise_sort _ _).and (Finset.sort_nodup _ _)).imp fun both => ?_
    exact Nat.lt_of_le_of_ne both.1 fun same => both.2 (ModuleId.ext_val same)
  refine eq_of_pairwise_of_mem asymm consumers_ascending strict fun id => ?_
  rw [mem_consumers, Finset.mem_sort, StreamMap.mem_usersFrom]
  exact h.exists_iff (P := fun k e => k.producer = p ∧ id ∈ e.2)

theorem serve (q : Request) :
    (r.serve q).2 = (m.serve q).2 ∧ Represents (r.serve q).1 (m.serve q).1 := by
  cases q with
  | register k fromProcessor =>
    rw [serve_register h.ascending, h.has]
    exact ⟨rfl, h.register k fromProcessor⟩
  | find k =>
    refine ⟨congrArg Answer.stream ?_, h⟩
    rw [lookUp_eq h.ascending, h.find?]
  | has k =>
    refine ⟨congrArg Answer.flag ?_, h⟩
    rw [lookUp_eq h.ascending]
    exact h.has k
  | addUser k user =>
    rw [serve_addUser h.ascending, h.has]
    exact ⟨rfl, h.addUser k user⟩
  | prune => exact ⟨congrArg Answer.keys h.unused, h.prune⟩
  | hasFrom p => exact ⟨congrArg Answer.flag (h.hasFrom p), h⟩
  | reorder order => exact ⟨rfl, h.reorder order⟩
  | consumers p => exact ⟨congrArg Answer.modules (h.consumers p), h⟩

end

theorem inTurn (h : Represents r m) (requests : List Request) :
    (inTurn Streams.serve r requests).2 = (inTurn StreamMap.serve m requests).2 ∧
    Represents (inTurn Streams.serve r requests).1 (inTurn StreamMap.serve m requests).1 := by
  induction requests generalizing r m with
  | nil => exact ⟨rfl, h⟩
  | cons q requests ih =>
    obtain ⟨answer, served⟩ := h.serve q
    obtain ⟨answers, rest⟩ := ih served
    exact ⟨congrArg₂ List.cons answer answers, rest⟩

end Represents

/-- A registry that was empty first answers all requests as a map does. After them its keys ascend,
each finds the entry of the map, and those of unused streams ascend. An order of the modules leaves
every stream its users. -/
theorem answers_as_map (requests : List Request) :
    ∃ (r : Streams) (m : StreamMap) (answers : List Answer),
    Streams.inTurn Streams.serve {} requests = (r, answers) ∧
    Streams.inTurn StreamMap.serve ∅ requests = (m, answers) ∧
    r.Ascending ∧ (∀ k, r.lookUp k = m.stream? k) ∧ r.unused.Pairwise (· < ·) ∧
    ∀ order k, ((r.reorder order).users k).Perm (r.users k) := by
  obtain ⟨answers, h⟩ := represents_empty.inTurn requests
  refine ⟨_, _, _, rfl, Prod.ext rfl answers.symm, h.ascending, fun k => ?_,
    unused_ascending h.ascending, users_reorder_perm _⟩
  rw [lookUp_eq h.ascending, h.find?]

example : (Streams.inTurn Streams.serve {} [.register ⟨⟨1⟩, ⟨3⟩⟩ true, .prune,
    .register ⟨⟨1⟩, ⟨3⟩⟩ false, .register ⟨⟨1⟩, ⟨3⟩⟩ true, .find ⟨⟨1⟩, ⟨3⟩⟩]).2 =
    [.flag true, .keys [⟨⟨1⟩, ⟨3⟩⟩], .flag true, .flag false,
      .stream (some ⟨⟨⟨1⟩, ⟨3⟩⟩, false, []⟩)] := by cbv

end Streams
end EventFlow

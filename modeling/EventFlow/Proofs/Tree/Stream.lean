import EventFlow.Proofs.Dependence
import EventFlow.Proofs.Tree.Placing

/-!
The tree of one stream: it holds the producer and the users, or the taps of some users lead in a
circle.
-/

namespace EventFlow.DependencyTree
open Relation

variable {dep : ModuleId → ModuleId → Prop} {key : StreamKey}

def userIds (users : List (ModuleId × Tap)) : List ModuleId := users.map (·.1)

theorem sorted_perm (ids : List ModuleId) : (ModuleId.sorted ids).Perm ids :=
  List.mergeSort_perm _ _

theorem placeReaders_ok [IsTrans ModuleId dep] {m : ModuleId}
    {ids : List ModuleId} {t : DependencyTree} (nodup : (ids ++ t.modules).Nodup)
    (placed : m ∈ t.modules) (own : ∀ id ∈ ids, dep id m) (grounded : Grounded dep [] t) :
    ∃ t', placeReaders key m ids t = .ok t' ∧ t'.modules.Perm (ids ++ t.modules) ∧
      Grounded dep [] t' := by
  induction ids generalizing t with
  | nil => exact ⟨t, rfl, List.Perm.refl _, grounded⟩
  | cons id ids ih =>
    rw [List.cons_append] at nodup
    obtain ⟨fresh, rest⟩ := List.nodup_cons.mp nodup
    rw [List.mem_append, not_or] at fresh
    have added : ((t.addBelow m id).modules).Perm (id :: t.modules) :=
      modules_addBelow (List.nodup_append.mp rest).2.1 placed
    have moved : (ids ++ (t.addBelow m id).modules).Perm (id :: (ids ++ t.modules)) :=
      (added.append_left ids).trans List.perm_middle
    have absent : t.contains id ≠ true := fun there => fresh.2 (contains_iff.mp there)
    rw [List.forall_mem_cons] at own
    obtain ⟨t', eq, perm, grounded'⟩ := ih (moved.nodup_iff.mpr nodup)
      (added.mem_iff.mpr (List.mem_cons_of_mem _ placed)) own.2
      (grounded_addBelow own.1 grounded)
    exact ⟨t', by rw [placeReaders, if_neg absent, eq], perm.trans moved, grounded'⟩

/-- The state of `grow`: the modules placed and waiting are distinct, and a user is only waiting for
a module that waits too or is in the queue. -/
structure Growing (dep : ModuleId → ModuleId → Prop) (key : StreamKey) (t : DependencyTree)
    (waiting : List (ModuleId × Tap)) (queue : List ModuleId) : Prop where
  nodup : (t.modules ++ userIds waiting).Nodup
  queued : queue ⊆ t.modules
  pending : ∀ u ∈ waiting, u.2.module key.producer ∈ t.modules → u.2.module key.producer ∈ queue
  own : ∀ u ∈ waiting, dep u.1 (u.2.module key.producer)
  grounded : Grounded dep [] t
  rooted : ∀ id ∈ t.modules, id = key.producer ∨ dep id key.producer

theorem readers_others_perm (key : StreamKey) (m : ModuleId) (users : List (ModuleId × Tap)) :
    (userIds (readersAt key m users) ++ userIds (othersAt key m users)).Perm (userIds users) := by
  rw [userIds, userIds, ← List.map_append]
  exact (List.filter_append_perm _ users).map _

theorem growing_step [IsTrans ModuleId dep] {t : DependencyTree}
    {waiting : List (ModuleId × Tap)} {m : ModuleId} {queue : List ModuleId}
    (h : Growing dep key t waiting (m :: queue)) :
    ∃ t', placeReaders key m (ModuleId.sorted (userIds (readersAt key m waiting))) t = .ok t' ∧
      Growing dep key t' (othersAt key m waiting)
        (queue ++ ModuleId.sorted (userIds (readersAt key m waiting))) ∧
      (t'.modules ++ userIds (othersAt key m waiting)).Perm (t.modules ++ userIds waiting) := by
  have sorted := sorted_perm (userIds (readersAt key m waiting))
  have split := readers_others_perm key m waiting
  have nodup : (ModuleId.sorted (userIds (readersAt key m waiting)) ++ t.modules).Nodup := by
    have all := ((split.append_left t.modules).nodup_iff.mpr h.nodup)
    rw [← List.append_assoc] at all
    have first := (List.nodup_append.mp all).1
    exact ((List.perm_append_comm.trans (sorted.symm.append_right _))).nodup_iff.mp first
  have own : ∀ id ∈ ModuleId.sorted (userIds (readersAt key m waiting)), dep id m := by
    intro id mem
    obtain ⟨u, hu, rfl⟩ := List.mem_map.mp (sorted.mem_iff.mp mem)
    obtain ⟨hu, tapped⟩ := List.mem_filter.mp hu
    exact of_decide_eq_true tapped ▸ h.own u hu
  obtain ⟨t', eq, perm, grounded⟩ :=
    placeReaders_ok nodup (h.queued List.mem_cons_self) own h.grounded
  have total : (t'.modules ++ userIds (othersAt key m waiting)).Perm
      (t.modules ++ userIds waiting) := by
    have placed := (perm.trans (sorted.append_right _)).append_right
      (userIds (othersAt key m waiting))
    refine placed.trans ?_
    rw [List.append_assoc]
    refine (List.perm_append_comm_assoc _ _ _).trans ?_
    exact split.append_left _
  refine ⟨t', eq, ⟨total.nodup_iff.mpr h.nodup, ?_, ?_, fun u hu =>
    h.own u (List.mem_filter.mp hu).1, grounded, ?_⟩, total⟩
  · intro id mem
    rw [perm.mem_iff]
    rcases List.mem_append.mp mem with old | new
    · exact List.mem_append_right _ (h.queued (List.mem_cons_of_mem _ old))
    · exact List.mem_append_left _ new
  · intro u hu placed
    obtain ⟨waits, differs⟩ := List.mem_filter.mp hu
    have notHere : u.2.module key.producer ≠ m := by simpa using differs
    rcases List.mem_append.mp (perm.mem_iff.mp placed) with new | old
    · exact List.mem_append_right _ new
    · rcases List.mem_cons.mp (h.pending u waits old) with here | queued
      · exact absurd here notHere
      · exact List.mem_append_left _ queued
  · intro id mem
    rcases List.mem_append.mp (perm.mem_iff.mp mem) with new | old
    · right
      rcases h.rooted m (h.queued List.mem_cons_self) with rfl | below
      · exact own id new
      · exact IsTrans.trans _ _ _ (own id new) below
    · exact h.rooted id old

theorem grow_ok [IsTrans ModuleId dep] {t : DependencyTree}
    {waiting : List (ModuleId × Tap)} {queue : List ModuleId}
    (h : Growing dep key t waiting queue) :
    ∃ t' left, grow key t waiting queue = .ok (t', left) ∧ Growing dep key t' left [] ∧
      left ⊆ waiting ∧ (t'.modules ++ userIds left).Perm (t.modules ++ userIds waiting) := by
  fun_induction grow key t waiting queue with
  | case1 t waiting => exact ⟨t, waiting, rfl, h, List.Subset.refl _, List.Perm.refl _⟩
  | case2 t waiting m queue e failed =>
    obtain ⟨t', eq, -⟩ := growing_step h
    cases failed.symm.trans eq
  | case3 t waiting m queue t' eq ih =>
    obtain ⟨t'', eq', grown, total⟩ := growing_step h
    obtain rfl := Except.ok.inj (eq.symm.trans eq')
    obtain ⟨last, left, result, final, sub, perm⟩ := ih grown
    exact ⟨last, left, result, final, fun u hu => List.mem_of_mem_filter (sub hu),
      perm.trans total⟩

/-- Either all users stand in the tree and depend on the producer, or some taps lead in a circle. -/
theorem ofStream_cases [IsTrans ModuleId dep]
    {users : List (ModuleId × Tap)} (nodup : (key.producer :: userIds users).Nodup)
    (known : ∀ u ∈ users, u.2.module key.producer ∈ key.producer :: userIds users)
    (own : ∀ u ∈ users, dep u.1 (u.2.module key.producer)) :
    (∃ t, ofStream key users = .ok t ∧ t.modules.Perm (key.producer :: userIds users) ∧
      Grounded dep [] t ∧ ∀ u ∈ users, dep u.1 key.producer) ∨
    ((∃ e, ofStream key users = .error e) ∧ ∃ a, dep a a) := by
  have start : Growing dep key (link (some key.producer) nil nil) users [key.producer] :=
    ⟨by simpa [modules] using nodup, by simp [modules], by simp [modules], own,
      by simp [Grounded], by simp [modules]⟩
  obtain ⟨t, left, eq, final, sub, perm⟩ := grow_ok start
  cases left with
  | nil =>
    have placed : t.modules.Perm (key.producer :: userIds users) := by
      simpa [userIds, modules] using perm
    refine Or.inl ⟨t, by simp only [ofStream, eq], placed, final.grounded, fun u hu => ?_⟩
    have mem : u.1 ∈ userIds users := List.mem_map_of_mem hu
    rcases final.rooted u.1 (placed.mem_iff.mpr (List.mem_cons_of_mem _ mem)) with same | below
    · exact absurd (same ▸ mem) (List.nodup_cons.mp nodup).1
    · exact below
  | cons u left =>
    refine Or.inr ⟨⟨_, by simp only [ofStream, eq]; rfl⟩, ?_⟩
    have next : ∀ a ∈ userIds (u :: left), ∃ b ∈ userIds (u :: left), dep a b := by
      intro a mem
      obtain ⟨v, hv, rfl⟩ := List.mem_map.mp mem
      refine ⟨v.2.module key.producer, ?_, final.own v hv⟩
      have all := known v (sub hv)
      have somewhere : v.2.module key.producer ∈ t.modules ++ userIds (u :: left) :=
        perm.mem_iff.mpr (by simpa [modules] using all)
      rcases List.mem_append.mp somewhere with placed | waits
      · cases final.pending v hv placed
      · exact waits
    obtain ⟨a, loop⟩ := exists_cycle (by simp [userIds]) next
    rw [transGen_eq_self] at loop
    exact ⟨a, loop⟩

end EventFlow.DependencyTree

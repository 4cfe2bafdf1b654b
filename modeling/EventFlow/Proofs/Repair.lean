import EventFlow.Proofs.Order
import Mathlib.Data.List.Lex

/-!
The least movement: of all arrangements in which every module comes after those that it waits for,
`normalize` gives the one that is first when two are compared by the places that their modules had
in the order before.
-/

namespace EventFlow.Order
open Relation

/-- Where the two part for the first time, `l` goes on with a module that was earlier in the
order. -/
def Leads (order l l' : List ModuleId) : Prop :=
  List.Lex (fun a b => order.idxOf a < order.idxOf b) l l'

/-! ### Comparing lists -/

theorem not_lex_of_sorted {α : Type} {r : α → α → Prop} (asymm : ∀ a b, r a b → ¬ r b a)
    {l l' : List α} (sorted : l.Pairwise r) (perm : l'.Perm l) : ¬ List.Lex r l' l := by
  intro less
  induction less with
  | nil => simp at perm
  | cons _ ih => exact ih (List.pairwise_cons.mp sorted).2 perm.cons_inv
  | rel first =>
    rename_i b _ a _
    rcases List.mem_cons.mp (perm.mem_iff.mp List.mem_cons_self) with rfl | later
    · exact asymm _ _ first first
    · exact asymm _ _ first ((List.pairwise_cons.mp sorted).1 b later)

theorem lex_asymm {α : Type} {r : α → α → Prop} (asymm : ∀ a b, r a b → ¬ r b a) {l l' : List α}
    (h : List.Lex r l l') : ¬ List.Lex r l' l := by
  induction h with
  | nil => exact fun back => by cases back
  | cons _ ih =>
    intro back
    cases back with
    | cons back => exact ih back
    | rel self => exact asymm _ _ self self
  | rel first =>
    intro back
    cases back with
    | cons _ => exact asymm _ _ first first
    | rel back => exact asymm _ _ first back

theorem lex_map {α β : Type} {r : α → α → Prop} {s : β → β → Prop} {f : α → β} {l l' : List α}
    (keep : ∀ a ∈ l, ∀ b ∈ l', r a b → s (f a) (f b)) (h : List.Lex r l l') :
    List.Lex s (l.map f) (l'.map f) := by
  induction h with
  | nil => exact .nil
  | cons _ ih =>
    refine .cons (ih fun a ha b hb => ?_)
    exact keep a (List.mem_cons_of_mem _ ha) b (List.mem_cons_of_mem _ hb)
  | rel first => exact .rel (keep _ List.mem_cons_self _ List.mem_cons_self first)

/-! ### Settling -/

/-- A listing of the places that are left, each after those that it waits for. -/
structure Feasible (left : List (Nat × List Nat)) (l : List Nat) : Prop where
  perm : l.Perm (left.map (·.1))
  after : ∀ e ∈ left, ∀ d ∈ e.2, d ∈ left.map (·.1) → Before l d e.1

theorem Feasible.head_free {left : List (Nat × List Nat)} {e : Nat × List Nat} {l : List Nat}
    (nodup : (left.map (·.1)).Nodup) (h : Feasible left (e.1 :: l)) (mem : e ∈ left) :
    ∀ d ∈ e.2, d ∉ left.map (·.1) := by
  intro d hd there
  have fresh := (List.nodup_cons.mp (h.perm.nodup_iff.mpr nodup)).1
  rcases before_cons_iff.mp (h.after e mem d hd there) with ⟨-, later⟩ | later
  · exact fresh later
  · exact fresh later.mem_right

theorem Feasible.tail {left : List (Nat × List Nat)} {e : Nat × List Nat} {l : List Nat}
    (nodup : (left.map (·.1)).Nodup) (h : Feasible left (e.1 :: l)) (mem : e ∈ left) :
    Feasible (left.erase e) l := by
  have keys : (left.map (·.1)).Perm (e.1 :: (left.erase e).map (·.1)) :=
    (List.perm_cons_erase mem).map _
  have fresh := (List.nodup_cons.mp (keys.nodup_iff.mp nodup)).1
  refine ⟨(h.perm.trans keys).cons_inv, fun f hf d hd there => ?_⟩
  have before := h.after f (List.mem_of_mem_erase hf) d hd
    (keys.mem_iff.mpr (List.mem_cons_of_mem _ there))
  rcases before_cons_iff.mp before with ⟨rfl, -⟩ | later
  · exact absurd there fresh
  · exact later

/-- No listing of places in ascending order comes before the one that `settle` finds: it takes the
first place that can stand first, and what any listing has first can stand there. -/
theorem settle_least {left : List (Nat × List Nat)} {l : List Nat}
    (ascending : (left.map (·.1)).Pairwise (· < ·)) (h : Feasible left l) :
    l = (settle left).1 ∨ List.Lex (· < ·) (settle left).1 l := by
  fun_induction settle left generalizing l with
  | case1 left none =>
    cases l with
    | nil => exact Or.inl rfl
    | cons o l => exact Or.inr .nil
  | case2 left e found placed stuck eq ih =>
    have nodup : (left.map (·.1)).Nodup := ascending.imp Nat.ne_of_lt
    have mem := List.mem_of_find?_eq_some found
    cases l with
    | nil => simpa using h.perm.mem_iff.mpr (List.mem_map_of_mem mem)
    | cons o l =>
      obtain ⟨f, hf, rfl⟩ := List.mem_map.mp (h.perm.mem_iff.mp List.mem_cons_self)
      have free : (f.2.all fun d => !left.any (·.1 == d)) = true := by
        have free := h.head_free nodup hf
        simp only [List.all_eq_true, Bool.not_eq_true', List.any_eq_false, beq_iff_eq]
        exact fun d hd o ho same => free d hd (same ▸ List.mem_map_of_mem ho)
      obtain ⟨-, pre, post, rfl, earlier⟩ := List.find?_eq_some_iff_append.mp found
      have late : f ∉ pre := fun early => by
        have busy := earlier f early
        rw [free] at busy
        cases busy
      rcases List.mem_cons.mp ((List.mem_append.mp hf).resolve_left late) with rfl | later
      · have rest := ih (ascending.sublist (List.erase_sublist.map _)) (h.tail nodup hf)
        rw [eq] at rest
        rcases rest with rfl | less
        · exact Or.inl rfl
        · exact Or.inr (.cons less)
      · rw [List.map_append, List.map_cons] at ascending
        have below := (List.pairwise_cons.mp (List.pairwise_append.mp ascending).2.1).1
        exact Or.inr (.rel (below f.1 (List.mem_map_of_mem later)))

/-! ### Normalisation -/

def waiting (order : List ModuleId) (after : ModuleId → List ModuleId) : List (Nat × List Nat) :=
  (List.range order.length).map fun i => (i, before order after i)

variable {order result other : List ModuleId} {after : ModuleId → List ModuleId}

theorem keys_waiting : (waiting order after).map (·.1) = List.range order.length := by
  simp [waiting, Function.comp_def]

theorem normalize_ok (h : normalize order after = .ok result) :
    result = (settle (waiting order after)).1.map (order.getD · default) := by
  rw [normalize] at h
  dsimp only at h
  split at h
  · cases h
  · split at h
    · rename_i placed same
      cases h
      rw [waiting, same]
    · cases h

theorem Obeys.feasible (nodup : order.Nodup) (h : Obeys order after other) :
    Feasible (waiting order after) (other.map order.idxOf) := by
  refine ⟨?_, fun e he d hd _ => ?_⟩
  · have places : order.map order.idxOf = List.range order.length :=
      List.ext_getElem (by simp) fun i _ _ => by simp [nodup.idxOf_getElem]
    rw [keys_waiting, ← places]
    exact h.perm.map _
  · obtain ⟨i, -, rfl⟩ := List.mem_map.mp he
    obtain ⟨m, dep, hm, hdep, edge⟩ := (mem_before nodup).mp hd
    obtain ⟨short, rfl⟩ := List.getElem?_eq_some_iff.mp hm
    obtain ⟨short', rfl⟩ := List.getElem?_eq_some_iff.mp hdep
    have first := h.before _ _ ⟨List.getElem_mem short, List.getElem_mem short', edge⟩
    have moved := before_map order.idxOf first
    rwa [nodup.idxOf_getElem, nodup.idxOf_getElem] at moved

theorem normalize_leads (nodup : order.Nodup) (h : normalize order after = .ok result)
    (obeys : Obeys order after other) : other = result ∨ Leads order result other := by
  have feasible := obeys.feasible nodup
  have ascending : ((waiting order after).map (·.1)).Pairwise (· < ·) := by
    rw [keys_waiting]
    exact List.pairwise_lt_range
  have least := settle_least ascending feasible
  have settled := settle_settled (waiting order after) (ascending.imp Nat.ne_of_lt)
  have names : (other.map order.idxOf).map (order.getD · default) = other := by
    rw [List.map_map]
    refine (List.map_congr_left fun m mem => ?_).trans (List.map_id other)
    have there := List.idxOf_lt_length_of_mem (obeys.perm.mem_iff.mp mem)
    simp [there]
  rw [normalize_ok h, ← names]
  rcases least with same | less
  · exact Or.inl (by rw [same])
  · refine Or.inr (lex_map (fun i hi j hj lt => ?_) less)
    have bound {k : Nat} (mem : k ∈ (waiting order after).map (·.1)) : k < order.length := by
      rw [keys_waiting] at mem
      exact List.mem_range.mp mem
    have short := bound (settled.perm.mem_iff.mp (List.mem_append_left _ hi))
    have short' := bound (feasible.perm.mem_iff.mp hj)
    simpa [short, short', nodup.idxOf_getElem] using lt

theorem Obeys.nodup (nodup : order.Nodup) (h : Obeys order after result) : result.Nodup :=
  h.perm.nodup_iff.mpr nodup

theorem Obeys.acyclic (nodup : order.Nodup) (h : Obeys order after result) :
    ¬ ∃ m, TransGen (Waits order after) m m :=
  acyclic_of_before (h.nodup nodup) h.before

/-- An order without repetition is repaired unless modules wait for each other in a circle. What
comes out is the one arrangement of its modules that obeys and leads all others that do, which is
the order itself if that obeys. -/
theorem normalize_least_moved {order : List ModuleId} (nodup : order.Nodup)
    (after : ModuleId → List ModuleId) :
    ((∃ e, normalize order after = .error e) ↔ ∃ m, TransGen (Waits order after) m m) ∧
    (∀ result, normalize order after = .ok result ↔ Obeys order after result ∧
      ∀ other, Obeys order after other → other ≠ result → Leads order result other) ∧
    (Obeys order after order → normalize order after = .ok order) := by
  have asymm : ∀ a b : ModuleId, order.idxOf a < order.idxOf b → ¬ order.idxOf b < order.idxOf a :=
    fun _ _ => Nat.lt_asymm
  rcases normalize_cases nodup after with ⟨result, ok, obeys⟩ | ⟨⟨e, failed⟩, circle⟩
  · have leads : ∀ other, Obeys order after other → other ≠ result → Leads order result other :=
      fun other obeys' differs => (normalize_leads nodup ok obeys').resolve_left differs
    have least : ∀ other, (Obeys order after other ∧
        ∀ l, Obeys order after l → l ≠ other → Leads order other l) → other = result := by
      intro other ⟨obeys', leads'⟩
      by_contra differs
      exact lex_asymm asymm (leads other obeys' differs) (leads' result obeys (Ne.symm differs))
    refine ⟨⟨?_, fun circle => absurd circle (obeys.acyclic nodup)⟩, fun other => ?_,
      fun fits => ?_⟩
    · rintro ⟨e, failed⟩
      cases ok.symm.trans failed
    · rw [ok, Except.ok.injEq]
      refine ⟨?_, fun h => (least other h).symm⟩
      rintro rfl
      exact ⟨obeys, leads⟩
    · have sorted : order.Pairwise fun a b => order.idxOf a < order.idxOf b := by
        refine List.pairwise_iff_getElem.mpr fun i j short short' less => ?_
        rwa [nodup.idxOf_getElem, nodup.idxOf_getElem]
      by_contra moved
      have differs : order ≠ result := fun same => moved (same ▸ ok)
      exact not_lex_of_sorted asymm sorted obeys.perm (leads order fits differs)
  · have none : ∀ l, ¬ Obeys order after l := fun l obeys => obeys.acyclic nodup circle
    refine ⟨⟨fun _ => circle, fun _ => ⟨e, failed⟩⟩, fun other => ?_,
      fun fits => absurd fits (none _)⟩
    rw [failed]
    exact ⟨fun h => (by cases h), fun h => absurd h.1 (none other)⟩

/-- A reader that stands too early. It names its producer twice, and a module that is not there. -/
theorem early_reader_moved :
    let order : List ModuleId := [⟨1⟩, ⟨4⟩, ⟨2⟩, ⟨3⟩]
    let after (m : ModuleId) : List ModuleId :=
      if m = ⟨4⟩ then [⟨2⟩, ⟨9⟩, ⟨2⟩] else if m = ⟨2⟩ then [⟨1⟩] else []
    let result : List ModuleId := [⟨1⟩, ⟨2⟩, ⟨4⟩, ⟨3⟩]
    order.Nodup ∧ normalize order after = .ok result ∧ Obeys order after result ∧
      ∀ other, Obeys order after other → other ≠ result → Leads order result other := by
  intro order after result
  have nodup : order.Nodup := by decide
  have repaired : normalize order after = .ok result := by decide +kernel
  obtain ⟨-, characterised, -⟩ := normalize_least_moved nodup after
  exact ⟨nodup, repaired, (characterised result).mp repaired⟩

end EventFlow.Order

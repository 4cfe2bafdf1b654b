import EventFlow.Id
import EventFlow.Table
import Mathlib.Order.Defs.Unbundled
import Mathlib.Data.List.Nodup

/-!
Tables as finite maps: `put` changes the value of one key, and a table whose keys ascend holds
exactly the entries that `value?` finds.
-/

namespace EventFlow

theorem ModuleId.ext_val {a b : ModuleId} (h : a.val = b.val) : a = b := by
  cases a; cases b; simpa using h

instance : IsTrans ModuleId (· < ·) := ⟨fun _ _ _ h k => Nat.lt_trans h k⟩
instance : Std.Irrefl (α := ModuleId) (· < ·) := ⟨fun a => Nat.lt_irrefl a.val⟩
instance : Std.Trichotomous (α := ModuleId) (· < ·) :=
  ⟨fun _ _ h k => ModuleId.ext_val (Nat.le_antisymm (Nat.not_lt.mp k) (Nat.not_lt.mp h))⟩

theorem eq_of_pairwise_of_mem {α : Type} {r : α → α → Prop} (asymm : ∀ a b, r a b → ¬ r b a)
    {l l' : List α} (h : l.Pairwise r) (h' : l'.Pairwise r) (same : ∀ a, a ∈ l ↔ a ∈ l') :
    l = l' := by
  have distinct : ∀ {l : List α}, l.Pairwise r → l.Nodup := by
    intro l sorted
    refine sorted.imp ?_
    rintro a b before rfl
    exact asymm a a before before
  have perm : l.Perm l' := (List.perm_ext_iff_of_nodup (distinct h) (distinct h')).mpr same
  exact perm.eq_of_pairwise (fun a b _ _ before after => absurd after (asymm a b before)) h h'

namespace Table

variable {κ α : Type}

def Ascending [LT κ] (t : Table κ α) : Prop := t.keys.Pairwise (· < ·)

theorem ascending_nil [LT κ] : Ascending ([] : Table κ α) := List.Pairwise.nil

theorem eq_of_mem [LT κ] [Std.Irrefl (α := κ) (· < ·)] [IsTrans κ (· < ·)] {t t' : Table κ α}
    (asc : t.Ascending) (asc' : t'.Ascending) (same : ∀ e, e ∈ t ↔ e ∈ t') : t = t' := by
  have asymm : ∀ a b : κ × α, a.1 < b.1 → ¬ b.1 < a.1 := fun a b before after =>
    Std.Irrefl.irrefl (r := (· < ·)) _ (IsTrans.trans _ _ _ before after)
  exact eq_of_pairwise_of_mem asymm (List.pairwise_map.mp asc) (List.pairwise_map.mp asc') same

/-! ### Looking up -/

section
variable [DecidableEq κ]

@[simp] theorem value?_nil (k : κ) : value? ([] : Table κ α) k = none := rfl

theorem value?_cons (l k : κ) (a : α) (t : Table κ α) :
    value? ((l, a) :: t) k = if l = k then some a else value? t k := by
  by_cases h : l = k <;> simp [value?, h]

theorem mem_of_value? {t : Table κ α} {k : κ} {a : α} (h : t.value? k = some a) : (k, a) ∈ t := by
  obtain ⟨⟨l, b⟩, found, rfl⟩ := Option.map_eq_some_iff.mp h
  have key : l = k := by simpa using List.find?_some found
  subst key
  exact List.mem_of_find?_eq_some found

theorem mem_keys_iff {t : Table κ α} {k : κ} : k ∈ t.keys ↔ ∃ a, t.value? k = some a := by
  induction t with
  | nil => simp [keys]
  | cons e t ih =>
    obtain ⟨l, b⟩ := e
    simp only [keys, List.map_cons, List.mem_cons] at ih ⊢
    rw [ih, value?_cons]
    by_cases h : l = k
    · simp [h]
    · simp [h, Ne.symm h]

theorem has_iff {k : κ} {t : Table κ α} : t.has k = true ↔ k ∈ t.keys := by
  rw [mem_keys_iff, has, Option.isSome_iff_exists]

theorem value?_of_mem [LT κ] [Std.Irrefl (α := κ) (· < ·)] {t : Table κ α} {k : κ} {a : α}
    (asc : t.Ascending) (h : (k, a) ∈ t) : t.value? k = some a := by
  induction t with
  | nil => cases h
  | cons e t ih =>
    obtain ⟨l, b⟩ := e
    obtain ⟨below, rest⟩ := List.pairwise_cons.mp asc
    rw [value?_cons]
    rcases List.mem_cons.mp h with same | h
    · cases same
      simp
    · have later : l < k := below k (List.mem_map_of_mem (f := Prod.fst) h)
      have differs : l ≠ k := by
        rintro rfl
        exact Std.Irrefl.irrefl (r := (· < ·)) _ later
      rw [if_neg differs, ih rest h]

theorem ext_of_value? [LT κ] [Std.Irrefl (α := κ) (· < ·)] [IsTrans κ (· < ·)] {t t' : Table κ α}
    (asc : t.Ascending) (asc' : t'.Ascending) (same : ∀ k, t.value? k = t'.value? k) : t = t' := by
  refine eq_of_mem asc asc' ?_
  rintro ⟨k, a⟩
  constructor
  · intro mem
    exact mem_of_value? (same k ▸ value?_of_mem asc mem)
  · intro mem
    exact mem_of_value? (same k ▸ value?_of_mem asc' mem)

end

/-! ### Setting values -/

variable [LT κ] [DecidableLT κ] [Std.Trichotomous (α := κ) (· < ·)]

theorem mem_keys_put {k l : κ} {a : α} {t : Table κ α} :
    l ∈ (put k a t).keys ↔ l = k ∨ l ∈ t.keys := by
  induction t with
  | nil => simp [put, keys]
  | cons e t ih =>
    obtain ⟨m, b⟩ := e
    unfold put
    split
    · simp [keys]
    · rename_i notBelow
      split
      · simp only [keys, List.map_cons, List.mem_cons] at ih ⊢
        rw [ih]
        exact or_left_comm
      · rename_i notAbove
        have same : k = m := Std.Trichotomous.trichotomous (r := (· < ·)) _ _ notBelow notAbove
        subst same
        simp [keys]

theorem put_ascending [IsTrans κ (· < ·)] {k : κ} {a : α} {t : Table κ α} (h : t.Ascending) :
    (put k a t).Ascending := by
  induction t with
  | nil => simp [put, Ascending, keys]
  | cons e t ih =>
    obtain ⟨m, b⟩ := e
    obtain ⟨below, rest⟩ := List.pairwise_cons.mp h
    unfold put
    split
    · rename_i before
      refine List.pairwise_cons.mpr ⟨fun l hl => ?_, h⟩
      rcases List.mem_cons.mp hl with rfl | hl
      · exact before
      · exact IsTrans.trans _ _ _ before (below l hl)
    · rename_i notBelow
      split
      · rename_i above
        refine List.pairwise_cons.mpr ⟨fun l hl => ?_, ih rest⟩
        rcases mem_keys_put.mp hl with rfl | hl
        · exact above
        · exact below l hl
      · rename_i notAbove
        have same : k = m := Std.Trichotomous.trichotomous (r := (· < ·)) _ _ notBelow notAbove
        subst same
        exact h

theorem put_perm {k : κ} {a : α} {t : Table κ α}
    (fresh : k ∉ t.keys) : (put k a t).Perm ((k, a) :: t) := by
  induction t with
  | nil => exact List.Perm.refl _
  | cons e t ih =>
    obtain ⟨m, b⟩ := e
    have later : k ∉ keys t := fun mem => fresh (List.mem_cons_of_mem _ mem)
    unfold put
    split
    · exact List.Perm.refl _
    · rename_i notBelow
      split
      · exact ((ih later).cons _).trans (List.Perm.swap _ _ _)
      · rename_i notAbove
        have same : k = m := Std.Trichotomous.trichotomous (r := (· < ·)) _ _ notBelow notAbove
        exact absurd (same ▸ List.mem_cons_self) fresh

/-- With distinct keys, the entries put into a table are those that it has in the end. -/
theorem foldl_put_perm {entries t : Table κ α}
    (once : (entries.map (·.1)).Nodup) (fresh : ∀ e ∈ entries, e.1 ∉ t.keys) :
    (entries.foldl (fun t e => put e.1 e.2 t) t).Perm (t ++ entries) := by
  induction entries generalizing t with
  | nil => simp
  | cons e entries ih =>
    obtain ⟨apart, once⟩ := List.nodup_cons.mp once
    obtain ⟨new, fresh⟩ := List.forall_mem_cons.mp fresh
    have rest : ∀ f ∈ entries, f.1 ∉ (put e.1 e.2 t).keys := by
      intro f hf mem
      rcases mem_keys_put.mp mem with same | old
      · exact apart (List.mem_map.mpr ⟨f, hf, same⟩)
      · exact fresh f hf old
    have added : (put e.1 e.2 t ++ entries).Perm (t ++ e :: entries) :=
      ((put_perm new).append_right entries).trans List.perm_middle.symm
    exact (ih once rest).trans added

theorem foldl_put_ascending [IsTrans κ (· < ·)]
    {entries t : Table κ α} (h : t.Ascending) :
    Ascending (entries.foldl (fun t e => put e.1 e.2 t) t) := by
  induction entries generalizing t with
  | nil => exact h
  | cons e entries ih => exact ih (put_ascending h)

theorem value?_put [DecidableEq κ] [Std.Irrefl (α := κ) (· < ·)] (k l : κ) (a : α)
    (t : Table κ α) : value? (put k a t) l = if k = l then some a else value? t l := by
  induction t with
  | nil => simp [put, value?_cons]
  | cons e t ih =>
    obtain ⟨m, b⟩ := e
    unfold put
    split
    · rw [value?_cons]
    · rename_i notBelow
      split
      · rename_i above
        have differs : m ≠ k := by
          rintro rfl
          exact Std.Irrefl.irrefl (r := (· < ·)) _ above
        rw [value?_cons, ih, value?_cons]
        by_cases hm : m = l
        · subst hm
          simp [Ne.symm differs]
        · simp [hm]
      · rename_i notAbove
        have same : k = m := Std.Trichotomous.trichotomous (r := (· < ·)) _ _ notBelow notAbove
        subst same
        rw [value?_cons, value?_cons]
        by_cases hk : k = l <;> simp [hk]

end Table
end EventFlow

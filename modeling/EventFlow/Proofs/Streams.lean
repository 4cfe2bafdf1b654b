import EventFlow.Streams
import EventFlow.Proofs.Table
import Mathlib.Data.List.Perm.Basic

/-!
The registry of streams as a map: what each operation does to the stream of one key. A registry
whose keys ascend holds exactly the streams that `find?` finds.
-/

namespace EventFlow

/-! ### Sorting by a value -/

theorem mergeSort_pairwise {α β : Type} [LE β] [DecidableLE β] [IsTrans β (· ≤ ·)]
    [Std.Total (α := β) (· ≤ ·)] (f : α → β) (l : List α) :
    (l.mergeSort fun a b => decide (f a ≤ f b)).Pairwise fun a b => f a ≤ f b := by
  refine (List.pairwise_mergeSort (fun a b c first second => ?_) (fun a b => ?_) l).imp ?_
  · simp only [decide_eq_true_eq] at first second ⊢
    exact IsTrans.trans _ _ _ first second
  · simpa using Std.Total.total (f a) (f b)
  · exact fun le => by simpa using le

theorem mergeSort_eq_of_perm {α : Type} {f : α → Nat} {l l' : List α} (perm : l.Perm l')
    (inj : ∀ a ∈ l, ∀ b ∈ l, f a = f b → a = b) :
    (l.mergeSort fun a b => decide (f a ≤ f b)) = l'.mergeSort fun a b => decide (f a ≤ f b) := by
  have sorted (l : List α) : (l.mergeSort fun a b => decide (f a ≤ f b)).Perm l :=
    List.mergeSort_perm l _
  have same := (sorted l).trans (perm.trans (sorted l').symm)
  refine same.eq_of_pairwise (fun a b ha hb le ge => ?_) (mergeSort_pairwise f l)
    (mergeSort_pairwise f l')
  have first := (sorted l).mem_iff.mp ha
  have second := perm.mem_iff.mpr ((sorted l').mem_iff.mp hb)
  exact inj a first b second (Nat.le_antisymm le ge)

theorem ModuleId.sorted_eq_of_perm {l l' : List ModuleId} (perm : l.Perm l') :
    sorted l = sorted l' :=
  mergeSort_eq_of_perm (f := ModuleId.val) perm fun _ _ _ _ => ModuleId.ext_val

namespace StreamKey

theorem ext_iff_fields {a b : StreamKey} : a = b ↔ a.producer = b.producer ∧ a.type = b.type := by
  cases a; cases b; simp

theorem lt_trans {a b c : StreamKey} (h : a < b) (k : b < c) : a < c := by
  rcases h with h | ⟨h, h'⟩ <;> rcases k with k | ⟨k, k'⟩
  · exact Or.inl (Nat.lt_trans h k)
  · exact Or.inl (k ▸ h)
  · exact Or.inl (h ▸ k)
  · exact Or.inr ⟨h.trans k, Nat.lt_trans h' k'⟩

theorem lt_irrefl (a : StreamKey) : ¬ a < a := by
  rintro (h | ⟨-, h⟩)
  · exact Nat.lt_irrefl _ h
  · exact Nat.lt_irrefl _ h

theorem lt_asymm {a b : StreamKey} (h : a < b) : ¬ b < a := fun k => lt_irrefl a (lt_trans h k)

theorem ne_of_lt {a b : StreamKey} (h : a < b) : a ≠ b := by
  rintro rfl
  exact lt_irrefl a h

theorem lt_or_gt_of_ne {a b : StreamKey} (h : a ≠ b) : a < b ∨ b < a := by
  simp only [lt_def, ModuleId.lt_def, EventType.lt_def]
  by_cases same : a.producer.val = b.producer.val
  · have producer := ModuleId.ext_val same
    have differs : a.type.val ≠ b.type.val := fun type =>
      h (ext_iff_fields.mpr ⟨producer, by cases ht : a.type; cases hu : b.type; simp_all⟩)
    simp only [producer, true_and]
    omega
  · have differs : a.producer ≠ b.producer := fun e => same (by rw [e])
    omega

instance : Std.Total (α := StreamKey) (· ≤ ·) where
  total a b := by
    by_cases same : a = b
    · exact Or.inl (Or.inr same)
    · exact (lt_or_gt_of_ne same).imp Or.inl Or.inl

instance : IsTrans StreamKey (· ≤ ·) where
  trans a b c h k := by
    rcases h with h | rfl
    · rcases k with k | rfl
      · exact Or.inl (lt_trans h k)
      · exact Or.inl h
    · exact k

end StreamKey

namespace Streams

def Ascending (r : Streams) : Prop := (r.list.map (·.key)).Pairwise (· < ·)

theorem find?_key {r : Streams} {k : StreamKey} {s : Stream} (h : r.find? k = some s) :
    s.key = k := by
  simpa using List.find?_some h

theorem mem_of_find? {r : Streams} {k : StreamKey} {s : Stream} (h : r.find? k = some s) :
    s ∈ r.list := List.mem_of_find?_eq_some h

theorem find?_of_mem {r : Streams} {s : Stream} (asc : r.Ascending) (h : s ∈ r.list) :
    r.find? s.key = some s := by
  obtain ⟨l⟩ := r
  simp only [Ascending, find?] at asc h ⊢
  induction l with
  | nil => cases h
  | cons t l ih =>
    obtain ⟨below, rest⟩ := List.pairwise_cons.mp asc
    rcases List.mem_cons.mp h with rfl | h
    · simp
    · have later : t.key < s.key := below _ (List.mem_map_of_mem h)
      have differs : t.key ≠ s.key := StreamKey.ne_of_lt later
      rw [List.find?_cons_of_neg (by simpa using differs)]
      exact ih rest h

theorem ext_of_find? {r r' : Streams} (asc : r.Ascending) (asc' : r'.Ascending)
    (same : ∀ k, r.find? k = r'.find? k) : r = r' := by
  have asymm : ∀ s t : Stream, s.key < t.key → ¬ t.key < s.key := fun _ _ => StreamKey.lt_asymm
  have lists : r.list = r'.list := by
    refine eq_of_pairwise_of_mem asymm (List.pairwise_map.mp asc) (List.pairwise_map.mp asc') ?_
    intro s
    constructor
    · intro mem
      exact mem_of_find? (same s.key ▸ find?_of_mem asc mem)
    · intro mem
      exact mem_of_find? (same s.key ▸ find?_of_mem asc' mem)
  cases r
  cases r'
  exact congrArg Streams.mk lists

theorem has_iff {r : Streams} {k : StreamKey} : r.has k = true ↔ ∃ s, r.find? k = some s := by
  rw [has, Option.isSome_iff_exists]

theorem hasFrom_iff {r : Streams} {p : ModuleId} :
    r.hasFrom p = true ↔ ∃ s ∈ r.list, s.key.producer = p := by
  simp [hasFrom]

def users (r : Streams) (k : StreamKey) : List ModuleId := ((r.find? k).map (·.users)).getD []

theorem users_of_find? {r : Streams} {k : StreamKey} {s : Stream} (h : r.find? k = some s) :
    r.users k = s.users := by
  simp [users, h]

theorem repeated?_eq_none {ids : List ModuleId} (h : ids.Nodup) : repeated? ids = none := by
  fun_induction repeated? ids with
  | case1 a l => simp at h
  | case2 a b l differs ih => exact ih (List.nodup_cons.mp h).2
  | case3 => rfl

/-! ### Registering -/

theorem find?_insert {s : Stream} {l : List Stream} (fresh : ∀ t ∈ l, t.key ≠ s.key)
    (k : StreamKey) : (insert s l).find? (fun t => t.key = k) =
      if s.key = k then some s else l.find? (fun t => t.key = k) := by
  induction l with
  | nil => by_cases h : s.key = k <;> simp [insert, h]
  | cons t l ih =>
    obtain ⟨head, rest⟩ := List.forall_mem_cons.mp fresh
    unfold insert
    split
    · by_cases h : s.key = k <;> simp [h]
    · rw [List.find?_cons, List.find?_cons, ih rest]
      by_cases h : t.key = k
      · have differs : s.key ≠ k := fun same => head (h.trans same.symm)
        simp [h, differs]
      · simp [h]

theorem mem_insert {s t : Stream} {l : List Stream} : t ∈ insert s l ↔ t = s ∨ t ∈ l := by
  induction l with
  | nil => simp [insert]
  | cons u l ih =>
    unfold insert
    split
    · simp
    · rw [List.mem_cons, ih, List.mem_cons]
      exact or_left_comm

theorem insert_ascending {s : Stream} {l : List Stream} (fresh : ∀ t ∈ l, t.key ≠ s.key)
    (asc : (l.map (·.key)).Pairwise (· < ·)) : ((insert s l).map (·.key)).Pairwise (· < ·) := by
  induction l with
  | nil => simp [insert]
  | cons t l ih =>
    obtain ⟨head, rest⟩ := List.forall_mem_cons.mp fresh
    obtain ⟨below, tail⟩ := List.pairwise_cons.mp asc
    unfold insert
    split
    · rename_i before
      refine List.pairwise_cons.mpr ⟨fun k hk => ?_, asc⟩
      rcases List.mem_cons.mp hk with rfl | hk
      · exact before
      · exact StreamKey.lt_trans before (below k hk)
    · rename_i notBefore
      refine List.pairwise_cons.mpr ⟨fun k hk => ?_, ih rest tail⟩
      obtain ⟨u, hu, rfl⟩ := List.mem_map.mp hk
      rcases mem_insert.mp hu with rfl | hu
      · exact (StreamKey.lt_or_gt_of_ne head).resolve_right notBefore
      · exact below _ (List.mem_map_of_mem hu)

theorem fresh_of_not_has {r : Streams} {k : StreamKey} (h : ¬ r.has k = true) :
    ∀ t ∈ r.list, t.key ≠ k := by
  intro t ht same
  apply h
  rw [has, find?, List.find?_isSome]
  exact ⟨t, ht, by simpa using same⟩

theorem find?_register (r : Streams) (k l : StreamKey) (fp : Bool) :
    (r.register k fp).find? l =
      if k = l then some ((r.find? k).getD { key := k, fromProcessor := fp }) else r.find? l := by
  unfold register
  split
  · rename_i present
    obtain ⟨s, found⟩ := has_iff.mp present
    by_cases h : k = l
    · subst h
      simp [found]
    · simp [h]
  · rename_i absent
    have none : r.find? k = none := by simpa [has] using absent
    rw [none, Option.getD_none, find?]
    exact find?_insert (s := { key := k, fromProcessor := fp }) (fresh_of_not_has absent) l

theorem register_ascending {r : Streams} {k : StreamKey} {fp : Bool} (asc : r.Ascending) :
    (r.register k fp).Ascending := by
  unfold register
  split
  · exact asc
  · rename_i absent
    exact insert_ascending (s := { key := k, fromProcessor := fp }) (fresh_of_not_has absent) asc

/-! ### Changes of users -/

/-- A change of streams that keeps the keys changes what is found under each. -/
theorem find?_map {r r' : Streams} {f : Stream → Stream} (h : r'.list = r.list.map f)
    (keep : ∀ s, (f s).key = s.key) (k : StreamKey) : r'.find? k = (r.find? k).map f := by
  simp only [find?, h, List.find?_map, Function.comp_def, keep]

theorem has_map {r r' : Streams} {f : Stream → Stream} (h : r'.list = r.list.map f)
    (keep : ∀ s, (f s).key = s.key) (k : StreamKey) : r'.has k = r.has k := by
  rw [has, find?_map h keep, Option.isSome_map, has]

theorem map_ascending {r r' : Streams} {f : Stream → Stream} (h : r'.list = r.list.map f)
    (keep : ∀ s, (f s).key = s.key) (asc : r.Ascending) : r'.Ascending := by
  simpa only [Ascending, h, List.map_map, Function.comp_def, keep] using asc

theorem has_addUser (r : Streams) (k : StreamKey) (user : ModuleId) :
    (r.addUser k user).has = r.has :=
  funext fun l => has_map rfl (fun s => by split <;> rfl) l

theorem mem_prune {r : Streams} {s : Stream} : s ∈ r.prune.list ↔ s ∈ r.list ∧ s.users ≠ [] := by
  simp [prune]

theorem prune_ascending {r : Streams} (asc : r.Ascending) : r.prune.Ascending :=
  List.Pairwise.sublist (List.filter_sublist.map _) asc

theorem list_reorder (r : Streams) (order : List ModuleId) :
    (r.reorder order).list = r.list.map fun s =>
      { s with users := s.users.mergeSort (fun a b => decide (rank order a ≤ rank order b)) } := rfl

theorem find?_reorder (r : Streams) (order : List ModuleId) (k : StreamKey) :
    (r.reorder order).find? k = (r.find? k).map fun s =>
      { s with users := s.users.mergeSort (fun a b => decide (rank order a ≤ rank order b)) } :=
  find?_map (list_reorder r order) (fun _ => rfl) k

theorem has_reorder (r : Streams) (order : List ModuleId) (k : StreamKey) :
    (r.reorder order).has k = r.has k :=
  has_map (list_reorder r order) (fun _ => rfl) k

theorem users_reorder (r : Streams) (order : List ModuleId) (k : StreamKey) :
    (r.reorder order).users k =
      (r.users k).mergeSort (fun a b => decide (rank order a ≤ rank order b)) := by
  simp only [users, find?_reorder, Option.map_map, Function.comp_def]
  cases r.find? k <;> simp

/-! ### Ranks -/

theorem rank_append {pre post : List ModuleId} {id : ModuleId} (last : id ∉ post) :
    rank (pre ++ id :: post) id = pre.length := by
  have place : (pre ++ id :: post).reverse.idxOf? id = some post.length := by
    have fresh : post.reverse.findIdx? (· == id) = none := by
      refine List.findIdx?_eq_none_iff.mpr fun x hx => beq_eq_false_iff_ne.mpr ?_
      rintro rfl
      exact last (List.mem_reverse.mp hx)
    simp [List.idxOf?, List.findIdx?_append, List.findIdx?_cons, fresh]
  rw [rank, place]
  simp only [List.length_append, List.length_cons]
  omega

theorem rank_lt {done rest : List ModuleId} {id u : ModuleId} (nodup : (done ++ id :: rest).Nodup)
    (later : u ∈ rest) : rank (done ++ id :: rest) id < rank (done ++ id :: rest) u := by
  have tail := (List.nodup_append.mp nodup).2.1
  rw [rank_append (List.nodup_cons.mp tail).1]
  obtain ⟨mid, post, rfl⟩ := List.append_of_mem later
  have last : u ∉ post := by
    have nodup := (List.nodup_append.mp (List.nodup_cons.mp tail).2).2.1
    exact (List.nodup_cons.mp nodup).1
  have split : done ++ id :: (mid ++ u :: post) = (done ++ id :: mid) ++ u :: post := by simp
  rw [split, rank_append last]
  simp only [List.length_append, List.length_cons]
  omega

theorem mem_of_rank_lt {done rest : List ModuleId} {id u : ModuleId}
    (nodup : (done ++ id :: rest).Nodup) (mem : u ∈ done ++ id :: rest)
    (lt : rank (done ++ id :: rest) id < rank (done ++ id :: rest) u) : u ∈ rest := by
  rcases List.mem_append.mp mem with before | later
  · obtain ⟨pre, mid, rfl⟩ := List.append_of_mem before
    have split : (pre ++ u :: mid) ++ id :: rest = pre ++ u :: (mid ++ id :: rest) := by simp
    rw [split] at nodup lt
    exact absurd (rank_lt nodup (by simp)) (Nat.lt_asymm lt)
  · refine (List.mem_cons.mp later).resolve_left ?_
    rintro rfl
    exact Nat.lt_irrefl _ lt

theorem rank_inj {order : List ModuleId} (nodup : order.Nodup) {a b : ModuleId} (ha : a ∈ order)
    (hb : b ∈ order) (same : rank order a = rank order b) : a = b := by
  obtain ⟨pre, post, split⟩ := List.append_of_mem ha
  obtain ⟨pre', post', split'⟩ := List.append_of_mem hb
  have first : rank order a = pre.length := by
    rw [split] at nodup ⊢
    exact rank_append (List.nodup_cons.mp (List.nodup_append.mp nodup).2.1).1
  have second : rank order b = pre'.length := by
    rw [split'] at nodup ⊢
    exact rank_append (List.nodup_cons.mp (List.nodup_append.mp nodup).2.1).1
  have place : order[pre.length]? = some a := by simp [split]
  have place' : order[pre'.length]? = some b := by simp [split']
  rw [← first, same, second, place', Option.some.injEq] at place
  exact place.symm

theorem rank_ascending {order : List ModuleId} (nodup : order.Nodup) :
    order.Pairwise fun a b => rank order a < rank order b := by
  have along : ∀ rest done, order = done ++ rest →
      rest.Pairwise fun a b => rank order a < rank order b := by
    intro rest
    induction rest with
    | nil => exact fun _ _ => .nil
    | cons id rest ih =>
      intro done split
      refine List.pairwise_cons.mpr ⟨fun u later => ?_, ih (done ++ [id]) (by simp [split])⟩
      rw [split] at nodup ⊢
      exact rank_lt nodup later
  exact along order [] rfl

theorem sublist_of_sorted {order ids : List ModuleId} (nodup : order.Nodup) (once : ids.Nodup)
    (inside : ∀ id ∈ ids, id ∈ order)
    (sorted : ids.Pairwise fun a b => rank order a ≤ rank order b) : ids.Sublist order := by
  have strict : ids.Pairwise fun a b => rank order a < rank order b := by
    refine (sorted.and once).imp_of_mem fun ha hb both => ?_
    exact Nat.lt_of_le_of_ne both.1 fun same =>
      both.2 (rank_inj nodup (inside _ ha) (inside _ hb) same)
  have chosen : order.filter (· ∈ ids) = ids := by
    refine eq_of_pairwise_of_mem (fun a b lt => Nat.lt_asymm lt)
      ((rank_ascending nodup).sublist List.filter_sublist) strict fun id => ?_
    rw [List.mem_filter, decide_eq_true_eq]
    exact and_iff_right_of_imp (inside id)
  rw [← chosen]
  exact List.filter_sublist

theorem users_reorder_sorted (r : Streams) (order : List ModuleId) (k : StreamKey) :
    ((r.reorder order).users k).Pairwise fun a b => rank order a ≤ rank order b := by
  rw [users_reorder]
  exact mergeSort_pairwise (rank order) (r.users k)

theorem mem_after_of_sorted {l : List ModuleId} {R : ModuleId → ModuleId → Prop}
    (sorted : l.Pairwise R) {a b : ModuleId} (ha : a ∈ l) (hb : b ∈ l) (differs : b ≠ a)
    (not_before : ¬ R b a) : b ∈ (l.dropWhile (· != a)).drop 1 := by
  induction l with
  | nil => cases ha
  | cons c l ih =>
    obtain ⟨head, tail⟩ := List.pairwise_cons.mp sorted
    by_cases first : c = a
    · subst first
      simpa using (List.mem_cons.mp hb).resolve_left differs
    · have ha' := (List.mem_cons.mp ha).resolve_left (Ne.symm first)
      rw [List.dropWhile_cons_of_pos (by simpa using first)]
      rcases List.mem_cons.mp hb with rfl | hb'
      · exact absurd (head a ha') not_before
      · exact ih tail ha' hb'

theorem of_mem_after {l : List ModuleId} {R : ModuleId → ModuleId → Prop} (sorted : l.Pairwise R)
    {a b : ModuleId} (after : b ∈ (l.dropWhile (· != a)).drop 1) : R a b := by
  induction l with
  | nil => simp at after
  | cons c l ih =>
    obtain ⟨head, tail⟩ := List.pairwise_cons.mp sorted
    by_cases first : c = a
    · subst first
      rw [List.dropWhile_cons_of_neg (by simp), List.drop_one, List.tail_cons] at after
      exact head b after
    · rw [List.dropWhile_cons_of_pos (by simpa using first)] at after
      exact ih tail after

/-! ### Consumers -/

theorem mem_dedupSorted {ids : List ModuleId} {id : ModuleId} :
    id ∈ dedupSorted ids ↔ id ∈ ids := by
  fun_induction dedupSorted ids with
  | case1 a l ih => simp [ih]
  | case2 a b l _ ih => simp [ih]
  | case3 => rfl

theorem mem_consumers {r : Streams} {p id : ModuleId} :
    id ∈ r.consumers p ↔ ∃ s ∈ r.list, s.key.producer = p ∧ id ∈ s.users := by
  rw [consumers, mem_dedupSorted, ModuleId.sorted, List.mem_mergeSort]
  simp [and_assoc]

theorem mem_consumers_reorder {r : Streams} {order : List ModuleId} {p id : ModuleId} :
    id ∈ (r.reorder order).consumers p ↔ id ∈ r.consumers p := by
  simp [mem_consumers, list_reorder]

end Streams
end EventFlow

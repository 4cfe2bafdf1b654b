import Mathlib
import EventFlow.Registry
import EventFlow.Proofs.Streams

/-!
Seeking by halving. In a registry whose keys ascend it finds the stream of a key, or else the place
where the stream belongs, so that requests come to the same as the operations on all streams.
-/

namespace EventFlow

/-! ### Halving -/

section
variable {α : Type} {compare : α → Ordering} {list : List α}

/-- Elements that are not behind what is sought have only elements before it in front of them. -/
def Parted (compare : α → Ordering) (list : List α) : Prop :=
  list.Pairwise fun a b => compare b ≠ .gt → compare a = .lt

theorem Parted.lt (parted : Parted compare list) {i j : Nat} (hj : j < list.length) (before : i < j)
    (notBehind : compare list[j] ≠ .gt) : compare list[i] = .lt :=
  List.pairwise_iff_getElem.mp parted i j (Nat.lt_trans before hj) hj before notBehind

theorem Parted.gt (parted : Parted compare list) {i j : Nat} (hj : j < list.length) (before : i < j)
    (behind : compare list[i] = .gt) : compare list[j] = .gt := by
  by_contra notBehind
  have lt := parted.lt hj before notBehind
  rw [behind] at lt
  cases lt

theorem Parted.halve (parted : Parted compare list) (base size : Nat) (nonempty : 0 < size)
    (inside : base + size ≤ list.length) :
    ((halve compare list base size nonempty inside).val = base ∨
      compare (list.get (halve compare list base size nonempty inside)) ≠ .gt) ∧
    ∀ j (hj : j < list.length), halve compare list base size nonempty inside < j →
      j < base + size → compare list[j] = .gt := by
  fun_induction EventFlow.halve compare list base size nonempty inside with
  | case1 base nonempty inside =>
    refine ⟨Or.inl rfl, fun j _ after within => ?_⟩
    simp only at after
    omega
  | case2 base size nonempty inside one behind ih =>
    refine ⟨ih.1, fun j hj after within => ?_⟩
    by_cases left : j < base + (size - size / 2)
    · exact ih.2 j hj after left
    · rcases Nat.eq_or_lt_of_le (show base + size / 2 ≤ j by omega) with rfl | later
      · exact behind
      · exact parted.gt hj later behind
  | case3 base size nonempty inside one notBehind ih =>
    refine ⟨Or.inr ?_, fun j hj after within => ih.2 j hj after (by omega)⟩
    rcases ih.1 with here | notBehind'
    · simpa [here] using notBehind
    · exact notBehind'

theorem search_held {i : Fin list.length} (found : search compare list = .held i) :
    compare (list.get i) = .eq := by
  rw [search] at found
  split at found
  · rename_i nonempty
    dsimp only at found
    generalize halve compare list 0 list.length nonempty _ = n at found
    cases here : compare (list.get n) <;> rw [here] at found <;> cases found
    exact here
  · cases found

/-- All in front of a gap is before what is sought, and all from there on is behind it. -/
theorem Parted.search_gap (parted : Parted compare list) {i : Fin (list.length + 1)}
    (found : search compare list = .gap i) {j : Nat} (hj : j < list.length) :
    (j < i → compare list[j] = .lt) ∧ (i ≤ j → compare list[j] = .gt) := by
  have nonempty : 0 < list.length := Nat.zero_lt_of_lt hj
  obtain ⟨stop, behind⟩ := parted.halve 0 list.length nonempty (by omega)
  rw [search, dif_pos nonempty] at found
  dsimp only at found
  generalize EventFlow.halve compare list 0 list.length nonempty _ = n at stop behind found
  cases here : compare (list.get n) <;> rw [here] at found <;> cases found
  · have last : compare list[n.val] = .lt := here
    rw [Fin.val_succ]
    refine ⟨fun before => ?_, fun after => behind j hj (by omega) (by omega)⟩
    rcases Nat.eq_or_lt_of_le (Nat.le_of_lt_succ before) with rfl | before
    · exact last
    · exact parted.lt n.isLt before (by simp [last])
  · have first : n.val = 0 := stop.resolve_right fun notBehind => notBehind here
    rw [Fin.val_castSucc]
    refine ⟨fun before => by omega, fun after => ?_⟩
    rcases Nat.eq_or_lt_of_le after with rfl | after
    · exact here
    · exact behind j hj after (by omega)

end

/-! ### Comparing keys -/

namespace StreamKey

theorem lt_iff_not_gt_and_ne (a b : StreamKey) : a < b ↔ ¬ b < a ∧ a ≠ b := by
  constructor
  · exact fun before => ⟨lt_asymm before, ne_of_lt before⟩
  · rintro ⟨notAfter, differs⟩
    exact (lt_or_gt_of_ne differs).resolve_right notAfter

instance : Std.TransCmp StreamKey.compare :=
  Std.TransOrd.compareOfLessAndEq_of_lt_trans_of_lt_iff lt_trans lt_iff_not_gt_and_ne

theorem compare_eq_lt {a b : StreamKey} : a.compare b = .lt ↔ a < b := compareOfLessAndEq_eq_lt

theorem compare_eq_gt {a b : StreamKey} : a.compare b = .gt ↔ b < a :=
  compareOfLessAndEq_eq_gt_of_lt_iff_not_gt_and_ne lt_iff_not_gt_and_ne

instance : Std.LawfulEqCmp StreamKey.compare where
  eq_of_compare {a b} equal := by
    by_contra differs
    rcases lt_or_gt_of_ne differs with before | after
    · rw [compare_eq_lt.mpr before] at equal
      cases equal
    · rw [compare_eq_gt.mpr after] at equal
      cases equal

theorem compare_eq_eq {a b : StreamKey} : a.compare b = .eq ↔ a = b :=
  Std.LawfulEqCmp.compare_eq_iff_eq

end StreamKey

/-! ### Streams by key -/

namespace Streams

variable {r : Streams} {k : StreamKey} {s : Stream} {l : List Stream}

theorem parted (asc : r.Ascending) (k : StreamKey) :
    Parted (fun s => s.key.compare k) r.list := by
  refine (List.pairwise_map.mp asc).imp fun {s t} before notBehind => ?_
  rw [StreamKey.compare_eq_lt]
  by_contra notBefore
  refine notBehind (StreamKey.compare_eq_gt.mpr ?_)
  by_cases same : s.key = k
  · exact same ▸ before
  · exact StreamKey.lt_trans ((StreamKey.lt_or_gt_of_ne same).resolve_left notBefore) before

theorem locate_held {i : Fin r.list.length} (found : r.locate k = .held i) :
    (r.list.get i).key = k :=
  StreamKey.compare_eq_eq.mp (search_held found)

theorem locate_gap (asc : r.Ascending) {i : Fin (r.list.length + 1)} (found : r.locate k = .gap i) :
    (∀ s ∈ r.list.take i, s.key < k) ∧ ∀ s ∈ r.list.drop i, k < s.key := by
  constructor
  · intro s mem
    obtain ⟨j, hj, rfl⟩ := List.mem_take_iff_getElem.mp mem
    rw [Nat.lt_min] at hj
    exact StreamKey.compare_eq_lt.mp (((parted asc k).search_gap found hj.2).1 hj.1)
  · intro s mem
    obtain ⟨j, hj, rfl⟩ := List.mem_drop_iff_getElem.mp mem
    exact StreamKey.compare_eq_gt.mp (((parted asc k).search_gap found _).2 (by omega))

theorem find?_of_locate_held (asc : r.Ascending) {i : Fin r.list.length}
    (found : r.locate k = .held i) : r.find? k = some (r.list.get i) := by
  rw [← locate_held found]
  exact find?_of_mem asc (List.get_mem r.list i)

theorem find?_of_locate_gap (asc : r.Ascending) {i : Fin (r.list.length + 1)}
    (found : r.locate k = .gap i) : r.find? k = none := by
  obtain ⟨before, behind⟩ := locate_gap asc found
  refine List.find?_eq_none.mpr fun s mem => ?_
  rw [decide_eq_true_eq]
  rintro rfl
  rw [← List.take_append_drop i r.list, List.mem_append] at mem
  rcases mem with mem | mem
  · exact StreamKey.lt_irrefl _ (before s mem)
  · exact StreamKey.lt_irrefl _ (behind s mem)

theorem lookUp_eq (asc : r.Ascending) (k : StreamKey) : r.lookUp k = r.find? k := by
  rw [lookUp]
  cases found : r.locate k with
  | held i => rw [find?_of_locate_held asc found]
  | gap i => rw [find?_of_locate_gap asc found]

theorem insertIdx_eq_insert {i : Nat} (inside : i ≤ l.length)
    (before : ∀ t ∈ l.take i, t.key < s.key) (behind : ∀ t ∈ l.drop i, s.key < t.key) :
    l.insertIdx i s = insert s l := by
  induction l generalizing i with
  | nil =>
    obtain rfl : i = 0 := Nat.le_zero.mp inside
    rfl
  | cons t l ih =>
    cases i with
    | zero =>
      rw [insert, if_pos (behind t List.mem_cons_self)]
      rfl
    | succ i =>
      rw [List.take_succ_cons, List.forall_mem_cons] at before
      rw [insert, if_neg (StreamKey.lt_asymm before.1), List.insertIdx_succ_cons,
        ih (Nat.le_of_succ_le_succ inside) before.2 behind]

theorem serve_register (asc : r.Ascending) (k : StreamKey) (fromProcessor : Bool) :
    r.serve (.register k fromProcessor) = (r.register k fromProcessor, .flag (!r.has k)) := by
  rw [serve, register, has]
  cases found : r.locate k with
  | held i => simp [find?_of_locate_held asc found]
  | gap i =>
    obtain ⟨before, behind⟩ := locate_gap asc found
    have inserted := insertIdx_eq_insert (s := { key := k, fromProcessor })
      (Nat.le_of_lt_succ i.isLt) before behind
    simp [find?_of_locate_gap asc found, inserted]

theorem place_unique (asc : r.Ascending) {i j : Nat} (hi : i < r.list.length)
    (hj : j < r.list.length) (same : r.list[i].key = r.list[j].key) : i = j := by
  have nodup : (r.list.map (·.key)).Nodup := asc.imp StreamKey.ne_of_lt
  have first : i < (r.list.map (·.key)).length := by simpa using hi
  have second : j < (r.list.map (·.key)).length := by simpa using hj
  have keys : (r.list.map (·.key))[i] = (r.list.map (·.key))[j] := by
    rwa [List.getElem_map, List.getElem_map]
  exact nodup.getElem_inj_iff.mp keys

theorem serve_addUser (asc : r.Ascending) (k : StreamKey) (user : ModuleId) :
    r.serve (.addUser k user) = (r.addUser k user, .flag (r.has k)) := by
  rw [serve, addUser, has]
  cases found : r.locate k with
  | held i =>
    have here : r.list[i.val].key = k := locate_held found
    have place {j : Nat} (hj : j < r.list.length) : i.val = j ↔ r.list[j].key = k := by
      constructor
      · rintro rfl
        exact here
      · exact fun there => place_unique asc i.isLt hj (here.trans there.symm)
    have changed : (r.list.modify i fun s => { s with users := s.users ++ [user] }) =
        r.list.map fun s => if s.key = k then { s with users := s.users ++ [user] } else s := by
      refine List.ext_getElem (by simp) fun j hj hj' => ?_
      have inside : j < r.list.length := by simpa using hj'
      rw [List.getElem_modify, List.getElem_map]
      simp only [place inside]
    simp [find?_of_locate_held asc found, changed]
  | gap i =>
    have absent := find?_of_locate_gap asc found
    have other : ∀ s ∈ r.list, s.key ≠ k := by simpa [find?] using absent
    have same : (r.list.map fun s =>
        if s.key = k then { s with users := s.users ++ [user] } else s) = r.list :=
      (List.map_congr_left fun s mem => if_neg (other s mem)).trans (List.map_id _)
    simp [absent, same]

end Streams
end EventFlow

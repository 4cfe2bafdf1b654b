import Mathlib
import EventFlow.Proofs.Grammar

/-!
Output texts: numerals between commas. The types of a text depend on the values of its numerals
only, not on their order or on how they are written.
-/

namespace EventFlow

/-! ### Blanks at the ends -/

namespace Text

theorem dropWhile_blanks {blanks : List Char} (blank : ∀ c ∈ blanks, isBlank c = true)
    (cs : List Char) : (blanks ++ cs).dropWhile isBlank = cs.dropWhile isBlank := by
  induction blanks with
  | nil => rfl
  | cons c blanks ih =>
    obtain ⟨first, others⟩ := List.forall_mem_cons.mp blank
    rw [List.cons_append, List.dropWhile_cons_of_pos first, ih others]

theorem exists_trim (cs : List Char) : ∃ left right, (∀ c ∈ left, isBlank c = true) ∧
    (∀ c ∈ right, isBlank c = true) ∧ cs = left ++ trim cs ++ right := by
  refine ⟨cs.takeWhile isBlank, ((cs.dropWhile isBlank).reverse.takeWhile isBlank).reverse,
    List.all_eq_true.mp List.all_takeWhile, fun c mem => ?_, ?_⟩
  · exact List.all_eq_true.mp List.all_takeWhile c (List.mem_reverse.mp mem)
  · rw [trim, List.append_assoc, ← List.reverse_append, List.takeWhile_append_dropWhile,
      List.reverse_reverse, List.takeWhile_append_dropWhile]

theorem trim_of_ends {cs : List Char} (first : ∀ c ∈ cs.head?, isBlank c = false)
    (last : ∀ c ∈ cs.getLast?, isBlank c = false) : trim cs = cs := by
  have keeps (l : List Char) (start : ∀ c ∈ l.head?, isBlank c = false) :
      l.dropWhile isBlank = l := by
    cases l with
    | nil => rfl
    | cons c l => exact List.dropWhile_cons_of_neg (by simp [start c rfl])
  rw [trim, keeps cs first, keeps cs.reverse (by rwa [List.head?_reverse]), List.reverse_reverse]

theorem trim_pad {left right cs : List Char} (blankLeft : ∀ c ∈ left, isBlank c = true)
    (blankRight : ∀ c ∈ right, isBlank c = true) (first : ∀ c ∈ cs.head?, isBlank c = false)
    (last : ∀ c ∈ cs.getLast?, isBlank c = false) (some : cs ≠ []) :
    trim (left ++ cs ++ right) = cs := by
  obtain ⟨c, cs, rfl⟩ := List.exists_cons_of_ne_nil some
  have stops : (c :: cs ++ right).dropWhile isBlank = c :: cs ++ right :=
    List.dropWhile_cons_of_neg (by simp [first c rfl])
  have blanks : ∀ c ∈ right.reverse, isBlank c = true :=
    fun c mem => blankRight c (List.mem_reverse.mp mem)
  rw [trim, List.append_assoc, dropWhile_blanks blankLeft, stops, List.reverse_append,
    dropWhile_blanks blanks]
  have inner := trim_of_ends first last
  rw [trim, List.dropWhile_cons_of_neg (by simp [first c rfl])] at inner
  exact inner

theorem isBlank_of_isDigit {c : Char} (digit : c.isDigit = true) : isBlank c = false := by
  rw [Char.isDigit, Bool.and_eq_true, decide_eq_true_eq, decide_eq_true_eq] at digit
  have low : 48 ≤ c.toNat := UInt32.le_iff_toNat_le.mp digit.1
  have high : c.toNat ≤ 57 := UInt32.le_iff_toNat_le.mp digit.2
  simp only [isBlank, inRanges, blankRanges, List.any_cons, List.any_nil, Bool.or_false,
    Bool.or_eq_false_iff, Bool.and_eq_false_iff, decide_eq_false_iff_not]
  omega

theorem digitsValue_zeros {zeros : List Char} (zero : ∀ c ∈ zeros, c = '0') (cs : List Char) :
    digitsValue (zeros ++ cs) = digitsValue cs := by
  induction zeros with
  | nil => rfl
  | cons c zeros ih =>
    obtain ⟨rfl, others⟩ := List.forall_mem_cons.mp zero
    exact ih others

end Text

namespace Wiring
open Text

/-! ### Numerals between commas -/

def Padded (part : List Char) (n : Nat) : Prop :=
  ∃ left digits right, (∀ c ∈ left, isBlank c = true) ∧ (∀ c ∈ right, isBlank c = true) ∧
    part = left ++ digits ++ right ∧ Numeral digits n

/-- The values of the numerals between the commas of a text. -/
def Names (text : List Char) (values : List Nat) : Prop :=
  List.Forall₂ Padded (text.splitOn ',') values

/-- The same part with other blanks around it and more zeros in front of its numeral. -/
def Respelled (part other : List Char) : Prop :=
  ∃ left zeros right, (∀ c ∈ left, isBlank c = true) ∧ (∀ c ∈ right, isBlank c = true) ∧
    (∀ c ∈ zeros, c = '0') ∧ other = left ++ (zeros ++ trim part) ++ right

/-- The same parts in any order, each perhaps written in another way. -/
def Restated (text other : List Char) : Prop :=
  ∃ parts, parts.Perm (text.splitOn ',') ∧ List.Forall₂ Respelled parts (other.splitOn ',')

variable {text part other : List Char} {n : Nat} {types : List EventType}

theorem Numeral.trim_pad {left digits right : List Char} (numeral : Numeral digits n)
    (blankLeft : ∀ c ∈ left, isBlank c = true) (blankRight : ∀ c ∈ right, isBlank c = true) :
    trim (left ++ digits ++ right) = digits :=
  Text.trim_pad blankLeft blankRight
    (fun c mem => isBlank_of_isDigit (numeral.digits c (List.mem_of_mem_head? mem)))
    (fun c mem => isBlank_of_isDigit (numeral.digits c (List.mem_of_getLast? mem)))
    numeral.nonempty

theorem padded_iff : Padded part n ↔ Numeral (trim part) n := by
  constructor
  · rintro ⟨left, digits, right, blankLeft, blankRight, rfl, numeral⟩
    rwa [numeral.trim_pad blankLeft blankRight]
  · intro numeral
    obtain ⟨left, right, blankLeft, blankRight, shape⟩ := exists_trim part
    exact ⟨left, trim part, right, blankLeft, blankRight, shape, numeral⟩

theorem Numeral.zeros {zeros digits : List Char} (numeral : Numeral digits n)
    (zero : ∀ c ∈ zeros, c = '0') : Numeral (zeros ++ digits) n := by
  refine ⟨List.append_ne_nil_of_right_ne_nil _ numeral.nonempty, fun c mem => ?_, ?_,
    numeral.bounded⟩
  · rcases List.mem_append.mp mem with inZeros | inDigits
    · rw [zero c inZeros]
      rfl
    · exact numeral.digits c inDigits
  · rw [← digitsValue_eq_ofDigits, digitsValue_zeros zero, digitsValue_eq_ofDigits]
    exact numeral.value

theorem Padded.respelled (padded : Padded part n) (same : Respelled part other) :
    Padded other n := by
  obtain ⟨left, zeros, right, blankLeft, blankRight, zero, rfl⟩ := same
  exact ⟨left, zeros ++ trim part, right, blankLeft, blankRight, rfl,
    (padded_iff.mp padded).zeros zero⟩

theorem readTypes_cons_ok {parts : List (List Char)} {done : List EventType} :
    readTypes text done (part :: parts) = .ok types ↔
      ∃ n, Padded part n ∧ (⟨n⟩ : EventType) ∉ done ∧
        readTypes text (done ++ [⟨n⟩]) parts = .ok types := by
  rw [readTypes]
  constructor
  · intro h
    split at h
    · cases h
    · split at h
      · cases h
      · rename_i n read
        split at h
        · cases h
        · rename_i fresh
          exact ⟨n, padded_iff.mpr (readNumber_ok_iff.mp read), by simpa using fresh, h⟩
  · rintro ⟨n, padded, fresh, rest⟩
    have numeral := padded_iff.mp padded
    have some : (trim part).isEmpty = false := List.isEmpty_eq_false_iff.mpr numeral.nonempty
    have notYet : done.contains (⟨n⟩ : EventType) = false := by simpa using fresh
    rw [some, readNumber_ok_iff.mpr numeral]
    dsimp only
    rw [notYet]
    exact rest

theorem readTypes_ok_iff {parts : List (List Char)} {done : List EventType} (once : done.Nodup) :
    readTypes text done parts = .ok types ↔
      ∃ values, List.Forall₂ Padded parts values ∧ types = done ++ values.map EventType.mk ∧
        types.Nodup := by
  induction parts generalizing done with
  | nil =>
    simp only [readTypes, Except.ok.injEq, List.forall₂_nil_left_iff]
    constructor
    · rintro rfl
      exact ⟨[], rfl, by simp, once⟩
    · rintro ⟨-, rfl, rfl, -⟩
      simp
  | cons part parts ih =>
    have grown {n : Nat} (fresh : (⟨n⟩ : EventType) ∉ done) :
        (done ++ [(⟨n⟩ : EventType)]).Nodup :=
      List.nodup_append.mpr ⟨once, List.nodup_singleton _, fun a ha b hb same =>
        fresh (List.mem_singleton.mp hb ▸ same ▸ ha)⟩
    rw [readTypes_cons_ok]
    constructor
    · rintro ⟨n, padded, fresh, rest⟩
      obtain ⟨values, all, rfl, distinct⟩ := (ih (grown fresh)).mp rest
      exact ⟨n :: values, .cons padded all, by simp, distinct⟩
    · rintro ⟨values, all, rfl, distinct⟩
      cases all with
      | @cons _ n _ values padded all =>
        have fresh : (⟨n⟩ : EventType) ∉ done := by
          intro mem
          exact (List.nodup_append.mp distinct).2.2 _ mem _ (by simp) rfl
        exact ⟨n, padded, fresh, (ih (grown fresh)).mpr ⟨values, all, by simp, distinct⟩⟩

/-! ### The types of a text -/

theorem nodup_types {values : List Nat} : (values.map EventType.mk).Nodup ↔ values.Nodup :=
  List.nodup_map_iff fun _ _ => EventType.mk.inj

theorem outputTypes_ok_iff : outputTypes text = .ok types ↔
    ∃ values, Names text values ∧ values.Nodup ∧
      types = (values.map EventType.mk).mergeSort fun a b => decide (a ≤ b) := by
  have split : pieces (· == ',') text = text.splitOn ',' := by
    rw [pieces_eq_splitOnP, ← List.splitOn_eq_splitOnP]
  rw [outputTypes, split]
  constructor
  · intro h
    cases read : readTypes text [] (text.splitOn ',') with
    | error e =>
      rw [read] at h
      cases h
    | ok ts =>
      rw [read] at h
      cases h
      obtain ⟨values, all, rfl, distinct⟩ := (readTypes_ok_iff List.nodup_nil).mp read
      exact ⟨values, all, nodup_types.mp distinct, rfl⟩
  · rintro ⟨values, all, distinct, rfl⟩
    have read : readTypes text [] (text.splitOn ',') = .ok (values.map EventType.mk) :=
      (readTypes_ok_iff List.nodup_nil).mpr
        ⟨values, all, (List.nil_append _).symm, nodup_types.mpr distinct⟩
    rw [read]
    rfl

theorem sorted_types {values : List Nat} (distinct : values.Nodup) :
    ((values.map EventType.mk).mergeSort fun a b => decide (a ≤ b)).Pairwise (· < ·) := by
  have perm := List.mergeSort_perm (values.map EventType.mk) fun a b => decide (a ≤ b)
  have nodup := perm.nodup_iff.mpr (nodup_types.mpr distinct)
  have sorted : ((values.map EventType.mk).mergeSort fun a b => decide (a ≤ b)).Pairwise
      fun a b => a.val ≤ b.val := mergeSort_pairwise EventType.val _
  refine (nodup.and sorted).imp fun {a b} h => ?_
  exact Nat.lt_of_le_of_ne h.2 fun same => h.1 (by cases a; cases b; exact congrArg _ same)

theorem mem_sorted_types {values : List Nat} {t : EventType} :
    t ∈ ((values.map EventType.mk).mergeSort fun a b => decide (a ≤ b)) ↔ t.val ∈ values := by
  rw [List.mem_mergeSort, List.mem_map]
  constructor
  · rintro ⟨n, mem, rfl⟩
    exact mem
  · exact fun mem => ⟨t.val, mem, rfl⟩

theorem sorted_types_of_perm {values values' : List Nat} (perm : values.Perm values') :
    ((values.map EventType.mk).mergeSort fun a b => decide (a ≤ b)) =
      (values'.map EventType.mk).mergeSort fun a b => decide (a ≤ b) :=
  mergeSort_eq_of_perm (f := EventType.val) (perm.map _) fun a _ b _ same => by
    cases a
    cases b
    exact congrArg _ same

theorem padded_all {parts others : List (List Char)} {values : List Nat}
    (padded : List.Forall₂ Padded parts values) (same : List.Forall₂ Respelled parts others) :
    List.Forall₂ Padded others values := by
  induction same generalizing values with
  | nil => exact padded
  | cons first _ ih =>
    cases padded with
    | cons padded rest => exact .cons (padded.respelled first) (ih rest)

theorem Names.restated {values : List Nat} (names : Names text values)
    (same : Restated text other) : ∃ values', values'.Perm values ∧ Names other values' := by
  obtain ⟨parts, perm, spelled⟩ := same
  obtain ⟨values', padded, perm'⟩ := List.perm_comp_forall₂ perm names
  exact ⟨values', perm', padded_all padded spelled⟩

/-- A text is read if its parts are numerals, of different values, and yields these values in
ascending order. Neither the order of the parts nor blanks and leading zeros matter. -/
theorem outputTypes_by_value (text : List Char) :
    ((∃ types, outputTypes text = .ok types) ↔ ∃ values, Names text values ∧ values.Nodup) ∧
    ∀ types, outputTypes text = .ok types →
      (∃ values, Names text values ∧ types.Pairwise (· < ·) ∧ ∀ t, t ∈ types ↔ t.val ∈ values) ∧
      ∀ other, Restated text other → outputTypes other = .ok types := by
  refine ⟨⟨?_, ?_⟩, ?_⟩
  · rintro ⟨types, read⟩
    obtain ⟨values, names, distinct, -⟩ := outputTypes_ok_iff.mp read
    exact ⟨values, names, distinct⟩
  · rintro ⟨values, names, distinct⟩
    exact ⟨_, outputTypes_ok_iff.mpr ⟨values, names, distinct, rfl⟩⟩
  · intro types read
    obtain ⟨values, names, distinct, rfl⟩ := outputTypes_ok_iff.mp read
    refine ⟨⟨values, names, sorted_types distinct, fun t => mem_sorted_types⟩, ?_⟩
    intro other same
    obtain ⟨values', perm, names'⟩ := names.restated same
    exact outputTypes_ok_iff.mpr
      ⟨values', names', perm.nodup_iff.mpr distinct, sorted_types_of_perm perm.symm⟩

theorem turned_types_restated : Restated "2, 1".toList "01\t,2".toList :=
  ⟨[[' ', '1'], ['2']], by decide,
    .cons ⟨[], ['0'], ['\t'], by simp, by simp [isBlank, blankRanges, inRanges], by simp, rfl⟩
      (.cons ⟨[], [], [], by simp, by simp, by simp, rfl⟩ .nil)⟩

theorem turned_types_read : outputTypes "2, 1".toList = .ok [⟨1⟩, ⟨2⟩] ∧
    outputTypes "01\t,2".toList = .ok [⟨1⟩, ⟨2⟩] := by
  have read : outputTypes "2, 1".toList = .ok [⟨1⟩, ⟨2⟩] := by cbv
  exact ⟨read, ((outputTypes_by_value _).2 _ read).2 _ turned_types_restated⟩

example : outputTypes "1, 01".toList = .error (.repeatedOutput ⟨1⟩) := by cbv

end Wiring
end EventFlow

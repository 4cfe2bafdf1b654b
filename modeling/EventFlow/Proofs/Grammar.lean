import EventFlow.Proofs.Wiring
import Mathlib.Data.List.Forall2
import Mathlib.Data.Nat.Digits.Defs

/-!
The grammar of input texts: blocks `P[E,...,E]` between blanks, with entries `T` or `TaM`. Reading
accepts exactly the texts of the grammar, and yields what they say.
-/

namespace EventFlow

/-! ### Cutting text -/

namespace Text

theorem pieces_eq_splitOnP (sep : Char → Bool) (cs : List Char) :
    pieces sep cs = cs.splitOnP sep := by
  induction cs with
  | nil => rfl
  | cons c cs ih =>
    rw [List.splitOnP_cons_eq_if_modifyHead, ← ih, pieces]
    have some := Wiring.pieces_ne_nil sep cs
    cases sep c with
    | true => rfl
    | false =>
      cases all : pieces sep cs with
      | nil => exact absurd all some
      | cons p ps => rfl

theorem cutAt_eq_some {c : Char} {cs before after : List Char} :
    cutAt c cs = some (before, after) ↔ cs = before ++ c :: after ∧ c ∉ before := by
  induction cs generalizing before with
  | nil => simp [cutAt]
  | cons d cs ih =>
    unfold cutAt
    split
    · rename_i same
      subst same
      cases before with
      | nil => simp
      | cons b before =>
        simp only [Option.some.injEq, Prod.mk.injEq, List.nil_eq, reduceCtorEq, false_and,
          List.cons_append, List.cons.injEq, List.mem_cons, not_or, false_iff]
        rintro ⟨⟨rfl, -⟩, differs, -⟩
        exact differs rfl
    · rename_i differs
      rw [Option.map_eq_some_iff]
      constructor
      · rintro ⟨⟨rest, last⟩, found, same⟩
        obtain ⟨rfl, rfl⟩ := Prod.mk.inj same
        obtain ⟨rfl, fresh⟩ := ih.mp found
        exact ⟨rfl, by simpa [fresh] using Ne.symm differs⟩
      · rintro ⟨split, fresh⟩
        cases before with
        | nil => exact absurd (List.cons.inj split).1 differs
        | cons b before =>
          obtain ⟨rfl, rest⟩ := List.cons.inj split
          exact ⟨(before, after),
            ih.mpr ⟨rest, fun mem => fresh (List.mem_cons_of_mem _ mem)⟩, rfl⟩

theorem cutAt_eq_none {c : Char} {cs : List Char} : cutAt c cs = none ↔ c ∉ cs := by
  induction cs with
  | nil => simp [cutAt]
  | cons d cs ih =>
    unfold cutAt
    split
    · rename_i same
      simp [same]
    · rename_i differs
      simp [ih, Ne.symm differs]

theorem not_mem_intercalate {c sep : Char} {parts : List (List Char)} (differs : c ≠ sep)
    (fresh : ∀ part ∈ parts, c ∉ part) : c ∉ [sep].intercalate parts := by
  induction parts with
  | nil => simp [List.intercalate]
  | cons part parts ih =>
    obtain ⟨first, others⟩ := List.forall_mem_cons.mp fresh
    cases parts with
    | nil => rwa [List.intercalate_singleton]
    | cons next parts =>
      rw [List.intercalate_cons_cons]
      simp [first, differs, ih others]

theorem digitsValue_eq_ofDigits (cs : List Char) :
    digitsValue cs = Nat.ofDigits 10 (cs.reverse.map fun c => c.toNat - '0'.toNat) := by
  rw [digitsValue, List.foldl_eq_foldr_reverse, Nat.ofDigits_eq_foldr, List.foldr_map]
  congr 1
  funext c n
  exact Nat.add_comm _ _

end Text

/-! ### The grammar -/

namespace Wiring
open InputDefinition Text

structure Numeral (cs : List Char) (n : Nat) : Prop where
  nonempty : cs ≠ []
  digits : ∀ c ∈ cs, c.isDigit = true
  value : Nat.ofDigits 10 (cs.reverse.map fun c => c.toNat - '0'.toNat) = n
  bounded : n ≤ maxId

inductive Entry (kind? : ModuleId → Option Kind) (producer : ModuleId) :
    List Char → TapRequest → Prop where
  | plain {type : List Char} {t : Nat} : Numeral type t →
    Entry kind? producer type { type := ⟨t⟩, tap := .source }
  | tapped {type tap : List Char} {t m : Nat} : Numeral type t → Numeral tap m →
    kind? ⟨m⟩ = some .processor →
    Entry kind? producer (type ++ 'a' :: tap)
      { type := ⟨t⟩, tap := if (⟨m⟩ : ModuleId) = producer then .source else .after ⟨m⟩ }

/-- A block `P[E,...,E]` for a known producer, with one entry at most for each of its streams. -/
inductive Block (kind? : ModuleId → Option Kind) (known : StreamKey → Bool) :
    List Char → ModuleId × List TapRequest → Prop where
  | mk {producer : List Char} {p : Nat} {entries : List (List Char)} {requests : List TapRequest} :
    Numeral producer p → (kind? ⟨p⟩).isSome = true → entries ≠ [] →
    List.Forall₂ (Entry kind? ⟨p⟩) entries requests → (requests.map (·.type)).Nodup →
    (∀ r ∈ requests, known ⟨⟨p⟩, r.type⟩ = true) →
    Block kind? known (producer ++ '[' :: ([','].intercalate entries ++ [']'])) (⟨p⟩, requests)

/-- A text of blocks between blanks, each for another producer, and the definition that has what
they ask for. -/
structure Writes (kind? : ModuleId → Option Kind) (known : StreamKey → Bool) (text : List Char)
    (blocks : List (ModuleId × List TapRequest)) (d : InputDefinition) : Prop where
  nonempty : blocks ≠ []
  written : List.Forall₂ (Block kind? known)
    ((text.splitOnP isBlank).filter fun word => word ≠ []) blocks
  producers : (blocks.map (·.1)).Nodup
  entries : d.Perm blocks
  ascending : Table.Ascending d

variable {kind? : ModuleId → Option Kind} {known : StreamKey → Bool}
  {consumer producer : ModuleId}

/-! ### Numbers -/

theorem Numeral.not_mem {cs : List Char} {n : Nat} {c : Char} (h : Numeral cs n)
    (other : c.isDigit = false) : c ∉ cs := by
  intro mem
  rw [h.digits c mem] at other
  cases other

theorem readNumber_ok_iff {cs : List Char} {n : Nat} : readNumber cs = .ok n ↔ Numeral cs n := by
  unfold readNumber
  rw [isNumber]
  constructor
  · intro h
    split at h
    · cases h
    · rename_i number
      split at h
      · cases h
      · rename_i bounded
        cases h
        simp only [Bool.not_eq_true', Bool.not_eq_false, Bool.and_eq_true, List.all_eq_true,
          List.isEmpty_eq_false_iff] at number
        exact ⟨number.1, number.2, (digitsValue_eq_ofDigits cs).symm, Nat.not_lt.mp bounded⟩
  · rintro ⟨nonempty, digits, value, bounded⟩
    rw [← digitsValue_eq_ofDigits] at value
    have number : (!cs.isEmpty && cs.all Char.isDigit) = true := by
      simpa [nonempty] using digits
    rw [number, value]
    exact if_neg (Nat.not_lt.mpr bounded)

/-! ### Entries -/

theorem readEntry_plain {entry : List Char} (cut : cutAt 'a' entry = none) {r : TapRequest} :
    readEntry kind? producer entry = .ok r ↔
      ∃ t, Numeral entry t ∧ r = { type := ⟨t⟩, tap := .source } := by
  rw [readEntry, cut]
  dsimp only
  cases read : readNumber entry with
  | error e =>
    refine ⟨fun h => (by cases h), ?_⟩
    rintro ⟨t, numeral, -⟩
    rw [readNumber_ok_iff.mpr numeral] at read
    cases read
  | ok n =>
    have numeral := readNumber_ok_iff.mp read
    constructor
    · intro h
      cases h
      exact ⟨n, numeral, rfl⟩
    · rintro ⟨t, numeral', rfl⟩
      rw [← numeral.value, numeral'.value]

theorem readEntry_tapped {entry type tap : List Char} (cut : cutAt 'a' entry = some (type, tap))
    {r : TapRequest} : readEntry kind? producer entry = .ok r ↔
      ∃ t m, Numeral type t ∧ Numeral tap m ∧ kind? ⟨m⟩ = some .processor ∧
        r = { type := ⟨t⟩
              tap := if (⟨m⟩ : ModuleId) = producer then .source else .after ⟨m⟩ } := by
  rw [readEntry, cut]
  dsimp only
  constructor
  · intro h
    split at h
    · cases h
    · rename_i t first
      unfold readTap at h
      split at h
      · cases h
      · rename_i m second
        split at h
        · cases h
        · rename_i processor
          cases h
          exact ⟨t, m, readNumber_ok_iff.mp first, readNumber_ok_iff.mp second, processor, rfl⟩
        · cases h
  · rintro ⟨t, m, first, second, processor, rfl⟩
    rw [readNumber_ok_iff.mpr first]
    dsimp only
    rw [readTap, readNumber_ok_iff.mpr second]
    dsimp only
    rw [processor]
    rfl

theorem readEntry_ok_iff {entry : List Char} {r : TapRequest} :
    readEntry kind? producer entry = .ok r ↔ Entry kind? producer entry r := by
  constructor
  · intro h
    cases cut : cutAt 'a' entry with
    | none =>
      obtain ⟨t, numeral, rfl⟩ := (readEntry_plain cut).mp h
      exact .plain numeral
    | some parts =>
      obtain ⟨type, tap⟩ := parts
      obtain ⟨t, m, first, second, processor, rfl⟩ := (readEntry_tapped cut).mp h
      obtain ⟨rfl, -⟩ := cutAt_eq_some.mp cut
      exact .tapped first second processor
  · intro h
    cases h with
    | plain numeral =>
      have cut := cutAt_eq_none.mpr (numeral.not_mem (c := 'a') rfl)
      exact (readEntry_plain cut).mpr ⟨_, numeral, rfl⟩
    | @tapped type tap t m first second processor =>
      have cut : cutAt 'a' (type ++ 'a' :: tap) = some (type, tap) :=
        cutAt_eq_some.mpr ⟨rfl, first.not_mem rfl⟩
      exact (readEntry_tapped cut).mpr ⟨t, m, first, second, processor, rfl⟩

theorem Entry.ne_nil {entry : List Char} {r : TapRequest} (h : Entry kind? producer entry r) :
    entry ≠ [] := by
  cases h with
  | plain numeral => exact numeral.nonempty
  | tapped => exact List.append_ne_nil_of_right_ne_nil _ (List.cons_ne_nil _ _)

theorem Entry.not_mem {entry : List Char} {r : TapRequest} {c : Char}
    (h : Entry kind? producer entry r) (other : c.isDigit = false) (mark : c ≠ 'a') :
    c ∉ entry := by
  cases h with
  | plain numeral => exact numeral.not_mem other
  | tapped first second =>
    simp [mark, first.not_mem other, second.not_mem other]

/-- Reading goes on with an entry that is right, of another type than those before it, and for a
stream that is registered; and with no other. -/
theorem readEntries_cons_ok {streams streams' : Streams} {block entry : List Char}
    {entries : List (List Char)} {done requests : List TapRequest} :
    readEntries kind? consumer producer block (entry :: entries) done streams =
        (.ok requests, streams') ↔
      ∃ r, Entry kind? producer entry r ∧ (∀ q ∈ done, q.type ≠ r.type) ∧
        streams.has ⟨producer, r.type⟩ = true ∧
        readEntries kind? consumer producer block entries (done ++ [r])
          (streams.addUser ⟨producer, r.type⟩ consumer) = (.ok requests, streams') := by
  rw [readEntries]
  constructor
  · intro h
    split at h
    · cases h
    · rename_i r read
      dsimp only at h
      split at h
      · cases h
      · rename_i notRepeated
        split at h
        · cases h
        · rename_i registered
          exact ⟨r, readEntry_ok_iff.mp read, by simpa using notRepeated, by simpa using registered,
            h⟩
  · rintro ⟨r, written, fresh, registered, rest⟩
    have notRepeated : done.any (·.type == r.type) = false := by simpa using fresh
    rw [readEntry_ok_iff.mpr written]
    simpa [notRepeated, registered] using rest

theorem types_append_nodup {done : List TapRequest} {r : TapRequest} :
    ((done ++ [r]).map (·.type)).Nodup ↔
      (done.map (·.type)).Nodup ∧ ∀ q ∈ done, q.type ≠ r.type := by
  simp [List.nodup_append]

theorem readEntries_ok_iff (streams : Streams) {block : List Char}
    {entries : List (List Char)} {done requests : List TapRequest}
    (once : (done.map (·.type)).Nodup) :
    (∃ streams', readEntries kind? consumer producer block entries done streams =
      (.ok requests, streams')) ↔
      ∃ new, requests = done ++ new ∧ List.Forall₂ (Entry kind? producer) entries new ∧
        (requests.map (·.type)).Nodup ∧ ∀ r ∈ new, streams.has ⟨producer, r.type⟩ = true := by
  induction entries generalizing done streams with
  | nil =>
    simp only [readEntries, Prod.mk.injEq, Except.ok.injEq, List.forall₂_nil_left_iff]
    constructor
    · rintro ⟨-, rfl, -⟩
      exact ⟨[], by simp, rfl, once, by simp⟩
    · rintro ⟨-, rfl, rfl, -⟩
      exact ⟨streams, by simp, rfl⟩
  | cons entry entries ih =>
    constructor
    · rintro ⟨streams', h⟩
      obtain ⟨r, written, fresh, registered, rest⟩ := readEntries_cons_ok.mp h
      obtain ⟨new, rfl, others, types, all⟩ :=
        (ih _ (types_append_nodup.mpr ⟨once, fresh⟩)).mp ⟨streams', rest⟩
      rw [Streams.has_addUser] at all
      exact ⟨r :: new, by simp, .cons written others, types,
        List.forall_mem_cons.mpr ⟨registered, all⟩⟩
    · rintro ⟨new, rfl, written, types, all⟩
      cases written with
      | @cons _ r _ new first others =>
        obtain ⟨registered, all⟩ := List.forall_mem_cons.mp all
        have split : done ++ r :: new = (done ++ [r]) ++ new := List.append_cons done r new
        have types' := types
        rw [split, List.map_append] at types'
        have upTo := (List.nodup_append.mp types').1
        have fresh := (types_append_nodup.mp upTo).2
        obtain ⟨streams', rest⟩ := (ih (streams.addUser ⟨producer, r.type⟩ consumer) upTo).mpr
          ⟨new, split, others, types, by rwa [Streams.has_addUser]⟩
        exact ⟨streams', readEntries_cons_ok.mpr ⟨r, first, fresh, registered, rest⟩⟩

theorem readAll_ok_iff (streams : Streams) {block : List Char} {entries : List (List Char)}
    {requests : List TapRequest} :
    (∃ streams', readEntries kind? consumer producer block entries [] streams =
      (.ok requests, streams')) ↔
      List.Forall₂ (Entry kind? producer) entries requests ∧
        (requests.map (·.type)).Nodup ∧ ∀ r ∈ requests, streams.has ⟨producer, r.type⟩ = true := by
  have once : (([] : List TapRequest).map (·.type)).Nodup := List.nodup_nil
  rw [readEntries_ok_iff streams once]
  simp

/-! ### Blocks -/

theorem splitBlock_eq_some {block producer inner : List Char} :
    splitBlock block = some (producer, inner) ↔
      block = producer ++ '[' :: (inner ++ [']']) ∧ '[' ∉ producer ∧ inner ≠ [] ∧
        '[' ∉ inner ∧ ']' ∉ inner := by
  rw [splitBlock]
  constructor
  · intro h
    obtain ⟨⟨p, rest⟩, cut, h⟩ := Option.bind_eq_some_iff.mp h
    dsimp only at h
    split at h
    · cases h
    · rename_i well
      obtain ⟨rfl, rfl⟩ := Prod.mk.inj (Option.some.inj h)
      obtain ⟨rfl, fresh⟩ := cutAt_eq_some.mp cut
      simp only [ne_eq, List.isEmpty_iff, List.contains_iff_mem, not_or, Decidable.not_not] at well
      obtain ⟨closed, nonempty, opens, closes⟩ := well
      refine ⟨?_, fresh, nonempty, opens, closes⟩
      rw [List.dropLast_append_getLast? _ closed]
  · rintro ⟨rfl, fresh, nonempty, opens, closes⟩
    have cut : cutAt '[' (producer ++ '[' :: (inner ++ [']'])) = some (producer, inner ++ [']']) :=
      cutAt_eq_some.mpr ⟨rfl, fresh⟩
    rw [cut]
    simp [nonempty, opens, closes]

theorem readBlock_ok_iff {block inner : List Char} :
    readBlock block = .ok (producer, inner) ↔
      ∃ digits, block = digits ++ '[' :: (inner ++ [']']) ∧ Numeral digits producer.val ∧
        inner ≠ [] ∧ '[' ∉ inner ∧ ']' ∉ inner := by
  rw [readBlock]
  constructor
  · intro h
    split at h
    · cases h
    · rename_i digits entries parts
      split at h
      · cases h
      · rename_i n read
        cases h
        obtain ⟨shape, -, well⟩ := splitBlock_eq_some.mp parts
        exact ⟨digits, shape, readNumber_ok_iff.mp read, well⟩
  · rintro ⟨digits, shape, numeral, well⟩
    rw [splitBlock_eq_some.mpr ⟨shape, numeral.not_mem rfl, well⟩]
    dsimp only
    rw [readNumber_ok_iff.mpr numeral]

theorem Block.of_read {streams streams' : Streams} {block inner : List Char}
    {requests : List TapRequest} (shape : readBlock block = .ok (producer, inner))
    (known : (kind? producer).isSome = true)
    (read : readEntries kind? consumer producer block (pieces (· == ',') inner) [] streams =
      (.ok requests, streams')) : Block kind? streams.has block (producer, requests) := by
  obtain ⟨digits, rfl, numeral, -⟩ := readBlock_ok_iff.mp shape
  obtain ⟨written, types, registered⟩ := (readAll_ok_iff streams).mp ⟨streams', read⟩
  rw [pieces_eq_splitOnP, ← List.splitOn_eq_splitOnP] at written
  have joined : [','].intercalate (inner.splitOn ',') = inner := List.intercalate_splitOn ','
  have some : inner.splitOn ',' ≠ [] := List.splitOnP_ne_nil _ inner
  have block := Block.mk numeral known some written types registered
  rwa [joined] at block

theorem Block.reads (consumer : ModuleId) {streams : Streams} {block : List Char}
    {requests : List TapRequest}
    (h : Block kind? streams.has block (producer, requests)) :
    (kind? producer).isSome = true ∧ ∃ inner streams', readBlock block = .ok (producer, inner) ∧
      readEntries kind? consumer producer block (pieces (· == ',') inner) [] streams =
        (.ok requests, streams') := by
  cases h with
  | @mk digits p entries _ numeral known nonempty written types registered =>
    have marks : ∀ c : Char, c.isDigit = false → c ≠ 'a' → ∀ entry ∈ entries, c ∉ entry := by
      intro c other mark
      exact ((List.forall₂_and_left _ _).mp
        (written.imp fun _ _ h => ⟨h.not_mem other mark, h⟩)).1
    have cut : pieces (· == ',') ([','].intercalate entries) = entries := by
      rw [pieces_eq_splitOnP, ← List.splitOn_eq_splitOnP]
      exact List.splitOn_intercalate ',' (marks ',' rfl (by decide)) nonempty
    have some : [','].intercalate entries ≠ [] := by
      intro empty
      rw [empty] at cut
      subst cut
      obtain ⟨r, -, first, -, -⟩ := List.forall₂_cons_left_iff.mp written
      exact first.ne_nil rfl
    have shape : readBlock (digits ++ '[' :: ([','].intercalate entries ++ [']'])) =
        .ok (⟨p⟩, [','].intercalate entries) :=
      readBlock_ok_iff.mpr ⟨digits, rfl, numeral, some,
        not_mem_intercalate (by decide) (marks '[' rfl (by decide)),
        not_mem_intercalate (by decide) (marks ']' rfl (by decide))⟩
    obtain ⟨streams', read⟩ := (readAll_ok_iff streams).mpr ⟨written, types, registered⟩
    exact ⟨known, _, streams', shape, cut.symm ▸ read⟩

theorem readEntries_has {streams streams' : Streams} {block : List Char}
    {entries : List (List Char)} {done requests : List TapRequest}
    (h : readEntries kind? consumer producer block entries done streams =
      (.ok requests, streams')) : streams'.has = streams.has := by
  induction entries generalizing done streams with
  | nil =>
    cases h
    rfl
  | cons entry entries ih =>
    obtain ⟨r, -, -, -, rest⟩ := readEntries_cons_ok.mp h
    exact (ih rest).trans (Streams.has_addUser _ _ _)

theorem readBlocks_cons_ok {streams streams' : Streams} {block : List Char}
    {blocks : List (List Char)} {done d : InputDefinition}
    (h : readBlocks kind? consumer (block :: blocks) done streams = (.ok d, streams')) :
    ∃ producer requests next, producer ∉ Table.keys done ∧
      Block kind? streams.has block (producer, requests) ∧ next.has = streams.has ∧
      readBlocks kind? consumer blocks (Table.put producer requests done) next =
        (.ok d, streams') := by
  rw [readBlocks] at h
  split at h
  · cases h
  · rename_i producer inner shape
    split at h
    · cases h
    · rename_i new
      split at h
      · cases h
      · rename_i known
        rw [Bool.not_eq_true, Option.isNone_eq_false_iff] at known
        split at h
        · cases h
        · rename_i requests next read
          exact ⟨producer, requests, next, mt Table.has_iff.mpr new, .of_read shape known read,
            readEntries_has read, h⟩

theorem readBlocks_ok_iff (streams : Streams) {blocks : List (List Char)}
    {done d : InputDefinition} :
    (∃ streams', readBlocks kind? consumer blocks done streams = (.ok d, streams')) ↔
      ∃ new, List.Forall₂ (Block kind? streams.has) blocks new ∧ (new.map (·.1)).Nodup ∧
        (∀ b ∈ new, b.1 ∉ Table.keys done) ∧
        d = new.foldl (fun t b => Table.put b.1 b.2 t) done := by
  induction blocks generalizing done streams with
  | nil =>
    simp only [readBlocks, Prod.mk.injEq, Except.ok.injEq, List.forall₂_nil_left_iff]
    constructor
    · rintro ⟨-, rfl, -⟩
      exact ⟨[], rfl, List.nodup_nil, by simp, rfl⟩
    · rintro ⟨-, rfl, -, -, rfl⟩
      exact ⟨streams, rfl, rfl⟩
  | cons block blocks ih =>
    constructor
    · rintro ⟨streams', h⟩
      obtain ⟨p, requests, next, absent, first, same, rest⟩ := readBlocks_cons_ok h
      obtain ⟨new, written, once, fresh, rfl⟩ := (ih next).mp ⟨streams', rest⟩
      rw [same] at written
      have apart : ∀ b ∈ new, b.1 ≠ p ∧ b.1 ∉ Table.keys done := by
        intro b hb
        exact not_or.mp fun mem => fresh b hb (Table.mem_keys_put.mpr mem)
      refine ⟨(p, requests) :: new, .cons first written, ?_, ?_, rfl⟩
      · refine List.nodup_cons.mpr ⟨fun mem => ?_, once⟩
        obtain ⟨b, hb, same⟩ := List.mem_map.mp mem
        exact (apart b hb).1 same
      · exact List.forall_mem_cons.mpr ⟨absent, fun b hb => (apart b hb).2⟩
    · rintro ⟨new, written, once, fresh, rfl⟩
      cases written with
      | @cons _ b _ new first written =>
        obtain ⟨p, requests⟩ := b
        obtain ⟨apart, once⟩ := List.nodup_cons.mp once
        obtain ⟨absent, fresh⟩ := List.forall_mem_cons.mp fresh
        obtain ⟨known, inner, next, shape, read⟩ := first.reads consumer
        have later : ∀ b ∈ new, b.1 ∉ Table.keys (Table.put p requests done) := by
          intro b hb mem
          rcases Table.mem_keys_put.mp mem with same | old
          · exact apart (List.mem_map.mpr ⟨b, hb, same⟩)
          · exact fresh b hb old
        obtain ⟨streams', rest⟩ := (ih next).mpr
          ⟨new, readEntries_has read ▸ written, once, later, rfl⟩
        refine ⟨streams', ?_⟩
        rw [readBlocks, shape]
        dsimp only
        have notMissing : ¬ (kind? p).isNone = true := by
          simpa [Option.isSome_iff_ne_none] using known
        rw [if_neg (mt Table.has_iff.mp absent), if_neg notMissing, read]
        exact rest

/-! ### Texts -/

theorem words_eq (cs : List Char) :
    words cs = (cs.splitOnP isBlank).filter fun word => word ≠ [] := by
  rw [words, pieces_eq_splitOnP]
  exact List.filter_congr fun word _ => by cases word <;> rfl

theorem entries_iff {blocks : List (ModuleId × List TapRequest)} {d : InputDefinition}
    (once : (blocks.map (·.1)).Nodup) :
    d = blocks.foldl (fun t b => Table.put b.1 b.2 t) [] ↔ d.Perm blocks ∧ Table.Ascending d := by
  have perm := Table.foldl_put_perm (t := []) once (fun _ _ => List.not_mem_nil)
  have ascending : Table.Ascending (blocks.foldl (fun t b => Table.put b.1 b.2 t) []) :=
    Table.foldl_put_ascending Table.ascending_nil
  constructor
  · rintro rfl
    exact ⟨perm, ascending⟩
  · rintro ⟨entries, sorted⟩
    have same := entries.trans perm.symm
    exact Table.eq_of_mem sorted ascending fun _ => same.mem_iff

theorem inputDefinition_ok_iff {text : List Char} {streams streams' : Streams}
    {d : InputDefinition} : inputDefinition kind? consumer text streams = (.ok d, streams') ↔
      readBlocks kind? consumer (words text) [] streams = (.ok d, streams') ∧ d ≠ [] := by
  rw [inputDefinition]
  split
  · rename_i empty
    rw [empty]
    constructor
    · intro h
      cases h
    · rintro ⟨h, some⟩
      cases h
      exact absurd rfl some
  · rename_i some
    constructor
    · intro h
      refine ⟨h, ?_⟩
      rintro rfl
      exact some _ h
    · exact And.left

theorem inputDefinition_writes_iff {text : List Char} {streams : Streams} {d : InputDefinition} :
    (∃ streams', inputDefinition kind? consumer text streams = (.ok d, streams')) ↔
      ∃ blocks, Writes kind? streams.has text blocks d := by
  simp only [inputDefinition_ok_iff, exists_and_right, readBlocks_ok_iff, words_eq]
  constructor
  · rintro ⟨⟨blocks, written, once, -, built⟩, some⟩
    obtain ⟨entries, ascending⟩ := (entries_iff once).mp built
    refine ⟨blocks, ?_, written, once, entries, ascending⟩
    rintro rfl
    exact some built
  · rintro ⟨blocks, nonempty, written, once, entries, ascending⟩
    refine ⟨⟨blocks, written, once, fun _ _ => List.not_mem_nil,
      (entries_iff once).mpr ⟨entries, ascending⟩⟩, ?_⟩
    rintro rfl
    exact nonempty (List.nil_perm.mp entries)

/-- Reading accepts exactly the texts of the grammar. The definition has what they ask for, and the
consumer is enrolled once on each of these streams and on no other. -/
theorem reads_exactly_grammar (kind? : ModuleId → Option Kind) (consumer : ModuleId)
    (text : List Char) (streams : Streams) (d : InputDefinition) (streams' : Streams) :
    inputDefinition kind? consumer text streams = (.ok d, streams') ↔
      (∃ blocks, Writes kind? streams.has text blocks d) ∧
        Enrolled streams consumer d streams' := by
  constructor
  · intro h
    exact ⟨inputDefinition_writes_iff.mp ⟨streams', h⟩, (inputDefinition_ok h).2.1⟩
  · rintro ⟨written, enrolled⟩
    obtain ⟨after, h⟩ := inputDefinition_writes_iff.mpr written
    have same : after.list = streams'.list := (inputDefinition_ok h).2.1.trans enrolled.symm
    have same : after = streams' := by
      cases after
      cases streams'
      exact congrArg _ same
    exact same ▸ h

example : inputDefinition (fun m => if m = ⟨5⟩ then some .processor else some .source) ⟨9⟩
      " 1[1,02a5]".toList ⟨[{ key := ⟨⟨1⟩, ⟨1⟩⟩ }, { key := ⟨⟨1⟩, ⟨2⟩⟩ }]⟩ =
    (.ok [(⟨1⟩, [{ type := ⟨1⟩, tap := .source }, { type := ⟨2⟩, tap := .after ⟨5⟩ }])],
      ⟨[{ key := ⟨⟨1⟩, ⟨1⟩⟩, users := [⟨9⟩] }, { key := ⟨⟨1⟩, ⟨2⟩⟩, users := [⟨9⟩] }]⟩) := by
  cbv

end Wiring
end EventFlow

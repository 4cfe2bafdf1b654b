import EventFlow.Wiring
import EventFlow.Proofs.Streams

/-!
What reading a wiring text yields. A definition that was read asks for every stream at most once
(`Distinct`), names only streams and taps that exist (`Wiring.Valid`), and its consumer is enrolled
on exactly the streams that it asks for (`Wiring.Enrolled`).
-/

namespace EventFlow

namespace InputDefinition

def request? (d : InputDefinition) (k : StreamKey) : Option TapRequest :=
  (Table.value? d k.producer).bind fun requests => requests.find? fun r => r.type == k.type

/-- Producers ascend, each with at least one request, and with one request at most for a type. -/
structure Distinct (d : InputDefinition) : Prop where
  ascending : Table.Ascending d
  types : ∀ e ∈ d, (e.2.map (·.type)).Nodup
  nonempty : ∀ e ∈ d, e.2 ≠ []

theorem request?_type {d : InputDefinition} {k : StreamKey} {r : TapRequest}
    (h : d.request? k = some r) : r.type = k.type := by
  obtain ⟨requests, -, found⟩ := Option.bind_eq_some_iff.mp h
  simpa using List.find?_some found

theorem find?_type_of_mem {requests : List TapRequest} {r : TapRequest}
    (types : (requests.map (·.type)).Nodup) (h : r ∈ requests) :
    requests.find? (fun q => q.type == r.type) = some r := by
  induction requests with
  | nil => cases h
  | cons q requests ih =>
    obtain ⟨fresh, rest⟩ := List.nodup_cons.mp types
    rcases List.mem_cons.mp h with rfl | h
    · simp
    · have differs : q.type ≠ r.type := fun same =>
        fresh (List.mem_map.mpr ⟨r, h, same.symm⟩)
      rw [List.find?_cons_of_neg (by simpa using differs)]
      exact ih rest h

theorem mem_requests_iff {d : InputDefinition} (distinct : d.Distinct) {p : ModuleId}
    {r : TapRequest} : (p, r) ∈ d.requests ↔ d.request? ⟨p, r.type⟩ = some r := by
  simp only [requests, List.mem_flatMap, List.mem_map, Prod.mk.injEq]
  constructor
  · rintro ⟨⟨q, requests⟩, entry, s, hs, rfl, rfl⟩
    simp only [request?, Table.value?_of_mem distinct.ascending entry, Option.bind_some]
    exact find?_type_of_mem (distinct.types _ entry) hs
  · intro h
    obtain ⟨requests, found, hr⟩ := Option.bind_eq_some_iff.mp h
    exact ⟨_, Table.mem_of_value? found, r, List.mem_of_find?_eq_some hr, rfl, rfl⟩

theorem mem_requests_of_request? {d : InputDefinition} {k : StreamKey} {r : TapRequest}
    (h : d.request? k = some r) : (k.producer, r) ∈ d.requests := by
  obtain ⟨requests, found, hr⟩ := Option.bind_eq_some_iff.mp h
  exact List.mem_flatMap.mpr ⟨_, Table.mem_of_value? found,
    List.mem_map.mpr ⟨r, List.mem_of_find?_eq_some hr, rfl⟩⟩

theorem mem_keys_iff {d : InputDefinition} (distinct : d.Distinct) {p : ModuleId} :
    p ∈ Table.keys d ↔ ∃ t r, d.request? ⟨p, t⟩ = some r := by
  rw [Table.mem_keys_iff]
  constructor
  · rintro ⟨requests, found⟩
    have entry := Table.mem_of_value? found
    have nonempty : requests ≠ [] := distinct.nonempty _ entry
    obtain ⟨r, hr⟩ := List.exists_mem_of_ne_nil _ nonempty
    refine ⟨r.type, r, ?_⟩
    simp only [request?, found, Option.bind_some]
    exact find?_type_of_mem (distinct.types _ entry) hr
  · rintro ⟨t, r, h⟩
    obtain ⟨requests, found, -⟩ := Option.bind_eq_some_iff.mp h
    exact ⟨requests, found⟩

theorem requests_keys_nodup {d : InputDefinition} (distinct : d.Distinct) :
    (d.requests.map fun r => (⟨r.1, r.2.type⟩ : StreamKey)).Nodup := by
  obtain ⟨ascending, types, -⟩ := distinct
  induction d with
  | nil => simp [requests]
  | cons e d ih =>
    obtain ⟨below, rest⟩ := List.pairwise_cons.mp ascending
    simp only [requests, List.flatMap_cons, List.map_append] at ih ⊢
    refine List.nodup_append.mpr
      ⟨?_, ih rest fun f hf => types f (List.mem_cons_of_mem _ hf), ?_⟩
    · have own := types e List.mem_cons_self
      rw [List.map_map]
      refine List.Nodup.of_map StreamKey.type ?_
      simpa [Function.comp_def] using own
    · intro a ha b hb same
      simp only [List.map_map, List.mem_map, Function.comp_apply, List.mem_flatMap] at ha hb
      obtain ⟨r, -, rfl⟩ := ha
      obtain ⟨⟨q, s⟩, ⟨f, hf, t, -, hq⟩, rfl⟩ := hb
      have later := below f.1 (List.mem_map_of_mem hf)
      simp only [Prod.mk.injEq] at hq
      rw [StreamKey.mk.injEq, ← hq.1] at same
      exact Nat.lt_irrefl _ (same.1 ▸ later)

theorem request?_put {d : InputDefinition} {p : ModuleId} {requests : List TapRequest}
    (k : StreamKey) : request? (Table.put p requests d) k =
      if p = k.producer then requests.find? (fun r => r.type == k.type) else d.request? k := by
  simp only [request?, Table.value?_put]
  split <;> rfl

theorem put_distinct {d : InputDefinition} {p : ModuleId} {requests : List TapRequest}
    (distinct : d.Distinct) (types : (requests.map (·.type)).Nodup) (nonempty : requests ≠ []) :
    Distinct (Table.put p requests d) := by
  have entries : ∀ e ∈ (Table.put p requests d : InputDefinition), e = (p, requests) ∨ e ∈ d := by
    intro e he
    have found := Table.value?_of_mem (Table.put_ascending distinct.ascending) he
    rw [Table.value?_put] at found
    split at found
    · rename_i same
      cases found
      exact Or.inl (by rw [same])
    · exact Or.inr (Table.mem_of_value? found)
  refine ⟨Table.put_ascending distinct.ascending, fun e he => ?_, fun e he => ?_⟩
  · rcases entries e he with rfl | he
    · exact types
    · exact distinct.types e he
  · rcases entries e he with rfl | he
    · exact nonempty
    · exact distinct.nonempty e he

end InputDefinition

namespace Wiring
open InputDefinition

def TapKnown (kind? : ModuleId → Option Kind) (producer : ModuleId) (tap : Tap) : Prop :=
  ∀ m, tap = .after m → kind? m = some .processor ∧ m ≠ producer

/-- Every request is for a registered stream of a known module, at a tap that is known. -/
structure Valid (kind? : ModuleId → Option Kind) (streams : Streams) (d : InputDefinition) :
    Prop where
  distinct : d.Distinct
  stream : ∀ k r, d.request? k = some r → streams.has k = true
  producer : ∀ k r, d.request? k = some r → (kind? k.producer).isSome = true
  tap : ∀ k r, d.request? k = some r → TapKnown kind? k.producer r.tap
  unmarked : ∀ k r, d.request? k = some r → r.copyNeeded = false

/-- `streams` is `base` with the consumer as last user of every stream that it asks for. -/
def Enrolled (base : Streams) (consumer : ModuleId) (d : InputDefinition) (streams : Streams) :
    Prop :=
  streams.list = base.list.map fun s =>
    if (d.request? s.key).isSome then { s with users := s.users ++ [consumer] } else s

theorem Enrolled.has {base streams : Streams} {consumer : ModuleId} {d : InputDefinition}
    (h : Enrolled base consumer d streams) (k : StreamKey) : streams.has k = base.has k :=
  Streams.has_map h (fun s => by split <;> rfl) k

variable {kind? : ModuleId → Option Kind} {consumer producer : ModuleId}

theorem readTap_known {entry tap : List Char} {t : Tap}
    (h : readTap kind? producer entry tap = .ok t) : TapKnown kind? producer t := by
  unfold readTap at h
  split at h
  · cases h
  · split at h
    · cases h
    · rename_i n _ processor
      cases h
      intro m hm
      split at hm
      · cases hm
      · rename_i differs
        cases hm
        exact ⟨processor, differs⟩
    · cases h

theorem readEntry_known {entry : List Char} {r : TapRequest}
    (h : readEntry kind? producer entry = .ok r) :
    TapKnown kind? producer r.tap ∧ r.copyNeeded = false := by
  unfold readEntry at h
  dsimp only at h
  split at h
  · cases h
  · split at h
    · cases h
      exact ⟨fun m hm => (by cases hm), rfl⟩
    · rename_i tap _
      cases known : readTap kind? producer entry tap with
      | error e => simp [known, Except.map] at h
      | ok t =>
        simp only [known, Except.map, Except.ok.injEq] at h
        subst h
        exact ⟨readTap_known known, rfl⟩

theorem enrolled_addUser {base streams : Streams} {d : InputDefinition} {done : List TapRequest}
    {r : TapRequest} (fresh : ∀ q ∈ done, q.type ≠ r.type)
    (h : Enrolled base consumer (Table.put producer done d) streams) :
    Enrolled base consumer (Table.put producer (done ++ [r]) d)
      (streams.addUser ⟨producer, r.type⟩ consumer) := by
  unfold Enrolled at h ⊢
  rw [Streams.addUser, h, List.map_map]
  refine List.map_congr_left fun s _ => ?_
  simp only [Function.comp_apply, request?_put, List.find?_append]
  by_cases same : s.key = ⟨producer, r.type⟩
  · have absent : done.find? (fun q => q.type == r.type) = none := by
      simpa [List.find?_eq_none] using fresh
    simp [same, absent]
  · by_cases hp : producer = s.key.producer
    · have typeDiffers : ¬ r.type = s.key.type := fun e =>
        same (StreamKey.ext_iff_fields.mpr ⟨hp.symm, e.symm⟩)
      have apart : s.key ≠ ⟨s.key.producer, r.type⟩ := hp ▸ same
      cases done.find? fun q => q.type == s.key.type <;> simp [hp, typeDiffers, apart]
    · cases d.request? s.key <;> simp [hp, same]

theorem readEntries_ok {base streams streams' : Streams} {d : InputDefinition} {block : List Char}
    {entries : List (List Char)} {done requests : List TapRequest}
    (h : readEntries kind? consumer producer block entries done streams = (.ok requests, streams'))
    (types : (done.map (·.type)).Nodup)
    (known : ∀ r ∈ done, base.has ⟨producer, r.type⟩ = true ∧ TapKnown kind? producer r.tap ∧
      r.copyNeeded = false)
    (enrolled : Enrolled base consumer (Table.put producer done d) streams) :
    (requests.map (·.type)).Nodup ∧ requests.length = done.length + entries.length ∧
      (∀ r ∈ requests, base.has ⟨producer, r.type⟩ = true ∧ TapKnown kind? producer r.tap ∧
        r.copyNeeded = false) ∧
      Enrolled base consumer (Table.put producer requests d) streams' := by
  induction entries generalizing done streams with
  | nil =>
    cases h
    exact ⟨types, rfl, known, enrolled⟩
  | cons entry entries ih =>
    unfold readEntries at h
    split at h
    · cases h
    · rename_i r read
      dsimp only at h
      split at h
      · cases h
      · rename_i notRepeated
        have fresh : ∀ q ∈ done, q.type ≠ r.type := by simpa using notRepeated
        split at h
        · cases h
        · rename_i registered
          obtain ⟨tap, unmarked⟩ := readEntry_known read
          have has : base.has ⟨producer, r.type⟩ = true := by
            rw [← enrolled.has]
            simpa using registered
          obtain ⟨nodup, count, all, done'⟩ := ih h
            (by
              rw [List.map_append]
              refine List.nodup_append.mpr ⟨types, List.nodup_singleton _, ?_⟩
              intro a ha b hb same
              obtain ⟨q, hq, rfl⟩ := List.mem_map.mp ha
              exact fresh q hq (same.trans (List.mem_singleton.mp hb)))
            (by
              intro q hq
              rcases List.mem_append.mp hq with hq | hq
              · exact known q hq
              · obtain rfl := List.mem_singleton.mp hq
                exact ⟨has, tap, unmarked⟩)
            (enrolled_addUser fresh enrolled)
          refine ⟨nodup, ?_, all, done'⟩
          rw [count, List.length_append, List.length_singleton, List.length_cons]
          omega

theorem pieces_ne_nil (sep : Char → Bool) (cs : List Char) : Text.pieces sep cs ≠ [] := by
  cases cs with
  | nil => simp [Text.pieces]
  | cons c cs =>
    unfold Text.pieces
    split <;> simp

theorem readBlocks_ok {base streams streams' : Streams} {blocks : List (List Char)}
    {done d : InputDefinition}
    (h : readBlocks kind? consumer blocks done streams = (.ok d, streams'))
    (valid : Valid kind? base done) (enrolled : Enrolled base consumer done streams) :
    Valid kind? base d ∧ Enrolled base consumer d streams' := by
  induction blocks generalizing done streams with
  | nil =>
    cases h
    exact ⟨valid, enrolled⟩
  | cons block blocks ih =>
    unfold readBlocks at h
    split at h
    · cases h
    · rename_i producer inner _
      split at h
      · cases h
      · rename_i newProducer
        split at h
        · cases h
        · rename_i knownProducer
          split at h
          · cases h
          · rename_i requests next read
            have absent : Table.value? done producer = none := by
              simpa [Table.has] using newProducer
            have start : Enrolled base consumer (Table.put producer [] done) streams := by
              refine Eq.trans enrolled (List.map_congr_left fun s _ => ?_)
              rw [request?_put]
              by_cases hp : producer = s.key.producer
              · have none : request? done s.key = none := by rw [request?, ← hp, absent]; rfl
                simp [hp, none]
              · simp [hp]
            obtain ⟨types, count, known, finished⟩ :=
              readEntries_ok read List.nodup_nil (by simp) start
            have nonempty : requests ≠ [] := by
              have some := List.length_pos_iff.mpr (pieces_ne_nil (· == ',') inner)
              rw [List.length_nil] at count
              exact List.length_pos_iff.mp (by omega)
            refine ih h ⟨put_distinct valid.distinct types nonempty, ?_, ?_, ?_, ?_⟩ finished
            all_goals
              intro k r hr
              rw [request?_put] at hr
              split at hr
              · rename_i same
                have type : r.type = k.type := by simpa using List.find?_some hr
                obtain ⟨has, tap, unmarked⟩ := known r (List.mem_of_find?_eq_some hr)
                rw [same, type] at has
                rw [same] at tap knownProducer
                first
                  | exact has
                  | exact tap
                  | exact unmarked
                  | simpa [Option.isSome_iff_ne_none] using knownProducer
              · first
                  | exact valid.stream k r hr
                  | exact valid.producer k r hr
                  | exact valid.tap k r hr
                  | exact valid.unmarked k r hr

theorem inputDefinition_ok {text : List Char} {streams streams' : Streams} {d : InputDefinition}
    (h : inputDefinition kind? consumer text streams = (.ok d, streams')) :
    Valid kind? streams d ∧ Enrolled streams consumer d streams' ∧ d ≠ [] := by
  unfold inputDefinition at h
  split at h
  · cases h
  · rename_i nonempty
    have start : Valid kind? streams [] :=
      ⟨⟨List.Pairwise.nil, by simp, by simp⟩, by simp [request?], by simp [request?],
        by simp [request?], by simp [request?]⟩
    obtain ⟨valid, enrolled⟩ := readBlocks_ok h start (by simp [Enrolled, request?])
    exact ⟨valid, enrolled, fun empty => nonempty streams' (by rw [h, empty])⟩

/-! ### Output types -/

theorem readTypes_nodup {text : List Char} {parts : List (List Char)} {done types : List EventType}
    (h : readTypes text done parts = .ok types) (nodup : done.Nodup) : types.Nodup := by
  induction parts generalizing done with
  | nil =>
    cases h
    exact nodup
  | cons part parts ih =>
    unfold readTypes at h
    dsimp only at h
    split at h
    · cases h
    · split at h
      · cases h
      · split at h
        · cases h
        · rename_i n _ fresh
          refine ih h (List.nodup_append.mpr ⟨nodup, List.nodup_singleton _, ?_⟩)
          intro a ha b hb same
          obtain rfl := List.mem_singleton.mp hb
          exact fresh (by simpa using same ▸ ha)

theorem outputTypes_nodup {text : List Char} {types : List EventType}
    (h : outputTypes text = .ok types) : types.Nodup := by
  unfold outputTypes at h
  cases read : readTypes text [] (Text.pieces (· == ',') text) with
  | error e => simp [read, Except.map] at h
  | ok ts =>
    simp only [read, Except.map, Except.ok.injEq] at h
    subst h
    exact (List.mergeSort_perm _ _).nodup_iff.mpr (readTypes_nodup read List.nodup_nil)

end Wiring

/-! ### Marked copies -/

namespace InputDefinition

theorem value?_markCopies (d : InputDefinition) (specs : List InputSpec) (p : ModuleId) :
    Table.value? (d.markCopies specs) p = (Table.value? d p).map fun requests =>
      requests.map fun r =>
        { r with copyNeeded := r.copyNeeded || specs.any fun s =>
          s.mutates && s.type.accepts r.type } := by
  induction d with
  | nil => rfl
  | cons e d ih =>
    obtain ⟨q, requests⟩ := e
    simp only [markCopies, List.map_cons] at ih ⊢
    rw [Table.value?_cons, Table.value?_cons, ih]
    split <;> rfl

theorem request?_markCopies (d : InputDefinition) (specs : List InputSpec) (k : StreamKey) :
    (d.markCopies specs).request? k = (d.request? k).map fun r =>
      { r with copyNeeded := r.copyNeeded || specs.any fun s =>
        s.mutates && s.type.accepts r.type } := by
  simp only [request?, value?_markCopies]
  cases Table.value? d k.producer with
  | none => rfl
  | some requests => simp [List.find?_map, Function.comp_def]

theorem markCopies_distinct {d : InputDefinition} {specs : List InputSpec} (h : d.Distinct) :
    (d.markCopies specs).Distinct := by
  refine ⟨?_, ?_, ?_⟩
  · simpa [markCopies, Table.Ascending, Table.keys, Function.comp_def] using h.ascending
  · intro e he
    obtain ⟨f, hf, rfl⟩ := List.mem_map.mp he
    simpa [Function.comp_def] using h.types f hf
  · intro e he
    obtain ⟨f, hf, rfl⟩ := List.mem_map.mp he
    simpa using h.nonempty f hf

end InputDefinition
end EventFlow

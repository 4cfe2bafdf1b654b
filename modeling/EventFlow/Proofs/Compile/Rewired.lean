import EventFlow.Proofs.Compile.Wired

/-!
The wiring of the same declarations in another order. Reading an input depends on which streams
there are, not on who uses them yet, so every text is read as before; only the users of a stream
come in the order of the declarations (`Streams.Shuffled`).
-/

namespace EventFlow

def Streams.Shuffled (r r' : Streams) : Prop :=
  ∃ users : Stream → List ModuleId,
    r'.list = r.list.map (fun s => { s with users := users s }) ∧
      ∀ s ∈ r.list, (users s).Perm s.users

theorem Streams.Shuffled.prune {r r' : Streams} (h : r.Shuffled r') :
    r.prune.Shuffled r'.prune := by
  obtain ⟨users, list, perm⟩ := h
  refine ⟨users, ?_, fun s mem => perm s (Streams.mem_prune.mp mem).1⟩
  have same : ∀ s ∈ r.list, (!(users s).isEmpty) = !s.users.isEmpty := fun s mem => by
    rw [(perm s mem).isEmpty_eq]
  rw [Streams.prune, Streams.prune, list, List.filter_map]
  exact congrArg (List.map _) (List.filter_congr same)

namespace Wiring

variable (kind? : ModuleId → Option Kind) (consumer producer : ModuleId)

/-! ### Which streams there are -/

def SameKeys (r r' : Streams) : Prop := ∀ k, r.has k = r'.has k

theorem SameKeys.addUser {r r' : Streams} (same : SameKeys r r') (k : StreamKey)
    (user : ModuleId) : SameKeys (r.addUser k user) (r'.addUser k user) := by
  intro l
  rw [Streams.has_addUser, Streams.has_addUser, same l]

theorem readEntries_congr (block : List Char) (entries : List (List Char))
    (done : List TapRequest) {r r' : Streams} (same : SameKeys r r') :
    (readEntries kind? consumer producer block entries done r).1 =
      (readEntries kind? consumer producer block entries done r').1 ∧
    SameKeys (readEntries kind? consumer producer block entries done r).2
      (readEntries kind? consumer producer block entries done r').2 := by
  induction entries generalizing done r r' with
  | nil => exact ⟨rfl, same⟩
  | cons entry entries ih =>
    unfold readEntries
    cases readEntry kind? producer entry with
    | error e => exact ⟨rfl, same⟩
    | ok q =>
      simp only [← same ⟨producer, q.type⟩]
      split
      · exact ⟨rfl, same⟩
      · split
        · exact ⟨rfl, same⟩
        · exact ih _ (same.addUser _ _)

theorem readBlocks_congr (blocks : List (List Char)) (done : InputDefinition) {r r' : Streams}
    (same : SameKeys r r') :
    (readBlocks kind? consumer blocks done r).1 = (readBlocks kind? consumer blocks done r').1 := by
  induction blocks generalizing done r r' with
  | nil => rfl
  | cons block blocks ih =>
    unfold readBlocks
    cases readBlock block with
    | error e => rfl
    | ok b =>
      obtain ⟨producer, inner⟩ := b
      obtain ⟨entries, keys⟩ := readEntries_congr kind? consumer producer block
        (Text.pieces (· == ',') inner) [] same
      dsimp only
      split
      · rfl
      · split
        · rfl
        · revert entries keys
          generalize readEntries kind? consumer producer block _ [] r = a
          generalize readEntries kind? consumer producer block _ [] r' = a'
          obtain ⟨read, left⟩ := a
          obtain ⟨read', left'⟩ := a'
          rintro (rfl : read = read') keys
          cases read with
          | error e => rfl
          | ok requests => exact ih _ keys

theorem inputDefinition_congr (text : List Char) {r r' : Streams} (same : SameKeys r r') :
    (inputDefinition kind? consumer text r).1 = (inputDefinition kind? consumer text r').1 := by
  have blocks := readBlocks_congr kind? consumer (Text.words text) [] same
  unfold inputDefinition
  revert blocks
  generalize readBlocks kind? consumer _ [] r = a
  generalize readBlocks kind? consumer _ [] r' = a'
  obtain ⟨read, left⟩ := a
  obtain ⟨read', left'⟩ := a'
  rintro (rfl : read = read')
  split <;> split <;> simp_all

end Wiring

namespace Compile
open Wiring

variable {decls decls' : List Decl} {w w' : Wired}

/-! ### What is known of the declarations -/

theorem find?_perm (perm : decls.Perm decls') (nodup : (decls.map (·.id)).Nodup) (id : ModuleId) :
    (decls.find? fun d => d.id == id) = decls'.find? fun d => d.id == id := by
  induction perm with
  | nil => rfl
  | cons d _ ih => rw [List.find?_cons, List.find?_cons, ih (List.nodup_cons.mp nodup).2]
  | swap d c l =>
    obtain ⟨fresh, -⟩ := List.nodup_cons.mp nodup
    have differs : c.id ≠ d.id := fun same => fresh (by simp [same])
    by_cases h : c.id = id
    · subst h
      simp [Ne.symm differs]
    · simp [List.find?_cons, h]
  | trans perm _ ih ih' => exact (ih nodup).trans (ih' ((perm.map _).nodup_iff.mp nodup))

theorem kind?_perm (perm : decls.Perm decls') (nodup : (decls.map (·.id)).Nodup) :
    kind? decls' = kind? decls := by
  funext id
  rw [kind?, kind?, find?_perm perm nodup]

theorem name_perm (perm : decls.Perm decls') (nodup : (decls.map (·.id)).Nodup) :
    name decls' = name decls := by
  funext id
  rw [name, name, find?_perm perm nodup]

theorem checkIds_of_nodup {seen : List ModuleId} (nodup : (decls.map (·.id)).Nodup)
    (apart : ∀ d ∈ decls, d.id ∉ seen) : checkIds seen decls = .ok () := by
  induction decls generalizing seen with
  | nil => rfl
  | cons d decls ih =>
    obtain ⟨fresh, nodup⟩ := List.nodup_cons.mp nodup
    obtain ⟨unseen, apart⟩ := List.forall_mem_cons.mp apart
    rw [checkIds, if_neg (by simpa using unseen)]
    refine ih nodup fun c mem => List.not_mem_cons_of_ne_of_not_mem ?_ (apart c mem)
    exact fun same => fresh (List.mem_map.mpr ⟨c, mem, same⟩)

theorem forM_perm {ε α : Type} {f : α → Except ε Unit} {l l' : List α} (perm : l.Perm l')
    (h : l.forM f = .ok ()) : l'.forM f = .ok () :=
  forM_of_forall fun a mem => forM_ok h a (perm.mem_iff.mpr mem)

theorem countKind_perm (perm : decls.Perm decls') (k : Kind) :
    countKind decls' k = countKind decls k := (perm.countP_eq _).symm

/-! ### Outputs -/

theorem Registered.perm {streams : Streams} {outputs : Table ModuleId (List EventType)}
    (perm : decls.Perm decls') (h : Registered decls' streams outputs) :
    Registered decls streams outputs := by
  have same (p : Decl → Prop) : (∃ d ∈ decls', p d) ↔ ∃ d ∈ decls, p d :=
    exists_congr fun d => and_congr_left fun _ => perm.symm.mem_iff
  refine ⟨h.ascending, fun id types => ?_, fun k s => ?_⟩
  · rw [h.outputs_iff, same]
  · rw [h.stream_iff, same]

theorem readOutputs_ascending {streams streams' : Streams}
    {outputs outputs' : Table ModuleId (List EventType)} (asc : outputs.Ascending)
    (h : readOutputs decls streams outputs = .ok (streams', outputs')) : outputs'.Ascending := by
  induction decls generalizing streams outputs with
  | nil =>
    cases h
    exact asc
  | cons d decls ih =>
    unfold readOutputs at h
    split at h
    · exact ih asc h
    · split at h
      · cases h
      · exact ih (Table.put_ascending asc) h

theorem readOutputs_total {streams : Streams} {outputs : Table ModuleId (List EventType)} :
    (∃ r, readOutputs decls streams outputs = .ok r) ↔
      ∀ d ∈ decls, d.kind ≠ .sink → ∃ types, d.outputTypes = .ok types := by
  induction decls generalizing streams outputs with
  | nil => simp [readOutputs]
  | cons d decls ih =>
    unfold readOutputs
    rw [List.forall_mem_cons]
    split
    · rename_i sink
      rw [ih]
      simp [sink]
    · rename_i emits
      cases d.outputTypes with
      | error e => simp [emits]
      | ok types =>
        simp only [ih]
        simp

theorem readOutputs_perm {streams : Streams} {outputs : Table ModuleId (List EventType)}
    (perm : decls.Perm decls') (nodup : (decls.map (·.id)).Nodup)
    (h : readOutputs decls {} [] = .ok (streams, outputs)) :
    readOutputs decls' {} [] = .ok (streams, outputs) := by
  have each := readOutputs_total.mp ⟨_, h⟩
  obtain ⟨⟨streams', outputs'⟩, h'⟩ := readOutputs_total.mpr fun d mem =>
    each d (perm.mem_iff.mpr mem)
  have nodup' := (perm.map _).nodup_iff.mp nodup
  have first : Registered decls streams outputs := readOutputs_registered registered_nil nodup h
  have second : Registered decls streams' outputs' :=
    Registered.perm perm (readOutputs_registered registered_nil nodup' h')
  have same : streams' = streams := Streams.ext_of_find? second.ascending first.ascending
    fun k => Option.ext fun s => (second.stream_iff k s).trans (first.stream_iff k s).symm
  have same' : outputs' = outputs := by
    refine Table.ext_of_value? (readOutputs_ascending Table.ascending_nil h')
      (readOutputs_ascending Table.ascending_nil h) ?_
    exact fun id => Option.ext fun types =>
      (second.outputs_iff id types).trans (first.outputs_iff id types).symm
  rw [h', same, same']

/-! ### Inputs -/

theorem readInput_congr {d : Decl} {r r' t : Streams} {definition : InputDefinition}
    (kinds : kind? decls' = kind? decls) (same : SameKeys r r')
    (h : readInput decls d r = .ok (definition, t)) :
    ∃ t', readInput decls' d r' = .ok (definition, t') := by
  have read := inputDefinition_congr (kind? decls) d.id (d.input.getD "").toList same
  unfold readInput at h ⊢
  rw [kinds]
  revert h read
  generalize inputDefinition (kind? decls) d.id _ r = a
  generalize inputDefinition (kind? decls) d.id _ r' = a'
  obtain ⟨result, left⟩ := a
  obtain ⟨result', left'⟩ := a'
  rintro h (rfl : result = result')
  cases result with
  | error e => cases h
  | ok raw =>
    dsimp only at h ⊢
    split at h
    · cases h
    · cases h
      exact ⟨left', rfl⟩

variable {all l : List Decl} {base streams streams' : Streams}
  {inputs inputs' : Table ModuleId InputDefinition}

theorem readInput_sameKeys {d : Decl} {definition : InputDefinition} (same : SameKeys streams base)
    (h : readInput all d streams = .ok (definition, streams')) : SameKeys streams' base :=
  fun k => ((readInput_ok h).1.has k).trans (same k)

theorem readInputs_ascending (asc : inputs.Ascending)
    (h : readInputs all l streams inputs = .ok (streams', inputs')) : inputs'.Ascending := by
  induction l generalizing streams inputs with
  | nil =>
    cases h
    exact asc
  | cons d l ih =>
    unfold readInputs at h
    split at h
    · exact ih asc h
    · split at h
      · cases h
      · exact ih (Table.put_ascending asc) h

theorem readInputs_keeps {id : ModuleId} (other : id ∉ l.map (·.id))
    (h : readInputs all l streams inputs = .ok (streams', inputs')) :
    Table.value? inputs' id = Table.value? inputs id := by
  induction l generalizing streams inputs with
  | nil =>
    cases h
    rfl
  | cons d l ih =>
    obtain ⟨apart, other⟩ := List.ne_and_not_mem_of_not_mem_cons other
    unfold readInputs at h
    split at h
    · exact ih other h
    · split at h
      · cases h
      · rw [ih other h, Table.value?_put, if_neg (Ne.symm apart)]

/-- Every definition is read as if nobody used the streams yet. -/
theorem readInputs_each (nodup : (l.map (·.id)).Nodup) (same : SameKeys streams base)
    (h : readInputs all l streams inputs = .ok (streams', inputs')) :
    ∀ d ∈ l, d.kind ≠ .source → ∃ definition t, readInput all d base = .ok (definition, t) ∧
      Table.value? inputs' d.id = some definition := by
  induction l generalizing streams inputs with
  | nil => simp
  | cons d l ih =>
    obtain ⟨fresh, nodup⟩ := List.nodup_cons.mp nodup
    unfold readInputs at h
    rw [List.forall_mem_cons]
    split at h
    · rename_i source
      exact ⟨fun consumer => absurd source consumer, ih nodup same h⟩
    · split at h
      · cases h
      · rename_i definition next read
        refine ⟨fun _ => ?_, ih nodup (readInput_sameKeys same read) h⟩
        obtain ⟨t, again⟩ := readInput_congr rfl same read
        refine ⟨definition, t, again, ?_⟩
        rw [readInputs_keeps fresh h, Table.value?_put, if_pos rfl]

theorem readInputs_total (same : SameKeys streams base)
    (each : ∀ d ∈ l, d.kind ≠ .source →
      ∃ definition t, readInput all d base = .ok (definition, t)) :
    ∃ r, readInputs all l streams inputs = .ok r := by
  induction l generalizing streams inputs with
  | nil => exact ⟨_, rfl⟩
  | cons d l ih =>
    obtain ⟨own, each⟩ := List.forall_mem_cons.mp each
    unfold readInputs
    split
    · exact ih same each
    · rename_i consumer
      obtain ⟨definition, t, read⟩ := own consumer
      obtain ⟨t', again⟩ := readInput_congr rfl (fun k => (same k).symm) read
      rw [again]
      exact ih (readInput_sameKeys same again) each

theorem readInputs_perm (perm : decls.Perm decls') (nodup : (decls.map (·.id)).Nodup)
    (h : readInputs decls decls base [] = .ok (streams, inputs)) :
    ∃ streams', readInputs decls' decls' base [] = .ok (streams', inputs) := by
  have kinds := kind?_perm perm nodup
  have nodup' := (perm.map _).nodup_iff.mp nodup
  have here : SameKeys base base := fun _ => rfl
  have each := readInputs_each nodup here h
  have total : ∃ r, readInputs decls' decls' base [] = .ok r := by
    refine readInputs_total here fun d mem consumer => ?_
    obtain ⟨definition, t, read, -⟩ := each d (perm.mem_iff.mpr mem) consumer
    exact ⟨definition, readInput_congr kinds here read⟩
  obtain ⟨⟨streams', inputs'⟩, h'⟩ := total
  have each' := readInputs_each nodup' here h'
  have known := (readInputs_consumers (consumers_nil decls base) nodup h).consumer_iff
  have known' := (readInputs_consumers (consumers_nil decls' base) nodup' h').consumer_iff
  have same : inputs' = inputs := by
    refine Table.ext_of_value? (readInputs_ascending Table.ascending_nil h')
      (readInputs_ascending Table.ascending_nil h) ?_
    intro id
    by_cases declared : ∃ d ∈ decls, d.id = id ∧ d.kind ≠ .source
    · obtain ⟨d, mem, rfl, consumer⟩ := declared
      obtain ⟨definition, t, read, value⟩ := each d mem consumer
      obtain ⟨definition', t', read', value'⟩ := each' d (perm.mem_iff.mp mem) consumer
      obtain ⟨t'', again⟩ := readInput_congr kinds here read
      rw [read'] at again
      cases again
      rw [value, value']
    · have absent : Table.value? inputs id = none :=
        Option.eq_none_iff_forall_ne_some.mpr fun a found =>
          declared ((known id).mp ⟨a, found⟩)
      have absent' : Table.value? inputs' id = none := by
        refine Option.eq_none_iff_forall_ne_some.mpr fun a found => declared ?_
        obtain ⟨d, mem, fine⟩ := (known' id).mp ⟨a, found⟩
        exact ⟨d, perm.mem_iff.mpr mem, fine⟩
      rw [absent, absent']
  exact ⟨streams', same ▸ h'⟩

/-! ### Together -/

/-- The same wiring, with the users of a stream perhaps in another order. -/
structure Wired.Alike (w w' : Wired) : Prop where
  streams : w.streams.Shuffled w'.streams
  outputs : w'.outputs = w.outputs
  inputs : w'.inputs = w.inputs

theorem askers_perm (perm : decls.Perm decls') (inputs : Table ModuleId InputDefinition)
    (k : StreamKey) : (askers inputs decls' k).Perm (askers inputs decls k) :=
  (perm.symm.filter _).map _

theorem wire_perm (perm : decls.Perm decls') (h : wire decls = .ok w) :
    ∃ w', wire decls' = .ok w' ∧ w.Alike w' := by
  unfold wire at h
  obtain ⟨⟨⟩, ids, h⟩ := bind_ok h
  obtain ⟨⟨⟩, checks, h⟩ := bind_ok h
  obtain ⟨⟨⟩, endpoints, h⟩ := bind_ok h
  obtain ⟨⟨base, outputs⟩, readOut, h⟩ := bind_ok h
  obtain ⟨⟨streams, inputs⟩, readIn, h⟩ := bind_ok h
  cases h
  have nodup := (checkIds_nodup ids).1
  have nodup' := (perm.map _).nodup_iff.mp nodup
  have ids' : checkIds [] decls' = .ok () := checkIds_of_nodup nodup' (by simp)
  have endpoints' : checkEndpoints decls' = .ok () := by
    rwa [checkEndpoints, countKind_perm perm, countKind_perm perm]
  obtain ⟨streams', readIn'⟩ := readInputs_perm perm nodup readIn
  have registered := readOutputs_registered registered_nil nodup readOut
  have enrolled := (readInputs_consumers (consumers_nil decls base) nodup readIn).enrolled
  have enrolled' := (readInputs_consumers (consumers_nil decls' base) nodup' readIn').enrolled
  have shuffled : streams.Shuffled streams' := by
    refine ⟨fun s => askers inputs decls' s.key, ?_, fun s mem => ?_⟩
    · rw [enrolled', enrolled, List.map_map]
      refine List.map_congr_left fun s mem => ?_
      rw [registered.unused s mem]
      rfl
    · rw [enrolled] at mem
      obtain ⟨t, ht, rfl⟩ := List.mem_map.mp mem
      rw [registered.unused t ht]
      exact askers_perm perm inputs t.key
  refine ⟨⟨streams'.prune, streams'.unused, outputs, inputs⟩, ?_, shuffled.prune, rfl, rfl⟩
  simp only [wire, ids', forM_perm perm checks, endpoints', readOutputs_perm perm nodup readOut,
    readIn', bind, Except.bind, pure, Except.pure]

end Compile
end EventFlow

import EventFlow.Compile
import EventFlow.Proofs.Attempts
import EventFlow.Proofs.Wiring

/-!
The wiring of checked declarations. `Registered` describes the streams and outputs, `Consumers` the
input definitions and the users, each over the declarations read so far; `wire_consistent` sums up
what holds of all of them.
-/

namespace EventFlow.Compile
open Wiring

theorem request?_eq (inputs : Table ModuleId InputDefinition) (id : ModuleId) (k : StreamKey) :
    request? inputs id k = (Table.value? inputs id).bind (·.request? k) := rfl

theorem request?_type {inputs : Table ModuleId InputDefinition} {id : ModuleId} {k : StreamKey}
    {r : TapRequest} (h : request? inputs id k = some r) : r.type = k.type := by
  obtain ⟨d, -, asked⟩ := Option.bind_eq_some_iff.mp (request?_eq inputs id k ▸ h)
  exact InputDefinition.request?_type asked

theorem checkIds_nodup {seen : List ModuleId} {decls : List Decl}
    (h : checkIds seen decls = .ok ()) :
    (decls.map (·.id)).Nodup ∧ ∀ d ∈ decls, d.id ∉ seen := by
  induction decls generalizing seen with
  | nil => simp
  | cons d decls ih =>
    unfold checkIds at h
    split at h
    · cases h
    · rename_i fresh
      obtain ⟨nodup, apart⟩ := ih h
      refine ⟨List.nodup_cons.mpr ⟨fun mem => ?_, nodup⟩, fun c hc => ?_⟩
      · obtain ⟨c, hc, same⟩ := List.mem_map.mp mem
        exact apart c hc (List.mem_cons.mpr (Or.inl same))
      · rcases List.mem_cons.mp hc with rfl | hc
        · simpa using fresh
        · exact fun seen => apart c hc (List.mem_cons_of_mem _ seen)

theorem fresh_of_nodup {pre post : List Decl} {d : Decl}
    (h : ((pre ++ d :: post).map (·.id)).Nodup) : d.id ∉ pre.map (·.id) := by
  rw [List.map_append, List.map_cons] at h
  exact fun mem => (List.nodup_append.mp h).2.2 _ mem _ List.mem_cons_self rfl

/-! ### Outputs -/

theorem chained_pairwise {ts : List EventType}
    (h : chained (fun a b => decide (a < b)) ts = true) : ts.Pairwise (· < ·) := by
  induction ts with
  | nil => exact List.Pairwise.nil
  | cons a ts ih =>
    cases ts with
    | nil => exact List.pairwise_singleton _ _
    | cons b ts =>
      simp only [chained, Bool.and_eq_true, decide_eq_true_eq] at h
      have tail := ih h.2
      refine List.pairwise_cons.mpr ⟨fun c hc => ?_, tail⟩
      rcases List.mem_cons.mp hc with rfl | hc
      · exact h.1
      · exact Nat.lt_trans h.1 ((List.pairwise_cons.mp tail).1 c hc)

theorem checkOutputs_of_validate {info : ModuleInfo} (h : info.validate = .ok ()) :
    info.checkOutputs = .ok () := by
  unfold ModuleInfo.validate at h
  cases kind : info.checkKind with
  | error e => simp [kind, bind, Except.bind] at h
  | ok u =>
    cases ins : ModuleInfo.checkInputs (info.inputs.length == 1) none info.inputs with
    | error e => simp [kind, ins, bind, Except.bind] at h
    | ok v => simpa [kind, ins, bind, Except.bind] using h

theorem fixedOutputs_nodup {info : ModuleInfo} (h : info.checkOutputs = .ok ())
    (fixed : info.undefinedOutput = false) : info.fixedOutputs.Nodup := by
  unfold ModuleInfo.checkOutputs at h
  split at h
  · rename_i undefined
    split at h
    · rename_i single
      obtain ⟨o, same⟩ := List.length_eq_one_iff.mp single
      simp only [same, List.contains_cons, List.contains_nil, Bool.or_false, beq_iff_eq]
        at undefined
      simp [ModuleInfo.undefinedOutput, same, ← undefined] at fixed
    · cases h
  · split at h
    · rename_i ascending
      refine (chained_pairwise ascending).imp ?_
      rintro a b below rfl
      exact Nat.lt_irrefl _ below
    · cases h

theorem outputTypes_nodup {d : Decl} {types : List EventType} (check : d.check = .ok ())
    (h : d.outputTypes = .ok types) : types.Nodup := by
  unfold Decl.outputTypes at h
  split at h
  · split at h
    · cases h
    · rename_i read
      cases h
      exact Wiring.outputTypes_nodup read
  · rename_i fixed
    cases h
    unfold Decl.check at check
    split at check
    · cases check
    · rename_i valid
      exact fixedOutputs_nodup (checkOutputs_of_validate valid) (by simpa using fixed)

def Emits (d : Decl) (k : StreamKey) : Prop :=
  d.id = k.producer ∧ d.kind ≠ .sink ∧ ∃ types, d.outputTypes = .ok types ∧ k.type ∈ types

structure Registered (decls : List Decl) (streams : Streams)
    (outputs : Table ModuleId (List EventType)) : Prop where
  ascending : streams.Ascending
  outputs_iff : ∀ id types, Table.value? outputs id = some types ↔
    ∃ d ∈ decls, d.id = id ∧ d.kind ≠ .sink ∧ d.outputTypes = .ok types
  stream_iff : ∀ k s, streams.find? k = some s ↔
    ∃ d ∈ decls, Emits d k ∧ s = { key := k, fromProcessor := d.kind == .processor }

theorem registered_nil : Registered [] {} [] :=
  ⟨List.Pairwise.nil, by simp, by simp [Streams.find?]⟩

theorem Registered.unused {decls : List Decl} {streams : Streams}
    {outputs : Table ModuleId (List EventType)} (h : Registered decls streams outputs) :
    ∀ s ∈ streams.list, s.users = [] := by
  intro s hs
  obtain ⟨d, -, -, same⟩ := (h.stream_iff _ _).mp (Streams.find?_of_mem h.ascending hs)
  rw [same]

theorem registerTypes_ascending {d : Decl} {types : List EventType} {streams : Streams}
    (asc : streams.Ascending) : (registerTypes d types streams).Ascending := by
  induction types generalizing streams with
  | nil => exact asc
  | cons t types ih => exact ih (Streams.register_ascending asc)

theorem find?_registerTypes {d : Decl} {types : List EventType} {streams : Streams}
    (k : StreamKey) : (registerTypes d types streams).find? k =
      if d.id = k.producer ∧ k.type ∈ types then
        some ((streams.find? k).getD { key := k, fromProcessor := d.kind == .processor })
      else streams.find? k := by
  induction types generalizing streams with
  | nil => simp [registerTypes]
  | cons t types ih =>
    have unfolded : registerTypes d (t :: types) streams =
        registerTypes d types (streams.register ⟨d.id, t⟩ (d.kind == .processor)) := rfl
    rw [unfolded, ih, Streams.find?_register]
    by_cases same : (⟨d.id, t⟩ : StreamKey) = k
    · subst same
      simp
    · by_cases hp : d.id = k.producer
      · have differs : k.type ≠ t := fun e => same (StreamKey.ext_iff_fields.mpr ⟨hp, e.symm⟩)
        simp [same, differs]
      · simp [hp, same]

theorem registered_sink {pre : List Decl} {d : Decl} {streams : Streams}
    {outputs : Table ModuleId (List EventType)} (h : Registered pre streams outputs)
    (sink : d.kind = .sink) : Registered (pre ++ [d]) streams outputs := by
  refine ⟨h.ascending, fun id types => ?_, fun k s => ?_⟩
  · rw [h.outputs_iff]
    simp [or_and_right, exists_or, sink]
  · rw [h.stream_iff]
    simp [or_and_right, exists_or, Emits, sink]

theorem registered_put {pre : List Decl} {d : Decl} {streams : Streams}
    {outputs : Table ModuleId (List EventType)} {types : List EventType}
    (h : Registered pre streams outputs) (fresh : d.id ∉ pre.map (·.id)) (emits : d.kind ≠ .sink)
    (read : d.outputTypes = .ok types) :
    Registered (pre ++ [d]) (registerTypes d types streams) (Table.put d.id types outputs) := by
  have apart : ∀ c ∈ pre, c.id ≠ d.id := fun c hc same => fresh (List.mem_map.mpr ⟨c, hc, same⟩)
  refine ⟨registerTypes_ascending h.ascending, fun id ts => ?_, fun k s => ?_⟩
  · rw [Table.value?_put]
    by_cases same : d.id = id
    · subst same
      simp only [if_true, Option.some.injEq, List.mem_append, List.mem_singleton]
      constructor
      · rintro rfl
        exact ⟨d, Or.inr rfl, rfl, emits, read⟩
      · rintro ⟨c, hc | rfl, hid, -, hread⟩
        · exact absurd hid (apart c hc)
        · exact Except.ok.inj (read.symm.trans hread)
    · rw [if_neg same, h.outputs_iff]
      simp [or_and_right, exists_or, same]
  · rw [find?_registerTypes]
    by_cases mine : d.id = k.producer ∧ k.type ∈ types
    · have absent : streams.find? k = none := by
        cases found : streams.find? k with
        | none => rfl
        | some s =>
          obtain ⟨c, hc, ⟨hid, -⟩, -⟩ := (h.stream_iff k s).mp found
          exact absurd (hid.trans mine.1.symm) (apart c hc)
      rw [if_pos mine, absent, Option.getD_none, Option.some.injEq]
      constructor
      · rintro rfl
        exact ⟨d, by simp, ⟨mine.1, emits, types, read, mine.2⟩, rfl⟩
      · rintro ⟨c, hc, ⟨hid, -⟩, rfl⟩
        rcases List.mem_append.mp hc with hc | hc
        · exact absurd (hid.trans mine.1.symm) (apart c hc)
        · rw [List.mem_singleton.mp hc]
    · have notMine : ¬ Emits d k := by
        rintro ⟨hid, -, ts, hread, hk⟩
        rw [read] at hread
        cases hread
        exact mine ⟨hid, hk⟩
      rw [if_neg mine, h.stream_iff]
      simp [or_and_right, exists_or, notMine]

theorem readOutputs_registered {pre decls : List Decl} {streams streams' : Streams}
    {outputs outputs' : Table ModuleId (List EventType)} (h : Registered pre streams outputs)
    (nodup : ((pre ++ decls).map (·.id)).Nodup)
    (read : readOutputs decls streams outputs = .ok (streams', outputs')) :
    Registered (pre ++ decls) streams' outputs' := by
  induction decls generalizing pre streams outputs with
  | nil =>
    cases read
    simpa using h
  | cons d decls ih =>
    have fresh := fresh_of_nodup nodup
    rw [List.append_cons] at nodup ⊢
    unfold readOutputs at read
    split at read
    · rename_i sink
      exact ih (registered_sink h sink) nodup read
    · rename_i emits
      split at read
      · cases read
      · rename_i types ok
        exact ih (registered_put h fresh emits ok) nodup read

/-! ### Inputs -/

def askers (inputs : Table ModuleId InputDefinition) (decls : List Decl) (k : StreamKey) :
    List ModuleId :=
  (decls.filter fun d => (request? inputs d.id k).isSome).map (·.id)

/-- The definitions are those of the declared consumers, and each has its consumer enrolled on the
streams that it asks for, in the order of the declarations. -/
structure Consumers (all decls : List Decl) (base streams : Streams)
    (inputs : Table ModuleId InputDefinition) : Prop where
  enrolled : streams.list = base.list.map fun s =>
    { s with users := s.users ++ askers inputs decls s.key }
  consumer_iff : ∀ id, (∃ d, Table.value? inputs id = some d) ↔
    ∃ d ∈ decls, d.id = id ∧ d.kind ≠ .source
  distinct : ∀ id d, Table.value? inputs id = some d → d.Distinct ∧ d ≠ []
  known : ∀ id k r, request? inputs id k = some r → base.has k = true ∧
    (kind? all k.producer).isSome = true ∧ TapKnown (kind? all) k.producer r.tap

theorem consumers_nil (all : List Decl) (base : Streams) : Consumers all [] base base [] :=
  ⟨by simp [askers], by simp, by simp, by simp [request?_eq]⟩

theorem readInput_ok {decls : List Decl} {d : Decl} {streams streams' : Streams}
    {definition : InputDefinition} (h : readInput decls d streams = .ok (definition, streams')) :
    Enrolled streams d.id definition streams' ∧ definition.Distinct ∧ definition ≠ [] ∧
      ∀ k r, definition.request? k = some r → streams.has k = true ∧
        (kind? decls k.producer).isSome = true ∧ TapKnown (kind? decls) k.producer r.tap := by
  unfold readInput at h
  split at h
  · cases h
  · rename_i raw next read
    split at h
    · cases h
    · cases h
      obtain ⟨valid, enrolled, nonempty⟩ := inputDefinition_ok read
      refine ⟨?_, InputDefinition.markCopies_distinct valid.distinct, ?_, fun k r hr => ?_⟩
      · simpa [Enrolled, InputDefinition.request?_markCopies] using enrolled
      · simpa [InputDefinition.markCopies] using nonempty
      · rw [InputDefinition.request?_markCopies] at hr
        obtain ⟨q, hq, rfl⟩ := Option.map_eq_some_iff.mp hr
        exact ⟨valid.stream k q hq, valid.producer k q hq, valid.tap k q hq⟩

theorem consumers_source {all pre : List Decl} {d : Decl} {base streams : Streams}
    {inputs : Table ModuleId InputDefinition} (h : Consumers all pre base streams inputs)
    (fresh : d.id ∉ pre.map (·.id)) (source : d.kind = .source) :
    Consumers all (pre ++ [d]) base streams inputs := by
  have none : Table.value? inputs d.id = none := by
    cases found : Table.value? inputs d.id with
    | none => rfl
    | some definition =>
      obtain ⟨c, hc, same, -⟩ := (h.consumer_iff d.id).mp ⟨definition, found⟩
      exact absurd (List.mem_map.mpr ⟨c, hc, same⟩) fresh
  refine ⟨?_, fun id => ?_, h.distinct, h.known⟩
  · simpa [askers, request?_eq, none] using h.enrolled
  · rw [h.consumer_iff]
    simp [or_and_right, exists_or, source]

theorem consumers_put {all pre : List Decl} {d : Decl} {base streams streams' : Streams}
    {inputs : Table ModuleId InputDefinition} {definition : InputDefinition}
    (h : Consumers all pre base streams inputs) (fresh : d.id ∉ pre.map (·.id))
    (consumer : d.kind ≠ .source) (read : readInput all d streams = .ok (definition, streams')) :
    Consumers all (pre ++ [d]) base streams' (Table.put d.id definition inputs) := by
  obtain ⟨enrolled, distinct, nonempty, known⟩ := readInput_ok read
  have apart : ∀ c ∈ pre, d.id ≠ c.id := fun c hc same =>
    fresh (List.mem_map.mpr ⟨c, hc, same.symm⟩)
  have has : ∀ k, streams.has k = base.has k := Streams.has_map h.enrolled fun _ => rfl
  refine ⟨?_, fun id => ?_, fun id e he => ?_, fun id k r hr => ?_⟩
  · rw [enrolled, h.enrolled, List.map_map]
    refine List.map_congr_left fun s _ => ?_
    have others :
        (pre.filter fun c => (request? (Table.put d.id definition inputs) c.id s.key).isSome) =
        pre.filter fun c => (request? inputs c.id s.key).isSome := by
      refine List.filter_congr fun c hc => ?_
      rw [request?_eq, Table.value?_put, if_neg (apart c hc), request?_eq]
    have own : request? (Table.put d.id definition inputs) d.id s.key =
        definition.request? s.key := by
      rw [request?_eq, Table.value?_put, if_pos rfl]
      rfl
    simp only [Function.comp_apply, askers, List.filter_append, others, List.map_append,
      List.filter_cons, own, List.filter_nil]
    split <;> simp
  · rw [Table.value?_put]
    by_cases same : d.id = id
    · simp only [same, if_true]
      exact ⟨fun _ => ⟨d, by simp, same, consumer⟩, fun _ => ⟨definition, rfl⟩⟩
    · rw [if_neg same, h.consumer_iff]
      simp [or_and_right, exists_or, same]
  · rw [Table.value?_put] at he
    split at he
    · cases he
      exact ⟨distinct, nonempty⟩
    · exact h.distinct id e he
  · rw [request?_eq, Table.value?_put] at hr
    split at hr
    · obtain ⟨has', producer, tap⟩ := known k r hr
      exact ⟨has k ▸ has', producer, tap⟩
    · exact h.known id k r hr

theorem readInputs_consumers {all pre decls : List Decl} {base streams streams' : Streams}
    {inputs inputs' : Table ModuleId InputDefinition} (h : Consumers all pre base streams inputs)
    (nodup : ((pre ++ decls).map (·.id)).Nodup)
    (read : readInputs all decls streams inputs = .ok (streams', inputs')) :
    Consumers all (pre ++ decls) base streams' inputs' := by
  induction decls generalizing pre streams inputs with
  | nil =>
    cases read
    simpa using h
  | cons d decls ih =>
    have fresh := fresh_of_nodup nodup
    rw [List.append_cons] at nodup ⊢
    unfold readInputs at read
    split at read
    · rename_i source
      exact ih (consumers_source h fresh source) nodup read
    · rename_i consumer
      split at read
      · cases read
      · rename_i ok
        exact ih (consumers_put h fresh consumer ok) nodup read

/-! ### Together -/

/-- What the stages after the reading of the wiring rely on. -/
structure Wired.Consistent (decls : List Decl) (w : Wired) : Prop where
  ids : (decls.map (·.id)).Nodup
  consumer_iff : ∀ id, (∃ d, Table.value? w.inputs id = some d) ↔
    ∃ d ∈ decls, d.id = id ∧ d.kind ≠ .source
  distinct : ∀ id d, Table.value? w.inputs id = some d → d.Distinct ∧ d ≠ []
  tap : ∀ id k r, request? w.inputs id k = some r → TapKnown (kind? decls) k.producer r.tap
  ascending : w.streams.Ascending
  users : ∀ s ∈ w.streams.list, s.users = askers w.inputs decls s.key
  used : ∀ s ∈ w.streams.list, s.users ≠ []
  asked : ∀ id k r, request? w.inputs id k = some r → w.streams.has k = true
  emitted : ∀ s ∈ w.streams.list, ∃ d ∈ decls, Emits d s.key ∧
    s.fromProcessor = (d.kind == .processor)
  outputs_iff : ∀ id types, Table.value? w.outputs id = some types ↔
    ∃ d ∈ decls, d.id = id ∧ d.kind ≠ .sink ∧ d.outputTypes = .ok types
  outputs : ∀ id types, Table.value? w.outputs id = some types → types.Nodup

theorem forM_ok {ε α : Type} {f : α → Except ε Unit} {l : List α} (h : l.forM f = .ok ()) :
    ∀ a ∈ l, f a = .ok () := by
  induction l with
  | nil => simp
  | cons a l ih =>
    obtain ⟨⟨⟩, head, tail⟩ := bind_ok h
    exact List.forall_mem_cons.mpr ⟨head, ih tail⟩

theorem forM_of_forall {ε α : Type} {f : α → Except ε Unit} {l : List α}
    (h : ∀ a ∈ l, f a = .ok ()) : l.forM f = .ok () := by
  induction l with
  | nil => rfl
  | cons a l ih =>
    obtain ⟨head, tail⟩ := List.forall_mem_cons.mp h
    have step : (a :: l).forM f = f a >>= fun _ => l.forM f := rfl
    rw [step, head]
    exact ih tail

theorem wire_consistent {decls : List Decl} {w : Wired} (h : wire decls = .ok w) :
    Wired.Consistent decls w := by
  unfold wire at h
  obtain ⟨⟨⟩, ids, h⟩ := bind_ok h
  obtain ⟨⟨⟩, checks, h⟩ := bind_ok h
  obtain ⟨⟨⟩, -, h⟩ := bind_ok h
  obtain ⟨⟨base, outputs⟩, readOut, h⟩ := bind_ok h
  obtain ⟨⟨streams, inputs⟩, readIn, h⟩ := bind_ok h
  cases h
  have nodup := (checkIds_nodup ids).1
  have registered : Registered decls base outputs :=
    readOutputs_registered registered_nil nodup readOut
  have consumers : Consumers decls decls base streams inputs :=
    readInputs_consumers (consumers_nil decls base) nodup readIn
  have find : ∀ k, streams.find? k = (base.find? k).map fun s =>
      { s with users := s.users ++ askers inputs decls s.key } :=
    Streams.find?_map consumers.enrolled fun _ => rfl
  have members : ∀ s ∈ streams.list, s.users = askers inputs decls s.key ∧
      ∃ d ∈ decls, Emits d s.key ∧ s.fromProcessor = (d.kind == .processor) := by
    intro s hs
    rw [consumers.enrolled] at hs
    obtain ⟨t, ht, rfl⟩ := List.mem_map.mp hs
    obtain ⟨d, hd, emits, same⟩ :=
      (registered.stream_iff _ _).mp (Streams.find?_of_mem registered.ascending ht)
    exact ⟨by rw [registered.unused t ht, List.nil_append], d, hd, emits, by rw [same]⟩
  have ascending : streams.Ascending :=
    Streams.map_ascending consumers.enrolled (fun _ => rfl) registered.ascending
  refine ⟨nodup, consumers.consumer_iff, consumers.distinct,
    fun id k r hr => (consumers.known id k r hr).2.2, Streams.prune_ascending ascending,
    fun s hs => (members s (Streams.mem_prune.mp hs).1).1, fun s hs => (Streams.mem_prune.mp hs).2,
    fun id k r hr => ?_, fun s hs => (members s (Streams.mem_prune.mp hs).1).2,
    registered.outputs_iff, fun id types ht => ?_⟩
  · obtain ⟨base', producer, -⟩ := consumers.known id k r hr
    obtain ⟨s, found⟩ := Streams.has_iff.mp base'
    have key := Streams.find?_key found
    have there := find k
    rw [found, Option.map_some] at there
    obtain ⟨definition, hd, -⟩ := Option.bind_eq_some_iff.mp (request?_eq inputs id k ▸ hr)
    obtain ⟨d, mem, same, -⟩ := (consumers.consumer_iff id).mp ⟨definition, hd⟩
    have asker : id ∈ askers inputs decls k :=
      List.mem_map.mpr ⟨d, List.mem_filter.mpr ⟨mem, by rw [same, hr]; rfl⟩, same⟩
    have kept : ({ s with users := s.users ++ askers inputs decls s.key } : Stream) ∈
        streams.prune.list := by
      refine Streams.mem_prune.mpr ⟨Streams.mem_of_find? there, ?_⟩
      rw [key]
      exact List.ne_nil_of_mem (List.mem_append_right _ asker)
    have found' := Streams.find?_of_mem (Streams.prune_ascending ascending) kept
    exact Streams.has_iff.mpr ⟨_, key ▸ found'⟩
  · obtain ⟨d, hd, -, -, read⟩ := (registered.outputs_iff id types).mp ht
    exact outputTypes_nodup (forM_ok checks d hd) read

end EventFlow.Compile

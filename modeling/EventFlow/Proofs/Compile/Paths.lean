import EventFlow.Proofs.Compile.Accounts
import EventFlow.Proofs.Compile.Agreement
import EventFlow.Proofs.Compile.Rewired

/-!
No module of a plan is dead: whatever is planned lies on a path of data from a source to a sink. A
module that is no source asks for some stream, whose producer comes before it; one that is no sink
has a stream that somebody uses, or leaves one that somebody taps after it, and those come later.
-/

namespace EventFlow
open Relation

/-- Data goes from a producer to the users of its streams, and from a processor that modifies a
stream to the modules that tap the stream after it. -/
inductive Plan.Feeds (decls : List Decl) (p : Plan) : ModuleId → ModuleId → Prop where
  | stream {s : Stream} {u : ModuleId} : s ∈ p.streams.list → u ∈ s.users →
    Feeds decls p s.key.producer u
  | tap {m u : ModuleId} {k : StreamKey} {q r : TapRequest} : DeclaredAs decls .processor m →
    p.Requests m k q → q.copyNeeded → p.Requests u k r → r.tap = .after m → Feeds decls p m u

namespace Compile

variable {decls : List Decl} {generation : Nat} {plan : Plan} {w : Wired} {id : ModuleId}

theorem kind?_of_mem (nodup : (decls.map (·.id)).Nodup) {d : Decl} (mem : d ∈ decls) :
    kind? decls d.id = some d.kind := by
  have some : (decls.find? fun c => c.id == d.id).isSome = true :=
    List.find?_isSome.mpr ⟨d, mem, by simp⟩
  obtain ⟨c, found⟩ := Option.isSome_iff_exists.mp some
  have same : c.id = d.id := by simpa using List.find?_some found
  obtain rfl := List.inj_on_of_nodup_map nodup (List.mem_of_find?_eq_some found) mem same
  rw [kind?, found, Option.map_some]

theorem wire_inputs_ascending (h : wire decls = .ok w) : w.inputs.Ascending := by
  unfold wire at h
  obtain ⟨⟨⟩, -, h⟩ := bind_ok h
  obtain ⟨⟨⟩, -, h⟩ := bind_ok h
  obtain ⟨⟨⟩, -, h⟩ := bind_ok h
  obtain ⟨⟨base, outputs⟩, -, h⟩ := bind_ok h
  obtain ⟨⟨streams, inputs⟩, read, h⟩ := bind_ok h
  cases h
  exact readInputs_ascending Table.ascending_nil read

theorem mem_tapped (h : w.Consistent decls) (ascending : w.inputs.Ascending)
    (mem : id ∈ tapped w.inputs) : ∃ u k r, request? w.inputs u k = some r ∧ r.tap = .after id := by
  obtain ⟨⟨u, d⟩, entry, mem⟩ := List.mem_flatMap.mp mem
  obtain ⟨⟨p, r⟩, asks, tap⟩ := List.mem_filterMap.mp mem
  have found := Table.value?_of_mem ascending entry
  have asked := (InputDefinition.mem_requests_iff (h.distinct u d found).1).mp asks
  refine ⟨u, ⟨p, r.type⟩, r, by rw [request?_eq, found, Option.bind_some, asked], ?_⟩
  cases at_ : r.tap with
  | source => simp [at_] at tap
  | after m => simpa [at_] using tap

namespace Compiled

theorem declared (h : Compiled decls plan w) (placed : id ∈ plan.order) :
    ∃ d ∈ decls, d.id = id :=
  List.mem_map.mp (h.arranged.perm.mem_iff.mp placed)

theorem stream_forth (h : Compiled decls plan w) {s : Stream} (mem : s ∈ plan.streams.list) :
    ∃ u, Before plan.order s.key.producer u ∧ plan.Feeds decls s.key.producer u := by
  obtain ⟨t, wired, -, perm, -⟩ := h.exists_wired mem
  obtain ⟨u, user⟩ := List.exists_mem_of_ne_nil _ (h.wired.used t wired)
  have user : u ∈ s.users := perm.mem_iff.mpr user
  obtain ⟨r, asked⟩ := (h.mem_users mem).mp user
  exact ⟨u, (h.before_requests asked).1, .stream mem user⟩

theorem tapped_forth (h : Compiled decls plan w) {u : ModuleId} {k : StreamKey} {r : TapRequest}
    (asked : plan.Requests u k r) (tap : r.tap = .after id) :
    Before plan.order id u ∧ plan.Feeds decls id u := by
  obtain ⟨s, mem, rfl, -⟩ := h.exists_stream asked
  obtain ⟨processor, -, ⟨q, modifies, copy⟩, before⟩ := (h.usersAgree mem).tapped u r id asked tap
  exact ⟨before, .tap processor modifies copy asked tap⟩

theorem stream_of_output (h : Compiled decls plan w) {routes : Routes}
    (turn : (id, routes) ∈ plan.turns) (used : routes.outputs.any (·.2.isSome)) :
    ∃ s ∈ plan.streams.list, s.key.producer = id := by
  obtain ⟨-, t, ledger, -⟩ := h.ledger
  obtain ⟨o, mem, some⟩ := List.any_eq_true.mp used
  obtain ⟨slot, same⟩ := Option.isSome_iff_exists.mp some
  have output : (⟨id, o.1⟩, slot) ∈ outputSlots plan.turns :=
    List.mem_flatMap.mpr ⟨_, turn, List.mem_filterMap.mpr ⟨o, mem, by simp [same]⟩⟩
  have listed : (⟨id, o.1⟩ : StreamKey) ∈ (outputSlots plan.turns).map (·.1) :=
    List.mem_map.mpr ⟨_, output, rfl⟩
  rw [ledger.streams, h.turns_fst, (keysOf_perm h.wired h.arranged).mem_iff, ← h.streams] at listed
  obtain ⟨s, there, key⟩ := List.mem_map.mp listed
  exact ⟨s, there, by rw [key]⟩

theorem back (h : Compiled decls plan w) (placed : id ∈ plan.order) :
    DeclaredAs decls .source id ∨ ∃ p, Before plan.order p id ∧ plan.Feeds decls p id := by
  obtain ⟨d, mem, rfl⟩ := h.declared placed
  by_cases source : d.kind = .source
  · exact Or.inl ⟨d, mem, rfl, source⟩
  · obtain ⟨k, r, asked⟩ := h.wired.exists_request mem source
    have asked := h.requests_iff.mpr asked
    obtain ⟨s, there, rfl, user⟩ := h.exists_stream asked
    exact Or.inr ⟨s.key.producer, (h.before_requests asked).1, .stream there user⟩

theorem source_forth (h : Compiled decls plan w)
    (connected : checkSources decls w.streams = .ok ()) (source : DeclaredAs decls .source id) :
    ∃ u, Before plan.order id u ∧ plan.Feeds decls id u := by
  obtain ⟨d, mem, rfl, kind⟩ := source
  have check := forM_ok connected d (List.mem_filter.mpr ⟨mem, decide_eq_true kind⟩)
  split at check
  · rename_i emits
    obtain ⟨t, wired, producer⟩ := Streams.hasFrom_iff.mp emits
    obtain ⟨s, there, key, -⟩ := h.exists_planned wired
    rw [← key] at producer
    exact producer ▸ h.stream_forth there
  · cases check

/-- Pruning and the check for dead code leave no processor without an effect. -/
theorem processor_forth (h : Compiled decls plan w) (ascending : w.inputs.Ascending)
    (alive : checkDeadCode decls w plan.order plan.routes = .ok ()) (placed : id ∈ plan.order)
    (processor : DeclaredAs decls .processor id) :
    ∃ u, Before plan.order id u ∧ plan.Feeds decls id u := by
  obtain ⟨d, mem, rfl, kind⟩ := processor
  have declared := kind?_of_mem h.wired.ids mem
  rw [kind] at declared
  rw [← h.turns_fst] at placed
  obtain ⟨⟨_, routes⟩, turn, rfl⟩ := List.mem_map.mp placed
  have check := forM_ok alive _ turn
  split at check
  · cases check
  · rename_i effect
    by_cases used : routes.outputs.any (·.2.isSome) = true
    · obtain ⟨s, there, producer⟩ := h.stream_of_output turn used
      exact producer ▸ h.stream_forth there
    · have taps : d.id ∈ tapped w.inputs := by
        by_contra none
        exact effect ⟨declared, by simpa using used, by simpa using none⟩
      obtain ⟨u, k, r, asked, tap⟩ := mem_tapped h.wired ascending taps
      exact ⟨u, h.tapped_forth (h.requests_iff.mpr asked) tap⟩

theorem forth (h : Compiled decls plan w) (ascending : w.inputs.Ascending)
    (connected : checkSources decls w.streams = .ok ())
    (alive : checkDeadCode decls w plan.order plan.routes = .ok ()) (placed : id ∈ plan.order) :
    DeclaredAs decls .sink id ∨ ∃ u, Before plan.order id u ∧ plan.Feeds decls id u := by
  obtain ⟨d, mem, rfl⟩ := h.declared placed
  cases kind : d.kind with
  | source => exact Or.inr (h.source_forth connected ⟨d, mem, rfl, kind⟩)
  | processor => exact Or.inr (h.processor_forth ascending alive placed ⟨d, mem, rfl, kind⟩)
  | sink => exact Or.inl ⟨d, mem, rfl, kind⟩

end Compiled
end Compile

open Compile

/-- Every module that a plan runs lies on a path of data from a source to a sink. -/
theorem no_dead_module {decls : List Decl} {generation : Nat} {plan : Plan}
    (h : compile decls generation = .ok plan) : ∀ id ∈ plan.order, ∃ source sink,
      DeclaredAs decls .source source ∧ DeclaredAs decls .sink sink ∧
      ReflTransGen (plan.Feeds decls) source id ∧ ReflTransGen (plan.Feeds decls) id sink := by
  obtain ⟨w, wired, compiled, connected, alive⟩ := compile_checked h
  have ascending := wire_inputs_ascending wired
  have starts := exists_start compiled.order_nodup fun _ => compiled.back
  have ends := exists_end compiled.order_nodup fun _ => compiled.forth ascending connected alive
  intro id placed
  obtain ⟨source, -, isSource, down⟩ := starts id placed
  obtain ⟨sink, -, isSink, up⟩ := ends id placed
  exact ⟨source, sink, isSource, isSink, down, up⟩

/-- The second processor of the tap chain has no output, its data passes through it to the tap. -/
theorem tapChain_alive : ∃ plan, compile tapChain 0 = .ok plan ∧
    plan.order = [⟨1⟩, ⟨2⟩, ⟨3⟩, ⟨4⟩] ∧
    ∃ source sink, DeclaredAs tapChain .source source ∧ DeclaredAs tapChain .sink sink ∧
      ReflTransGen (plan.Feeds tapChain) source ⟨3⟩ ∧
      ReflTransGen (plan.Feeds tapChain) ⟨3⟩ sink := by
  have accepted : ∃ plan, compile tapChain 0 = .ok plan ∧ plan.order = [⟨1⟩, ⟨2⟩, ⟨3⟩, ⟨4⟩] :=
    ⟨_, by cbv, by cbv⟩
  obtain ⟨plan, ok, order⟩ := accepted
  have placed : (⟨3⟩ : ModuleId) ∈ plan.order := by simp [order]
  exact ⟨plan, ok, order, no_dead_module ok ⟨3⟩ placed⟩

end EventFlow

import Mathlib
import EventFlow.Proofs.Compile.Arranged

/-!
Compiled plans: the wiring that a plan was made from, and the order in which its modules run.
-/

namespace EventFlow
open Relation

variable {decls : List Decl} {generation : Nat} {plan : Plan}

namespace Compile

structure Compiled (decls : List Decl) (plan : Plan) (w : Wired) : Prop where
  wired : w.Consistent decls
  checked : checkTaps decls w.inputs w.streams = .ok ()
  arranged : Arranged decls w plan.order
  inputs : plan.inputs = w.inputs
  streams : plan.streams = w.streams.reorder plan.order
  routed : ∃ slots, route w plan.streams plan.order {} = .ok (plan.routes, slots) ∧
    plan.slotCount = slots.next ∧ plan.stats.copies = slots.copies
  counted : plan.stats.streams = plan.streams.list.length

theorem cycle_ok {ε α : Type} {cause : ε → CycleCause} {x : Except ε α} {a : α}
    (h : cycle cause x = .ok a) : x = .ok a := by
  cases x with
  | error e => cases h
  | ok b => exact congrArg Except.ok (Except.ok.inj h)

theorem arrange_ok {w : Wired} {a : Arrangement} (h : arrange decls w = .ok a) :
    checkSources decls w.streams = .ok () ∧ checkTaps decls w.inputs w.streams = .ok () := by
  unfold arrange at h
  obtain ⟨⟨⟩, connected, h⟩ := bind_ok h
  obtain ⟨⟨⟩, checked, -⟩ := bind_ok h
  exact ⟨connected, checked⟩

theorem arrange_arranged {w : Wired} {a : Arrangement} (consistent : w.Consistent decls)
    (found : arrange decls w = .ok a) : Arranged decls w a.order := by
  obtain ⟨connected, checked⟩ := arrange_ok found
  rcases arrange_cases consistent connected checked with ⟨b, found', arranged⟩ | ⟨⟨e, failed⟩, -⟩
  · rw [found] at found'
    cases found'
    exact arranged
  · cases found.symm.trans failed

theorem compile_checked (h : compile decls generation = .ok plan) :
    ∃ w, wire decls = .ok w ∧ Compiled decls plan w ∧ checkSources decls w.streams = .ok () ∧
      checkDeadCode decls w plan.order plan.routes = .ok () := by
  unfold compile at h
  obtain ⟨w, wired, h⟩ := bind_ok h
  obtain ⟨a, found, h⟩ := bind_ok h
  have consistent := wire_consistent wired
  obtain ⟨connected, checked⟩ := arrange_ok found
  unfold finish at h
  obtain ⟨⟨routes, slots⟩, routed, h⟩ := bind_ok h
  obtain ⟨⟨⟩, alive, h⟩ := bind_ok h
  cases h
  exact ⟨w, wired, ⟨consistent, checked, arrange_arranged consistent found, rfl, rfl,
    ⟨slots, routed, rfl, rfl⟩, rfl⟩, connected, alive⟩

theorem compile_compiled (h : compile decls generation = .ok plan) :
    ∃ w, Compiled decls plan w := by
  obtain ⟨w, -, compiled, -⟩ := compile_checked h
  exact ⟨w, compiled⟩

namespace Compiled

variable {w : Wired}

theorem order_nodup (h : Compiled decls plan w) : plan.order.Nodup :=
  h.arranged.perm.nodup_iff.mpr h.wired.ids

theorem tap_before (h : Compiled decls plan w) {id : ModuleId} {k : StreamKey} {r : TapRequest}
    (asked : request? plan.inputs id k = some r) :
    Before plan.order (r.tap.module k.producer) id :=
  h.arranged.before id _ (h.wired.reads_of_request? (h.inputs ▸ asked))

/-- The chain of taps from a request leads back to the producer. -/
theorem producer_before (h : Compiled decls plan w) {id : ModuleId} {k : StreamKey} {r : TapRequest}
    (asked : request? plan.inputs id k = some r) : Before plan.order k.producer id := by
  obtain ⟨s, hs, rfl, user⟩ := h.wired.exists_stream (h.inputs ▸ asked)
  exact before_of_transGen h.order_nodup h.arranged.before (h.arranged.rooted s hs id user)

theorem mem_producers (h : Compiled decls plan w) {id p : ModuleId} :
    p ∈ plan.producers id ↔ ∃ t r, request? plan.inputs id ⟨p, t⟩ = some r := by
  rw [Plan.producers]
  simp only [request?_eq]
  cases found : Table.value? plan.inputs id with
  | none => simp
  | some d => exact InputDefinition.mem_keys_iff (h.wired.distinct id d (h.inputs ▸ found)).1

theorem mem_consumers (h : Compiled decls plan w) {id p : ModuleId} :
    id ∈ plan.consumers p ↔ p ∈ plan.producers id := by
  rw [h.mem_producers, Plan.consumers, h.streams, Streams.mem_consumers_reorder,
    Streams.mem_consumers, h.inputs]
  constructor
  · rintro ⟨s, hs, rfl, user⟩
    exact ⟨s.key.type, (h.wired.mem_users hs).mp user⟩
  · rintro ⟨t, r, asked⟩
    obtain ⟨s, hs, key, user⟩ := h.wired.exists_stream asked
    exact ⟨s, hs, by rw [key], user⟩

theorem producers_before (h : Compiled decls plan w) {id p : ModuleId}
    (feeds : p ∈ plan.producers id) : Before plan.order p id := by
  obtain ⟨t, r, asked⟩ := h.mem_producers.mp feeds
  exact h.producer_before asked

end Compiled
end Compile

/-- A plan runs every declared module once, after all producers and taps that it reads from. -/
theorem order_respects_requests (h : compile decls generation = .ok plan) :
    plan.order.Perm (decls.map (·.id)) ∧ plan.order.Nodup ∧
    ∀ consumer requests, Table.value? plan.inputs consumer = some requests →
      ∀ producer request, (producer, request) ∈ InputDefinition.requests requests →
        Before plan.order producer consumer ∧
        Before plan.order (request.tap.module producer) consumer := by
  obtain ⟨w, compiled⟩ := Compile.compile_compiled h
  refine ⟨compiled.arranged.perm, compiled.order_nodup, fun consumer requests found p r mem => ?_⟩
  have distinct := (compiled.wired.distinct consumer requests (compiled.inputs ▸ found)).1
  have asked : Compile.request? plan.inputs consumer ⟨p, r.type⟩ = some r := by
    rw [Compile.request?_eq, found, Option.bind_some]
    exact (InputDefinition.mem_requests_iff distinct).mp mem
  exact ⟨compiled.producer_before asked, compiled.tap_before asked⟩

/-- A source, two processors that modify its stream in turn, and a sink that reads what the second
one leaves. -/
def tapChain : List Decl :=
  let filter : ModuleInfo :=
    { name := "filter", kind := .processor, inputs := [⟨.fixed .polarity, .exactly 1, true⟩] }
  [ { id := ⟨4⟩, name := "out", input := some "1[1a3]",
      info := { name := "sink", kind := .sink, inputs := [⟨.any, .any, false⟩] } },
    { id := ⟨3⟩, name := "second", input := some "1[1a2]", info := filter },
    { id := ⟨2⟩, name := "first", input := some "1[1]", info := filter },
    { id := ⟨1⟩, name := "in",
      info := { name := "source", kind := .source, outputs := [.fixed .polarity] } } ]

theorem tapChain_order : ∃ plan, compile tapChain 0 = .ok plan ∧
    Before plan.order ⟨1⟩ ⟨4⟩ ∧ Before plan.order ⟨3⟩ ⟨4⟩ := by
  have accepted : ∃ plan, compile tapChain 0 = .ok plan ∧
      Table.value? plan.inputs ⟨4⟩ = some [(⟨1⟩, [⟨.polarity, .after ⟨3⟩, false⟩])] :=
    ⟨_, by cbv, by cbv⟩
  obtain ⟨plan, ok, wiring⟩ := accepted
  obtain ⟨-, -, before⟩ := order_respects_requests ok
  have placed := before ⟨4⟩ _ wiring ⟨1⟩ ⟨.polarity, .after ⟨3⟩, false⟩ (by decide)
  exact ⟨plan, ok, placed⟩

end EventFlow

import EventFlow.Proofs.Compile.Schedule
import EventFlow.Proofs.Lifecycle

/-!
The registry of a plan against its input definitions. Each stream lists the modules that ask for it,
in execution order, so the producers of a module and the consumers of a module are two readings of
one relation, also in the lifecycle that is made of them.
-/

namespace EventFlow

def DeclaredAs (decls : List Decl) (kind : Kind) (id : ModuleId) : Prop :=
  ∃ d ∈ decls, d.id = id ∧ d.kind = kind

namespace Plan

/-- The input definition of a module asks for a stream. -/
def Requests (p : Plan) (id : ModuleId) (k : StreamKey) (r : TapRequest) : Prop :=
  ∃ d, Table.value? p.inputs id = some d ∧ (k.producer, r) ∈ InputDefinition.requests d ∧
    r.type = k.type

/-- The users of a stream are the modules that ask for it, and a tap after a module names a
processor that modifies the stream before. -/
structure UsersAgree (p : Plan) (decls : List Decl) (s : Stream) : Prop where
  once : ∀ u r, p.Requests u s.key r → s.users.count u = 1
  never : ∀ u, (¬ ∃ r, p.Requests u s.key r) → s.users.count u = 0
  ordered : s.users.Sublist p.order
  foreign : s.key.producer ∉ s.users
  tapped : ∀ u r m, p.Requests u s.key r → r.tap = .after m →
    DeclaredAs decls .processor m ∧ m ∈ s.users ∧ (∃ q, p.Requests m s.key q ∧ q.copyNeeded) ∧
      Before p.order m u

end Plan

namespace Compile

variable {decls : List Decl} {generation : Nat} {plan : Plan} {w : Wired}

theorem declaredAs_of_kind? {kind : Kind} {id : ModuleId} (h : kind? decls id = some kind) :
    DeclaredAs decls kind id := by
  obtain ⟨d, found, same⟩ := Option.map_eq_some_iff.mp h
  have own : d.id = id := by simpa using List.find?_some found
  exact ⟨d, List.mem_of_find?_eq_some found, own, same⟩

namespace Compiled

theorem requests_iff (h : Compiled decls plan w) {id : ModuleId} {k : StreamKey} {r : TapRequest} :
    plan.Requests id k r ↔ request? w.inputs id k = some r := by
  rw [Plan.Requests, h.inputs, request?_eq]
  constructor
  · rintro ⟨d, found, mem, same⟩
    have distinct := (h.wired.distinct id d found).1
    have asked := (InputDefinition.mem_requests_iff distinct).mp mem
    rw [found, Option.bind_some, ← asked, same]
  · intro asked
    obtain ⟨d, found, asked⟩ := Option.bind_eq_some_iff.mp asked
    exact ⟨d, found, InputDefinition.mem_requests_of_request? asked,
      InputDefinition.request?_type asked⟩

theorem exists_wired (h : Compiled decls plan w) {s : Stream} (mem : s ∈ plan.streams.list) :
    ∃ t ∈ w.streams.list, s.key = t.key ∧ s.users.Perm t.users ∧
      s.users.Pairwise fun a b => Streams.rank plan.order a ≤ Streams.rank plan.order b := by
  rw [h.streams, Streams.list_reorder] at mem
  obtain ⟨t, wired, rfl⟩ := List.mem_map.mp mem
  exact ⟨t, wired, rfl, List.mergeSort_perm _ _,
    mergeSort_pairwise (Streams.rank plan.order) t.users⟩

theorem exists_planned (h : Compiled decls plan w) {t : Stream} (mem : t ∈ w.streams.list) :
    ∃ s ∈ plan.streams.list, s.key = t.key ∧ s.users.Perm t.users := by
  rw [h.streams, Streams.list_reorder]
  exact ⟨_, List.mem_map_of_mem mem, rfl, List.mergeSort_perm _ _⟩

theorem mem_users (h : Compiled decls plan w) {s : Stream} (mem : s ∈ plan.streams.list)
    {u : ModuleId} : u ∈ s.users ↔ ∃ r, plan.Requests u s.key r := by
  obtain ⟨t, wired, key, perm, -⟩ := h.exists_wired mem
  simp only [perm.mem_iff, h.wired.mem_users wired, key, h.requests_iff]

theorem exists_stream (h : Compiled decls plan w) {u : ModuleId} {k : StreamKey} {r : TapRequest}
    (asked : plan.Requests u k r) : ∃ s ∈ plan.streams.list, s.key = k ∧ u ∈ s.users := by
  obtain ⟨t, wired, rfl, user⟩ := h.wired.exists_stream (h.requests_iff.mp asked)
  obtain ⟨s, mem, key, perm⟩ := h.exists_planned wired
  exact ⟨s, mem, key, perm.mem_iff.mpr user⟩

theorem before_requests (h : Compiled decls plan w) {u : ModuleId} {k : StreamKey} {r : TapRequest}
    (asked : plan.Requests u k r) :
    Before plan.order k.producer u ∧ Before plan.order (r.tap.module k.producer) u := by
  have asked : request? plan.inputs u k = some r := h.inputs ▸ h.requests_iff.mp asked
  exact ⟨h.producer_before asked, h.tap_before asked⟩

theorem usersAgree (h : Compiled decls plan w) {s : Stream} (mem : s ∈ plan.streams.list) :
    plan.UsersAgree decls s := by
  obtain ⟨t, wired, key, perm, sorted⟩ := h.exists_wired mem
  have nodup : s.users.Nodup := perm.nodup_iff.mpr (h.wired.users_nodup wired)
  have placed : ∀ u ∈ s.users, u ∈ plan.order := by
    intro u user
    exact h.arranged.perm.mem_iff.mpr (h.wired.user_declared wired (perm.mem_iff.mp user))
  refine ⟨?_, ?_, Streams.sublist_of_sorted h.order_nodup nodup placed sorted, ?_, ?_⟩
  · intro u r asked
    exact List.count_eq_one_of_mem nodup ((h.mem_users mem).mpr ⟨r, asked⟩)
  · intro u none
    exact List.count_eq_zero_of_not_mem fun user => none ((h.mem_users mem).mp user)
  · intro own
    obtain ⟨r, asked⟩ := (h.mem_users mem).mp own
    exact not_before_self h.order_nodup _ (h.before_requests asked).1
  · intro u r m asked tap
    have wiring := h.requests_iff.mp asked
    obtain ⟨processor, -⟩ := h.wired.tap u s.key r wiring m tap
    obtain ⟨-, q, modifies, copy⟩ := tap_checked h.checked wiring tap
    have request := h.requests_iff.mpr modifies
    have before := (h.before_requests asked).2
    rw [tap] at before
    exact ⟨declaredAs_of_kind? processor, (h.mem_users mem).mpr ⟨q, request⟩, ⟨q, request, copy⟩,
      before⟩

theorem neighbours_ofPlan (h : Compiled decls plan w) (startup : ModuleId → Bool) (id : ModuleId) :
    (Lifecycle.ofPlan plan startup).producers id = plan.producers id ∧
      (Lifecycle.ofPlan plan startup).consumers id = plan.consumers id := by
  rw [Lifecycle.producers, Lifecycle.consumers, Lifecycle.cell?_ofPlan]
  by_cases placed : id ∈ plan.order
  · simp [placed]
  · have noProducer : plan.producers id = [] := List.eq_nil_iff_forall_not_mem.mpr
      fun p feeds => placed (h.producers_before feeds).mem_right
    have noConsumer : plan.consumers id = [] := List.eq_nil_iff_forall_not_mem.mpr
      fun c reads => placed (h.producers_before (h.mem_consumers.mp reads)).mem_left
    simp [placed, noProducer, noConsumer]

end Compiled
end Compile

open Compile

/-- In every plan, the users of each stream are those whose input definitions ask for it, and every
stream that is asked for is there. So the producers of one module and the consumers of another agree
for all modules, in the plan as in the lifecycle. -/
theorem registry_agrees {decls : List Decl} {generation : Nat} {plan : Plan}
    (h : compile decls generation = .ok plan) :
    (∀ s ∈ plan.streams.list, plan.UsersAgree decls s) ∧
    (∀ u k r, plan.Requests u k r → ∃ s ∈ plan.streams.list, s.key = k) ∧
    (∀ p c, p ∈ plan.producers c ↔ c ∈ plan.consumers p) ∧
    ∀ startup p c, p ∈ (Lifecycle.ofPlan plan startup).producers c ↔
      c ∈ (Lifecycle.ofPlan plan startup).consumers p := by
  obtain ⟨w, compiled⟩ := compile_compiled h
  refine ⟨fun s mem => compiled.usersAgree mem, fun u k r asked => ?_,
    fun p c => compiled.mem_consumers.symm, fun startup p c => ?_⟩
  · obtain ⟨s, mem, key, -⟩ := compiled.exists_stream asked
    exact ⟨s, mem, key⟩
  · rw [(compiled.neighbours_ofPlan startup c).1, (compiled.neighbours_ofPlan startup p).2]
    exact compiled.mem_consumers.symm

theorem tapChain_agrees : ∃ plan, compile tapChain 0 = .ok plan ∧
    plan.streams.list.map (fun s => (s.key, s.users)) = [(⟨⟨1⟩, .polarity⟩, [⟨2⟩, ⟨3⟩, ⟨4⟩])] ∧
    (∀ s ∈ plan.streams.list, plan.UsersAgree tapChain s) ∧
    ∀ p c, p ∈ plan.producers c ↔ c ∈ plan.consumers p := by
  have accepted : ∃ plan, compile tapChain 0 = .ok plan ∧
      plan.streams.list.map (fun s => (s.key, s.users)) =
        [(⟨⟨1⟩, .polarity⟩, [⟨2⟩, ⟨3⟩, ⟨4⟩])] := ⟨_, by cbv, by cbv⟩
  obtain ⟨plan, ok, users⟩ := accepted
  obtain ⟨agree, -, neighbours, -⟩ := registry_agrees ok
  exact ⟨plan, ok, users, agree, neighbours⟩

end EventFlow

import EventFlow.Proofs.Compile.Routing
import EventFlow.Proofs.Compile.Schedule
import EventFlow.Proofs.Engine.Slots

/-!
What the modules of a tick should read, without slots. A version of a stream is what its producer
emitted, or what some module left of the version that it was given.
-/

namespace EventFlow
open Compile Engine

abbrev Versions := StreamKey → Tap → Option Packet

def askedBy (inputs : Table ModuleId InputDefinition) (id : ModuleId) :
    List (ModuleId × TapRequest) :=
  (requestsOf inputs id).mergeSort fun a b => decide (requestKey a ≤ requestKey b)

/-- What a module should be given: the requested versions that are there, ascending by stream. -/
def arriving (inputs : Table ModuleId InputDefinition) (v : Versions) (id : ModuleId) :
    List (StreamKey × Input) :=
  (askedBy inputs id).filterMap fun e => (v (requestKey e) e.2.tap).map fun packet =>
    (requestKey e, { packet, writable := e.2.copyNeeded })

/-- What the run of a module leaves of a stream that it is given; without a run the version stays
what it is. -/
def leftBy (inputs : Table ModuleId InputDefinition) (calls : List Call) (v : Versions)
    (id : ModuleId) (k : StreamKey) (r : TapRequest) : Option Packet :=
  match runOf? calls id with
  | none => v k r.tap
  | some c => (((arriving inputs v id).map (·.1)).zip c.left).lookup k

def emittedBy (calls : List Call) (k : StreamKey) : Option Packet :=
  (runOf? calls k.producer).bind fun c => (c.placed.filter fun p => p.type = k.type).getLast?

/-- The versions of the streams that somebody reads, after the calls of a tick. -/
structure IsVersions (inputs : Table ModuleId InputDefinition) (streams : Streams)
    (calls : List Call) (v : Versions) : Prop where
  source : ∀ k, streams.has k = true → v k .source = emittedBy calls k
  after : ∀ k id r, request? inputs id k = some r → v k (.after id) = leftBy inputs calls v id k r

/-! ### Existence -/

variable {decls : List Decl} {plan : Plan} {w : Wired} {id : ModuleId}

theorem arriving_congr (consistent : w.Consistent decls) {v v' : Versions}
    (same : ∀ k r, request? w.inputs id k = some r → v k r.tap = v' k r.tap) :
    arriving w.inputs v id = arriving w.inputs v' id := by
  refine List.filterMap_congr fun e he => ?_
  rw [same _ _ (consistent.mem_requestsOf.mp (List.mem_mergeSort.mp he))]

theorem leftBy_congr (consistent : w.Consistent decls) (calls : List Call) {v v' : Versions}
    (same : ∀ k r, request? w.inputs id k = some r → v k r.tap = v' k r.tap) {k : StreamKey}
    {r : TapRequest} (asked : request? w.inputs id k = some r) :
    leftBy w.inputs calls v id k r = leftBy w.inputs calls v' id k r := by
  rw [leftBy, leftBy, arriving_congr consistent same, same k r asked]

def advance (inputs : Table ModuleId InputDefinition) (calls : List Call) (v : Versions)
    (id : ModuleId) : Versions := fun k tap =>
  if tap = .after id then (request? inputs id k).bind (leftBy inputs calls v id k) else v k tap

theorem foldl_advance_other {inputs : Table ModuleId InputDefinition} {calls : List Call}
    {ids : List ModuleId} {tap : Tap} (h : ∀ id ∈ ids, tap ≠ .after id) (v : Versions)
    (k : StreamKey) : ids.foldl (advance inputs calls) v k tap = v k tap := by
  induction ids generalizing v with
  | nil => rfl
  | cons id ids ih =>
    obtain ⟨head, tail⟩ := List.forall_mem_cons.mp h
    rw [List.foldl_cons, ih tail, advance, if_neg head]

theorem exists_versions (compiled : Compiled decls plan w) (calls : List Call) :
    ∃ v, IsVersions plan.inputs plan.streams calls v := by
  let initial : Versions := fun k tap => if tap = .source then emittedBy calls k else none
  refine ⟨plan.order.foldl (advance plan.inputs calls) initial, fun k _ => ?_,
    fun k id r asked => ?_⟩
  · rw [foldl_advance_other fun id _ => by simp]
    exact if_pos rfl
  · obtain ⟨done, rest, split⟩ := List.append_of_mem (compiled.tap_before asked).mem_right
    have nodup := split ▸ compiled.order_nodup
    generalize past : done.foldl (advance plan.inputs calls) initial = u
    have whole : plan.order.foldl (advance plan.inputs calls) initial =
        (id :: rest).foldl (advance plan.inputs calls) u := by
      rw [split, List.foldl_append, past]
    -- The versions that `id` requests are settled before its turn.
    have settled : ∀ k r, request? w.inputs id k = some r →
        (id :: rest).foldl (advance plan.inputs calls) u k r.tap = u k r.tap := by
      intro k r asks
      refine foldl_advance_other (fun x hx tap => ?_) u k
      have before := compiled.tap_before (compiled.inputs ▸ asks)
      rw [tap, split] at before
      have apart := (List.nodup_append.mp nodup).2.2
      exact apart x (before.mem_init nodup) x hx rfl
    have own : (id :: rest).foldl (advance plan.inputs calls) u k (.after id) =
        leftBy plan.inputs calls u id k r := by
      have others : ∀ x ∈ rest, Tap.after id ≠ .after x := by
        rintro x hx same
        cases same
        exact not_mem_after nodup hx
      rw [List.foldl_cons, foldl_advance_other others, advance, if_pos rfl, asked, Option.bind_some]
    rw [whole, own, compiled.inputs]
    rw [compiled.inputs] at asked settled
    exact (leftBy_congr compiled.wired calls settled asked).symm

end EventFlow

import EventFlow.Module.StandIn
import EventFlow.Proofs.Compile.Sharing
import EventFlow.Proofs.Engine.Replies
import EventFlow.Proofs.Engine.Versions

/-!
A tick with slots does what a tick with versions would do. `Tracks` ties every slot to the one
version that may still be read from it.
-/

namespace EventFlow
open Compile

namespace Engine

variable {decls : List Decl} {w : Wired} {order rest : List ModuleId} {id : ModuleId}
  {t t' between : SlotTable} {routes : Routes} {unsorted : List InputRoute}
  {before after : Slots} {v : Versions} {calls journal : List Call}

/-- The slots hold the versions that are still requested, and those to come are empty. -/
structure Tracks (w : Wired) (rest : List ModuleId) (t : SlotTable) (slots : Slots)
    (v : Versions) : Prop where
  fresh : ∀ s, t.next ≤ s → slots s = none
  value : ∀ k tap s, t.slot? k tap = some s → Needed w.inputs rest k tap → slots s = v k tap

namespace Tracks

/-! ### What a module is given -/

theorem filled_old (h : Assigned decls w order id rest t t' routes unsorted between) {s : Slot}
    (low : s < t.next) : filled routes.inputs before s = before s := by
  refine filled_other fun r hr copied same => ?_
  obtain ⟨s', -, -, ⟨plain, -⟩ | ⟨-, high, -⟩⟩ := h.input_cases hr
  · exact copied plain
  · exact Nat.not_le_of_lt low (same ▸ high)

theorem filled_high (h : Assigned decls w order id rest t t' routes unsorted between) {s : Slot}
    (high : between.next ≤ s) : filled routes.inputs before s = before s :=
  filled_other fun _ hr _ same => Nat.not_le_of_lt (h.input_low hr) (same ▸ high)

theorem filled_input (tracks : Tracks w (id :: rest) t before v)
    (h : Assigned decls w order id rest t t' routes unsorted between) {r : InputRoute}
    (mem : r ∈ routes.inputs) : filled routes.inputs before r.slot = v r.stream r.tap := by
  obtain ⟨s, found, low, way⟩ := h.input_cases mem
  have value := tracks.value _ _ _ found (h.needed h.consistent mem)
  rcases way with ⟨-, rfl⟩ | ⟨copied, -, -⟩
  · rw [filled_old h low, value]
  · rw [filled_copy h.inputs_apart mem copied fun r' hr' from_ same => ?_, value]
    obtain ⟨s', -, -, ⟨plain, -⟩ | ⟨-, high, -⟩⟩ := h.input_cases hr'
    · exact from_ plain
    · exact Nat.not_le_of_lt low (same ▸ high)

theorem routes_shape (h : Assigned decls w order id rest t t' routes unsorted between) :
    routes.inputs.map (fun r => (r.stream, r.tap, r.writable)) =
      (askedBy w.inputs id).map fun e => (requestKey e, e.2.tap, e.2.copyNeeded) := by
  let le (a b : StreamKey × Tap × Bool) : Bool := decide (a.1 ≤ b.1)
  have left : (unsorted.mergeSort fun a b => decide (a.stream ≤ b.stream)).map
      (fun r => (r.stream, r.tap, r.writable)) =
      (unsorted.map fun r => (r.stream, r.tap, r.writable)).mergeSort le :=
    List.map_mergeSort fun _ _ _ _ => rfl
  have right : (askedBy w.inputs id).map (fun e => (requestKey e, e.2.tap, e.2.copyNeeded)) =
      ((requestsOf w.inputs id).map fun e =>
        (requestKey e, e.2.tap, e.2.copyNeeded)).mergeSort le :=
    List.map_mergeSort fun _ _ _ _ => rfl
  rw [h.sorted, left, right, h.inputs.shape]

theorem arriving_eq (tracks : Tracks w (id :: rest) t before v)
    (h : Assigned decls w order id rest t t' routes unsorted between) :
    arriving w.inputs v id = (arrived (filled routes.inputs before) routes.inputs).map fun a =>
      (a.1.stream, toInput a) := by
  let give (x : StreamKey × Tap × Bool) : Option (StreamKey × Input) :=
    (v x.1 x.2.1).map fun packet => (x.1, { packet, writable := x.2.2 })
  have asked : arriving w.inputs v id =
      ((askedBy w.inputs id).map fun e => (requestKey e, e.2.tap, e.2.copyNeeded)).filterMap give :=
    by rw [List.filterMap_map]; rfl
  rw [asked, ← routes_shape h, List.filterMap_map, arrived, List.map_filterMap]
  refine List.filterMap_congr fun r hr => ?_
  rw [tracks.filled_input h hr, Option.map_map]
  rfl

end Tracks

/-! ### What a module leaves -/

namespace Ran

variable {c : Call} {s : Slot}

theorem given_arrived (ran : Ran before routes c after) :
    c.given = (arrived before routes.inputs).map toInput := by
  rw [ran.given, present_eq, List.map_map]
  rfl

theorem slots_arrived (ran : Ran before routes c after) : after = placeAll routes c.placed
    (putAll (((arrived before routes.inputs).map (·.1.slot)).zip c.left) before) := by
  have slots : (present before routes).map (·.1) =
      (arrived before routes.inputs).map (·.1.slot) := by
    rw [present_eq, List.map_map]
    rfl
  rw [← slots, ← ran.slots]

theorem arrived_apart (h : Assigned decls w order id rest t t' routes unsorted between) :
    ((arrived before routes.inputs).map (·.1.slot)).Nodup ∧
      ((arrived before routes.inputs).map (·.1.stream)).Nodup := by
  have sub := arrived_sublist before routes.inputs
  have slots := h.inputs_apart.sublist (sub.map (·.slot))
  have streams := (h.streams_nodup h.consistent).sublist (sub.map (·.stream))
  rw [List.map_map] at slots streams
  exact ⟨slots, streams⟩

theorem put (ran : Ran before routes c after)
    (h : Assigned decls w order id rest t t' routes unsorted between) :
    putAll (((arrived before routes.inputs).map (·.1.slot)).zip c.left) before s =
      ((((arrived before routes.inputs).map (·.1.slot)).zip c.left).lookup s).or (before s) := by
  obtain ⟨raw, left⟩ := ran.left
  have short : ((arrived before routes.inputs).map (·.1.slot)).length ≤ c.left.length := by
    rw [left, length_settle, ran.given_arrived, List.length_map, List.length_map]
  refine putAll_eq ?_
  rw [List.map_fst_zip short]
  exact (arrived_apart h).1

theorem slot_low (ran : Ran before routes c after)
    (h : Assigned decls w order id rest t t' routes unsorted between) (low : s < between.next) :
    after s = ((((arrived before routes.inputs).map (·.1.slot)).zip c.left).lookup s).or
      (before s) := by
  rw [ran.slots_arrived, placeAll_other fun o ho slot => ?_, ran.put h]
  exact Nat.not_le_of_lt low (h.output_high ho slot).1

theorem put_high (ran : Ran before routes c after)
    (h : Assigned decls w order id rest t t' routes unsorted between) (high : between.next ≤ s) :
    putAll (((arrived before routes.inputs).map (·.1.slot)).zip c.left) before s = before s := by
  rw [ran.put h, lookup_zip_none fun a ha same => ?_, Option.none_or]
  exact Nat.not_le_of_lt (h.input_low (mem_arrived.mp ha).1) (same ▸ high)

theorem slot_output (ran : Ran before routes c after)
    (h : Assigned decls w order id rest t t' routes unsorted between)
    {o : EventType × Option Slot} (mem : o ∈ routes.outputs) (slot : o.2 = some s) :
    after s = (c.placed.filter fun p => p.type = o.1).getLast?.or (before s) := by
  have types : (routes.outputs.map (·.1)).Nodup := by
    rw [h.outputs.declared]
    exact h.consistent.typesOf_nodup
  rw [ran.slots_arrived, placeAll_output types (fun a ha b hb => h.outputs.output_of_slot ha hb) mem
    slot, ran.put_high h (h.output_high mem slot).1]

theorem slot_above (ran : Ran before routes c after)
    (h : Assigned decls w order id rest t t' routes unsorted between) (high : t'.next ≤ s) :
    after s = before s := by
  rw [ran.slots_arrived, placeAll_other fun o ho slot => ?_,
    ran.put_high h (Nat.le_trans h.outputs.next high)]
  exact Nat.not_le_of_lt (h.output_high ho slot).2 high

/-- A slot whose version is still requested is not disturbed: what shares it is only read. -/
theorem slot_old (ran : Ran before routes c after)
    (h : Assigned decls w order id rest t t' routes unsorted between) {k : StreamKey} {tap : Tap}
    (held : t.slot? k tap = some s) (needed : Needed w.inputs rest k tap) :
    after s = before s := by
  have low := Nat.lt_of_lt_of_le (h.separate.bound _ _ _ held) h.inputs.next
  rw [ran.slot_low h low]
  by_cases shared : ∃ a ∈ arrived before routes.inputs, a.1.slot = s
  · obtain ⟨a, ha, rfl⟩ := shared
    obtain ⟨mem, there⟩ := mem_arrived.mp ha
    obtain ⟨raw, left⟩ := ran.left
    obtain ⟨slots, streams⟩ := arrived_apart h
    obtain ⟨p, found, -, kept⟩ := lookup_settle slots streams raw ha
    have readOnly : a.1.writable = false := by
      by_contra writable
      exact h.taken_over mem (by simpa using writable) held needed
    rw [left, ran.given_arrived, found, there, kept readOnly]
    rfl
  · push Not at shared
    rw [lookup_zip_none shared, Option.none_or]

theorem slot_input (ran : Ran before routes c after)
    (h : Assigned decls w order id rest t t' routes unsorted between) {r : InputRoute}
    (mem : r ∈ routes.inputs) : after r.slot =
      (((arrived before routes.inputs).map (·.1.stream)).zip c.left).lookup r.stream := by
  rw [ran.slot_low h (h.input_low mem)]
  cases there : before r.slot with
  | some packet =>
    obtain ⟨raw, left⟩ := ran.left
    obtain ⟨slots, streams⟩ := arrived_apart h
    have ha : (r, packet) ∈ arrived before routes.inputs := mem_arrived.mpr ⟨mem, there⟩
    obtain ⟨p, found, found', -⟩ := lookup_settle slots streams raw ha
    rw [left, ran.given_arrived, found, found']
    rfl
  | none =>
    have absent : ∀ a ∈ arrived before routes.inputs, a.1 ≠ r := by
      rintro a ha rfl
      rw [(mem_arrived.mp ha).2] at there
      cases there
    have slots : ∀ a ∈ arrived before routes.inputs, a.1.slot ≠ r.slot := fun a ha same =>
      absent a ha (h.input_of_slot (mem_arrived.mp ha).1 mem same)
    have streams : ∀ a ∈ arrived before routes.inputs, a.1.stream ≠ r.stream := fun a ha same =>
      absent a ha (h.input_of_stream (mem_arrived.mp ha).1 mem same)
    rw [lookup_zip_none slots, lookup_zip_none streams]
    rfl

end Ran

/-! ### From module to module -/

theorem Tracks.next (tracks : Tracks w (id :: rest) t before v)
    (h : Assigned decls w order id rest t t' routes unsorted between)
    (versions : IsVersions w.inputs (w.streams.reorder order) journal v)
    (runs : RunsOnce (filled routes.inputs before) routes calls after)
    (own : ∀ c ∈ calls, c.caller = id) (same : runOf? journal id = runOf? calls id) :
    Tracks w rest t' after v := by
  have runs := runs.run_cases own
  have high : ∀ s, between.next ≤ s → filled routes.inputs before s = none := by
    intro s above
    rw [Tracks.filled_high h above]
    exact tracks.fresh s (Nat.le_trans h.inputs.next above)
  constructor
  · intro s above
    rcases runs with ⟨rfl, -⟩ | ⟨c, ran, -⟩
    · exact high s (Nat.le_trans h.outputs.next above)
    · rw [ran.slot_above h above]
      exact high s (Nat.le_trans h.outputs.next above)
  · intro k tap s held needed
    rcases h.held_cases held with ⟨o, ho, rfl, rfl, slot⟩ | ⟨r, hr, -, rfl, rfl, rfl⟩ | earlier
    · obtain ⟨u, -, q, asked, -⟩ := needed
      have read : (w.streams.reorder order).has ⟨id, o.1⟩ = true := by
        rw [Streams.has_reorder]
        exact h.consistent.asked u _ q asked
      have empty := high s (h.output_high ho slot).1
      rw [versions.source _ read, emittedBy, same]
      rcases runs with ⟨rfl, none, -⟩ | ⟨c, ran, found, -⟩
      · rw [none, empty, Option.bind_none]
      · rw [ran.slot_output h ho slot, empty, found, Option.bind_some, Option.or_none]
    · obtain ⟨q, asked, tap, -⟩ := h.asked h.consistent hr
      rw [versions.after _ _ q asked, leftBy, same]
      rcases runs with ⟨rfl, none, -⟩ | ⟨c, ran, found, -⟩
      · rw [none, tap, tracks.filled_input h hr]
      · rw [found, ran.slot_input h hr, tracks.arriving_eq h, List.map_map]
        rfl
    · have low := h.separate.bound _ _ _ earlier
      have value := tracks.value k tap s earlier (needed.cons id)
      rcases runs with ⟨rfl, -⟩ | ⟨c, ran, -⟩
      · rw [Tracks.filled_old h low, value]
      · rw [ran.slot_old h earlier needed, Tracks.filled_old h low, value]

theorem Tracks.given (tracks : Tracks w (id :: rest) t before v)
    (h : Assigned decls w order id rest t t' routes unsorted between)
    (runs : RunsOnce (filled routes.inputs before) routes calls after)
    (own : ∀ c ∈ calls, c.caller = id) :
    ∀ c ∈ calls, c.callback = .run → c.given = (arriving w.inputs v c.caller).map (·.2) := by
  intro c mem run
  rcases runs.run_cases own with ⟨-, -, calm⟩ | ⟨d, ran, -, only⟩
  · exact absurd run (calm c mem)
  · obtain rfl := only c mem run
    rw [own c mem, ran.given_arrived, tracks.arriving_eq h, List.map_map]
    rfl

theorem Ticked.isolated (consistent : w.Consistent decls) (arranged : Arranged decls w order)
    (versions : IsVersions w.inputs (w.streams.reorder order) journal v) {ids done : List ModuleId}
    {routes : List Routes} (split : order = done ++ ids)
    (routed : route w (w.streams.reorder order) ids t = .ok (routes, t'))
    (ticked : Ticked (ids.zip routes) before calls after) (separate : Separate w ids t)
    (tracks : Tracks w ids t before v)
    (same : ∀ id ∈ ids, runOf? journal id = runOf? calls id) :
    ∀ c ∈ calls, c.callback = .run → c.given = (arriving w.inputs v c.caller).map (·.2) := by
  induction ids generalizing done t routes before calls with
  | nil =>
    cases ticked
    simp
  | cons id ids ih =>
    unfold route at routed
    split at routed
    · cases routed
    · rename_i r t₁ first
      split at routed
      · cases routed
      · rename_i rs t₂ rest
        cases routed
        rw [List.zip_cons_cons] at ticked
        cases ticked with
        | cons runs own ticked =>
          rename_i between calls later
          obtain ⟨unsorted, table, h⟩ := assigned consistent arranged split separate first
          have fresh : id ∉ ids := not_mem_after (split ▸ h.nodup)
          have others : ∀ c ∈ later, c.caller ∈ ids := by
            intro c mem
            obtain ⟨p, hp, eq⟩ := List.mem_map.mp (ticked.caller c mem)
            exact eq ▸ (List.of_mem_zip hp).1
          have here : runOf? journal id = runOf? calls id := by
            have none : runOf? later id = none :=
              runOf?_eq_none fun c mem _ eq => fresh (eq ▸ others c mem)
            rw [same id List.mem_cons_self, runOf?_append, none, Option.none_or]
          have there : ∀ x ∈ ids, runOf? journal x = runOf? later x := by
            intro x mem
            have none : runOf? calls x = none :=
              runOf?_eq_none fun c hc _ eq => fresh ((own c hc).symm.trans eq ▸ mem)
            rw [same x (List.mem_cons_of_mem _ mem), runOf?_append, none, Option.or_none]
          have split' := split.trans (List.append_cons done id ids)
          have tail := ih split' rest ticked h.next (tracks.next h versions runs own here) there
          exact List.forall_mem_append.mpr ⟨tail, tracks.given h runs own⟩

/-- A tick that starts with empty slots has nothing to give but the versions of its own calls. -/
theorem tick_isolated {M : Type} [Behaviour M] {plan : Plan} (source : Compiled decls plan w)
    (sequenced : plan.Sequenced) {e : Engine M} (seated : Seated plan e)
    (empty : e.slots = Slots.empty) (now : Moment) (s : Signals)
    (versions : IsVersions plan.inputs plan.streams (e.tick now s).1.journal v) :
    ∀ c ∈ (e.tick now s).1.journal, c.callback = .run →
      c.given = (arriving plan.inputs v c.caller).map (·.2) := by
  obtain ⟨slots, routed, -⟩ := source.routed
  obtain ⟨last, ticked⟩ := tick_ticked now s sequenced seated
  rw [source.inputs, source.streams] at versions
  rw [source.streams] at routed
  rw [empty] at ticked
  rw [source.inputs]
  have tracks : Tracks w plan.order {} Slots.empty v :=
    ⟨fun _ _ => rfl, by simp [SlotTable.slot?]⟩
  exact ticked.isolated source.wired source.arranged versions (List.nil_append _).symm routed
    separate_nil tracks fun _ _ => rfl

end Engine

open Engine

/-- In every tick of a compiled plan, whatever happened before it and whatever the lifecycle then
looks like, each run is given the versions that it requests: what their producers emitted in this
tick, as changed by the modules that it taps and by no others. What counts as left and emitted by a run
is what its module has answered to the inputs that it was given. -/
theorem runs_given_versions {M : Type} [Behaviour M] {decls : List Decl} {generation : Nat}
    {plan : Plan} (compiled : compile decls generation = .ok plan) {startup : ModuleId → Bool}
    {e : Engine M} (initial : Initial plan startup e) (events : List Engine.Event) (l : Lifecycle)
    (now : Moment) (s : Signals) :
    let journal := ({ e.after events with lifecycle := l }.tick now s).1.journal
    (∃ v, IsVersions plan.inputs plan.streams journal v) ∧
    (∀ c ∈ journal, c.Replied M) ∧
    ∀ v, IsVersions plan.inputs plan.streams journal v →
      ∀ c ∈ journal, c.callback = .run →
        c.given = (arriving plan.inputs v c.caller).map (·.2) := by
  intro journal
  obtain ⟨w, source⟩ := compile_compiled compiled
  refine ⟨exists_versions source journal, tick_replied now _ s, fun v versions => ?_⟩
  have sequenced := compile_sequenced compiled
  have fits := after_fits sequenced initial.fits events
  have seated : Seated plan { e.after events with lifecycle := l } := ⟨fits.same, fits.members⟩
  have empty := after_slots initial.slots events
  exact tick_isolated source sequenced seated empty now s versions

/-- A source whose stream two modules modify, each for a sink of its own. -/
def siblings : List Decl :=
  let filter : ModuleInfo :=
    { name := "filter", kind := .processor, inputs := [⟨.fixed .polarity, .exactly 1, true⟩] }
  let sink : ModuleInfo := { name := "sink", kind := .sink, inputs := [⟨.any, .any, false⟩] }
  [ { id := ⟨1⟩, name := "in",
      info := { name := "source", kind := .source, outputs := [.fixed .polarity] } },
    { id := ⟨2⟩, name := "left", input := some "1[1]", info := filter },
    { id := ⟨3⟩, name := "right", input := some "1[1]", info := filter },
    { id := ⟨4⟩, name := "left out", input := some "1[1a2]", info := sink },
    { id := ⟨5⟩, name := "right out", input := some "1[1a3]", info := sink } ]

def siblingModules (id : ModuleId) : StandIn :=
  let info := ((siblings.find? fun d => d.id == id).map (·.info)).getD
    { name := "none", kind := .sink }
  let packet : StandInEmission :=
    { type := .polarity, events := [{ timestamp := 0, x := 0, y := 0, value := 5 }] }
  { spec := { info, change := some .increment, emissions := if id = ⟨1⟩ then [packet] else [] } }

theorem siblings_given_versions : ∃ plan, compile siblings 0 = .ok plan ∧
    let e := (ofPlan plan (fun _ => true) siblingModules).after [.tick {} default]
    let journal := (e.tick ⟨1, 1⟩ default).1.journal
    ∃ v, IsVersions plan.inputs plan.streams journal v ∧
      ∀ c ∈ journal, c.callback = .run → c.given = (arriving plan.inputs v c.caller).map (·.2) := by
  have accepted : ∃ plan, compile siblings 0 = .ok plan := ⟨_, by cbv⟩
  obtain ⟨plan, ok⟩ := accepted
  have initial := ofPlan_initial plan (fun _ => true) siblingModules
  obtain ⟨⟨v, versions⟩, -, given⟩ :=
    runs_given_versions ok initial [.tick {} default] _ ⟨1, 1⟩ default
  exact ⟨plan, ok, v, versions, given v versions⟩

example : (match compile siblings 0 with
    | .error _ => []
    | .ok plan =>
      let e := (ofPlan plan (fun _ => true) siblingModules).after [.tick {} default]
      (e.tick ⟨1, 1⟩ default).1.journal.map fun c =>
        (c.caller.val, c.given.map fun i => i.packet.events.map (·.value))) =
    [(5, [[6]]), (4, [[6]]), (3, [[5]]), (2, [[5]]), (1, [])] := by cbv

end EventFlow

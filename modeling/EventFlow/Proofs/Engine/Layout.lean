import EventFlow.Build
import EventFlow.Pipeline
import EventFlow.Proofs.Compile.Routing
import EventFlow.Proofs.Compile.Schedule
import EventFlow.Proofs.Engine.Turn

/-!
Engines of a compiled plan: `Seated` says how the modules are laid out, and `Fits` the lifecycle
too, which no tick and no command changes. `Initial` is the state that `build` gives, `after` the
state after any commands and ticks.
-/

namespace EventFlow

/-- What an engine relies on in its plan. -/
structure Plan.Sequenced (plan : Plan) : Prop where
  nodup : plan.order.Nodup
  routes : plan.routes.length = plan.order.length
  before : ∀ id p, p ∈ plan.producers id → Before plan.order p id
  consumers : ∀ id p, id ∈ plan.consumers p ↔ p ∈ plan.producers id

namespace Compile

theorem compile_sequenced {decls : List Decl} {generation : Nat} {plan : Plan}
    (h : compile decls generation = .ok plan) : plan.Sequenced := by
  obtain ⟨w, compiled⟩ := compile_compiled h
  obtain ⟨slots, routed, -⟩ := compiled.routed
  exact ⟨compiled.order_nodup, route_length routed, fun _ _ => compiled.producers_before,
    fun _ _ => compiled.mem_consumers⟩

end Compile

namespace Engine

variable {M : Type} {plan : Plan} {e e' : Engine M} {id : ModuleId}

structure Seated (plan : Plan) (e : Engine M) : Prop where
  same : e.plan = plan
  members : e.members.map (fun m => (m.entry.id, m.routes)) = plan.order.zip plan.routes

structure Fits (plan : Plan) (e : Engine M) : Prop extends Seated plan e where
  lifecycle : e.lifecycle.wiring =
    plan.order.map fun id => (id, plan.producers id, plan.consumers id)

namespace Seated

theorem member? (h : Seated plan e) (id : ModuleId) :
    (e.member? id).map (fun m => (m.entry.id, m.routes)) =
      (plan.order.zip plan.routes).find? fun p => p.1 == id := by
  rw [← h.members, List.find?_map]
  rfl

theorem exists_member (h : Seated plan e) (sequenced : plan.Sequenced) (mem : id ∈ plan.order) :
    ∃ m, e.member? id = some m := by
  have fst : (plan.order.zip plan.routes).map (·.1) = plan.order :=
    List.map_fst_zip (Nat.le_of_eq sequenced.routes.symm)
  rw [← fst] at mem
  obtain ⟨p, hp, rfl⟩ := List.mem_map.mp mem
  have found : ((plan.order.zip plan.routes).find? fun q => q.1 == p.1).isSome = true :=
    List.find?_isSome.mpr ⟨p, hp, by simp⟩
  rw [← h.member?, Option.isSome_map] at found
  exact Option.isSome_iff_exists.mp found

theorem mem_order_of_member (h : Seated plan e) {m : Member M} (found : e.member? id = some m) :
    id ∈ plan.order := by
  have same := h.member? id
  rw [found, Option.map_some] at same
  have mem := List.mem_of_find?_eq_some same.symm
  exact Engine.member?_id found ▸ (List.of_mem_zip mem).1

theorem member_at (h : Seated plan e) (sequenced : plan.Sequenced)
    {done rest : List (ModuleId × Routes)} {routes : Routes}
    (split : plan.order.zip plan.routes = done ++ (id, routes) :: rest) :
    ∃ m, e.member? id = some m ∧ m.routes = routes := by
  have fst : (plan.order.zip plan.routes).map (·.1) = plan.order :=
    List.map_fst_zip (Nat.le_of_eq sequenced.routes.symm)
  have nodup := sequenced.nodup
  rw [← fst, split, List.map_append, List.map_cons] at nodup
  have fresh : ∀ p ∈ done, ¬ (p.1 == id) = true := by
    intro p hp same
    have one : p.1 = id := by simpa using same
    exact not_mem_before nodup (List.mem_map.mpr ⟨p, hp, one⟩)
  have found := h.member? id
  rw [split, List.find?_append, List.find?_eq_none.mpr fresh, Option.none_or,
    List.find?_cons_of_pos (by simp)] at found
  obtain ⟨m, there, same⟩ := Option.map_eq_some_iff.mp found
  exact ⟨m, there, (Prod.mk.inj same).2⟩

end Seated

namespace Fits

theorem cell (h : Fits plan e) {c : Cell} (found : e.lifecycle.cell? id = some c) :
    c.producers = plan.producers id ∧ c.consumers = plan.consumers id := by
  have mem : (c.id, c.producers, c.consumers) ∈ e.lifecycle.wiring :=
    List.mem_map_of_mem (List.mem_of_find?_eq_some found)
  rw [h.lifecycle] at mem
  obtain ⟨x, -, same⟩ := List.mem_map.mp mem
  simp only [Prod.mk.injEq] at same
  obtain ⟨rfl, producers, consumers⟩ := same
  rw [Lifecycle.cell?_id found] at producers consumers
  exact ⟨producers.symm, consumers.symm⟩

theorem has (h : Fits plan e) (mem : id ∈ plan.order) : e.lifecycle.has id = true := by
  have listed : (id, plan.producers id, plan.consumers id) ∈ e.lifecycle.wiring := by
    rw [h.lifecycle]
    exact List.mem_map_of_mem mem
  obtain ⟨c, hc, same⟩ := List.mem_map.mp listed
  exact List.find?_isSome.mpr ⟨c, hc, beq_iff_eq.mpr (Prod.mk.inj same).1⟩

theorem neighbours (h : Fits plan e) (mem : id ∈ plan.order) :
    e.lifecycle.producers id = plan.producers id ∧
      e.lifecycle.consumers id = plan.consumers id := by
  obtain ⟨d, found⟩ := Option.isSome_iff_exists.mp (h.has mem)
  obtain ⟨producers, consumers⟩ := h.cell found
  simp [Lifecycle.producers, Lifecycle.consumers, found, producers, consumers]

theorem placed (h : Fits plan e) {c : Cell} (found : e.lifecycle.cell? id = some c) :
    id ∈ plan.order := by
  have mem : (c.id, c.producers, c.consumers) ∈ e.lifecycle.wiring :=
    List.mem_map_of_mem (List.mem_of_find?_eq_some found)
  rw [h.lifecycle] at mem
  obtain ⟨x, hx, same⟩ := List.mem_map.mp mem
  rwa [← Lifecycle.cell?_id found, ← (Prod.mk.inj same).1]

theorem mem_order (h : Fits plan e) (running : e.lifecycle.isRunning id = true) :
    id ∈ plan.order := by
  obtain ⟨c, found, -⟩ := Lifecycle.isRunning_iff.mp running
  exact h.placed found

end Fits

/-! ### Ticks -/

theorem Moved.wiring {l l' : Lifecycle} {calls : List Call} (h : Moved l id calls l') :
    l'.wiring = l.wiring := by
  cases h with
  | started => rw [Lifecycle.wiring_unscheduled, Lifecycle.wiring_markRunning]
  | stopped => rw [Lifecycle.wiring_unscheduled, Lifecycle.wiring_markStopped]
  | failed => rw [Lifecycle.wiring_unscheduled, Lifecycle.wiring_markStopped]
  | _ => rw [Lifecycle.wiring_unscheduled]

theorem Stepped.seated {routes : Routes} {calls : List Call} (h : Stepped e id routes e' calls)
    (seated : Seated plan e) : Seated plan e' := by
  have members := congrArg (List.map fun p : ModuleEntry × Routes => (p.1.id, p.2)) h.members
  simp only [List.map_map, Function.comp_def] at members
  exact ⟨h.plan.trans seated.same, members.trans seated.members⟩

theorem Stepped.fits {routes : Routes} {calls : List Call} (h : Stepped e id routes e' calls)
    (fits : Fits plan e) : Fits plan e' := by
  refine ⟨h.seated fits.toSeated, ?_⟩
  rw [← Lifecycle.wiring_unscheduled, h.lifecycle.wiring, fits.lifecycle]

section
variable [Behaviour M]

/-- What one turn keeps, all turns keep. `rest` are the modules whose turn is still to come. -/
theorem steps_induction {P : List ModuleId → Engine M → Prop} (now : Moment)
    (sequenced : plan.Sequenced)
    (turn : ∀ done id rest e s m calls, plan.order = done ++ id :: rest → Fits plan e →
      P (id :: rest) e → e.member? id = some m → Stepped e id m.routes (step now e s id).1 calls →
      P rest (step now e s id).1)
    {done rest : List ModuleId} (split : plan.order = done ++ rest) {e : Engine M} (s : Signals)
    (fits : Fits plan e) (start : P rest e) :
    P [] (steps now rest e s).1 ∧ Fits plan (steps now rest e s).1 := by
  induction rest generalizing done e s with
  | nil => exact ⟨start, fits⟩
  | cons id rest ih =>
    have mem : id ∈ plan.order := split ▸ List.mem_append_cons_self
    obtain ⟨m, found⟩ := fits.exists_member sequenced mem
    obtain ⟨calls, stepped⟩ := step_stepped now e s found
    have split' := split.trans (List.append_cons done id rest)
    rw [steps]
    exact ih split' _ (stepped.fits fits)
      (turn done id rest e s m calls split fits start found stepped)

/-- A tick is the turns of all modules, with a journal of its own; the slots are cleared at the
end. -/
theorem tick_induction {P : List ModuleId → Engine M → Prop} (now : Moment) (s : Signals)
    (sequenced : plan.Sequenced) (fits : Fits plan e)
    (start : P plan.order { e with journal := [] })
    (turn : ∀ done id rest e s m calls, plan.order = done ++ id :: rest → Fits plan e →
      P (id :: rest) e → e.member? id = some m → Stepped e id m.routes (step now e s id).1 calls →
      P rest (step now e s id).1) :
    ∃ last, P [] last ∧ Fits plan last ∧ (e.tick now s).1 = { last with slots := Slots.empty } := by
  obtain rfl := fits.same
  have fresh : Fits e.plan { e with journal := [] } := ⟨⟨rfl, fits.members⟩, fits.lifecycle⟩
  have whole : e.plan.order = [] ++ e.plan.order := rfl
  obtain ⟨holds, fits⟩ := steps_induction now sequenced turn whole s fresh start
  exact ⟨_, holds, fits, rfl⟩

theorem tick_fits (now : Moment) (s : Signals) (sequenced : plan.Sequenced) (fits : Fits plan e) :
    Fits plan (e.tick now s).1 := by
  obtain ⟨last, -, fits, same⟩ := tick_induction (P := fun _ _ => True) now s sequenced fits
    trivial fun _ _ _ _ _ _ _ _ _ _ _ _ => trivial
  rw [same]
  exact ⟨⟨fits.same, fits.members⟩, fits.lifecycle⟩

/-! ### Commands -/

inductive Event where
  | tick (now : Moment) (signals : Signals)
  | start (id : ModuleId)
  | stop (id : ModuleId)
  | setParam (id : ModuleId) (key : String) (value : ParamValue)
  | reset (id source : ModuleId)

def react (e : Engine M) : Event → Engine M
  | .tick now s => (e.tick now s).1
  | .start id => e.mapLifecycle (·.requestStart id)
  | .stop id => e.mapLifecycle (·.requestStop id)
  | .setParam id key value => e.setParam id key value
  | .reset id source => e.mapLifecycle (·.scheduleReset id source)

def after (e : Engine M) (events : List Event) : Engine M := events.foldl react e

end

structure Initial (plan : Plan) (startup : ModuleId → Bool) (e : Engine M) : Prop
    extends Seated plan e where
  lifecycle : e.lifecycle = Lifecycle.ofPlan plan startup
  slots : e.slots = Slots.empty

theorem Initial.fits {startup : ModuleId → Bool} (h : Initial plan startup e) : Fits plan e := by
  refine ⟨h.toSeated, ?_⟩
  rw [h.lifecycle, Lifecycle.wiring, Lifecycle.ofPlan, List.map_map]
  rfl

def ofPlan [Behaviour M] (plan : Plan) (startup : ModuleId → Bool) (module : ModuleId → M) :
    Engine M where
  plan
  members := (plan.order.zip plan.routes).map fun p =>
    let info := Behaviour.info (module p.1)
    { entry := { id := p.1, name := info.name, version := info.version, kind := info.kind }
      module := module p.1
      routes := p.2 }
  lifecycle := Lifecycle.ofPlan plan startup

theorem ofPlan_initial [Behaviour M] (plan : Plan) (startup : ModuleId → Bool)
    (module : ModuleId → M) : Initial plan startup (ofPlan plan startup module) :=
  ⟨⟨rfl, by simp [ofPlan, Function.comp_def]⟩, rfl, rfl⟩

theorem react_fits [Behaviour M] (sequenced : plan.Sequenced) (fits : Fits plan e) (event : Event) :
    Fits plan (e.react event) := by
  cases event with
  | tick now s => exact tick_fits now s sequenced fits
  | start id =>
    exact ⟨⟨fits.same, fits.members⟩,
      (Lifecycle.wiring_modify (by intro c; rfl) _ _).trans fits.lifecycle⟩
  | stop id =>
    exact ⟨⟨fits.same, fits.members⟩,
      (Lifecycle.wiring_modify (by intro c; rfl) _ _).trans fits.lifecycle⟩
  | setParam id key value =>
    refine ⟨⟨fits.same, ?_⟩,
      (Lifecycle.wiring_modify (by intro c; rfl) _ _).trans fits.lifecycle⟩
    rw [← fits.members]
    simp only [react, setParam, mapLifecycle, modifyMember, List.map_map]
    refine List.map_congr_left fun m _ => ?_
    simp only [Function.comp_apply]
    split <;> rfl
  | reset id source =>
    exact ⟨⟨fits.same, fits.members⟩,
      (Lifecycle.wiring_modify (by intro c; rfl) _ _).trans fits.lifecycle⟩

theorem react_isRunning [Behaviour M] {event : Event} (command : ∀ now s, event ≠ .tick now s)
    (e : Engine M) (id : ModuleId) :
    (e.react event).lifecycle.isRunning id = e.lifecycle.isRunning id := by
  cases event with
  | tick now s => exact absurd rfl (command now s)
  | start x => exact Lifecycle.isRunning_modify (by intro c; exact ⟨rfl, rfl⟩) _ [x] id
  | stop x => exact Lifecycle.isRunning_modify (by intro c; exact ⟨rfl, rfl⟩) _ [x] id
  | setParam x => exact Lifecycle.isRunning_modify (by intro c; exact ⟨rfl, rfl⟩) _ [x] id
  | reset x => exact Lifecycle.isRunning_modify (by intro c; exact ⟨rfl, rfl⟩) _ [x] id

theorem react_slots [Behaviour M] (empty : e.slots = Slots.empty) (event : Event) :
    (e.react event).slots = Slots.empty := by
  cases event with
  | tick => rfl
  | _ => exact empty

theorem after_fits [Behaviour M] (sequenced : plan.Sequenced) {e : Engine M} (fits : Fits plan e)
    (events : List Event) : Fits plan (e.after events) := by
  induction events generalizing e with
  | nil => exact fits
  | cons event events ih => exact ih (react_fits sequenced fits event)

theorem after_slots [Behaviour M] {e : Engine M} (empty : e.slots = Slots.empty)
    (events : List Event) : (e.after events).slots = Slots.empty := by
  induction events generalizing e with
  | nil => exact empty
  | cons event events ih => exact ih (react_slots empty event)

/-! ### Where engines come from -/

theorem routesOf?_order (sequenced : plan.Sequenced) :
    (plan.order.map fun id => (id, (plan.routesOf? id).getD {})) = plan.order.zip plan.routes := by
  refine List.ext_getElem (by simp [sequenced.routes]) fun i short _ => ?_
  rw [List.length_map] at short
  have position : plan.position? plan.order[i] = some i := by
    refine List.idxOf?_eq_some_iff.mpr ⟨short, rfl, fun j below same => ?_⟩
    rw [sequenced.nodup.getElem_inj_iff] at same
    omega
  have short' : i < plan.routes.length := sequenced.routes ▸ short
  have present : plan.routes[i]? = some plan.routes[i] := List.getElem?_eq_getElem short'
  simp [Plan.routesOf?, position, present]

theorem members_of_mapM {routes : ModuleId → Routes} {created : List (M × ModuleEntry)}
    {ids : List ModuleId} {members : List (Member M)}
    (h : ids.mapM (member routes created) = .ok members) :
    members.map (fun m => (m.entry.id, m.routes)) = ids.map fun id => (id, routes id) := by
  induction ids generalizing members with
  | nil =>
    cases h
    rfl
  | cons id ids ih =>
    rw [List.mapM_cons] at h
    obtain ⟨m, made, h⟩ := bind_ok h
    obtain ⟨ms, later, h⟩ := bind_ok h
    cases h
    unfold member at made
    split at made
    · rename_i module entry found
      cases made
      have same : entry.id = id := by simpa using List.find?_some found
      rw [List.map_cons, List.map_cons, ih later, same]
    · cases made

theorem build_initial [Behaviour M] {c : PipelineConfig} {f : Factory M} {generation : Nat}
    (h : build c f generation = .ok e) :
    ∃ decls startup, compile decls generation = .ok e.plan ∧ Initial e.plan startup e := by
  unfold build at h
  split at h
  · cases h
  · obtain ⟨created, -, h⟩ := bind_ok h
    obtain ⟨plan, compiled, h⟩ := bind_ok h
    obtain ⟨members, made, h⟩ := bind_ok h
    cases h
    refine ⟨_, fun id => (c.module? id.val).all (·.runAtStartup), compiled, ⟨rfl, ?_⟩, rfl, rfl⟩
    exact (members_of_mapM made).trans (routesOf?_order (Compile.compile_sequenced compiled))

theorem build_journal [Behaviour M] {c : PipelineConfig} {f : Factory M} {generation : Nat}
    (h : build c f generation = .ok e) : e.journal = [] := by
  unfold build at h
  split at h
  · cases h
  · obtain ⟨_, -, h⟩ := bind_ok h
    obtain ⟨_, -, h⟩ := bind_ok h
    obtain ⟨_, -, h⟩ := bind_ok h
    cases h
    rfl

def eventOf : Command → Option Event
  | .start id => some (.start id)
  | .stop id => some (.stop id)
  | .setParam id key value => some (.setParam id key value)
  | .reset id source => some (.reset id source)
  | _ => none

theorem onModule_engine {p : Pipeline M} (engine : p.engine = some e) (id : ModuleId)
    (f : Engine M → Engine M) :
    (p.onModule id f).engine = some (f e) ∨ (p.onModule id f).engine = some e := by
  simp only [Pipeline.onModule, engine]
  split
  · exact Or.inl rfl
  · exact Or.inr engine

/-- A command for a module that the pipeline has is an event of its engine; for any other module
nothing happens to the engine. -/
theorem handle_react [Behaviour M] {p : Pipeline M} (engine : p.engine = some e) {c : Command}
    {event : Event} (same : eventOf c = some event) :
    (p.handle c).engine = some (e.react event) ∨ (p.handle c).engine = some e := by
  cases c with
  | start id =>
    cases same
    exact onModule_engine engine id _
  | stop id =>
    cases same
    exact onModule_engine engine id _
  | setParam id key value =>
    cases same
    have kept : ({ p with config := Pipeline.setConfigParam p.config id key value } :
      Pipeline M).engine = some e := engine
    exact onModule_engine kept id (·.setParam id key value)
  | reset id source =>
    cases same
    exact onModule_engine engine id _
  | _ => cases same

end Engine
end EventFlow

import EventFlow.Proofs.Callbacks

/-!
Builds that fail. A pipeline can be told a new configuration at any time. If nothing can be built
from it, the modules of the old one exit and nothing happens any more until a build succeeds, which
then begins anew.
-/

namespace EventFlow

namespace Engine

variable {M : Type} [Behaviour M] {plan : Plan} {e : Engine M} {rest : List ModuleId}

theorem stopEach_exits (now : Moment) (s : Signals) (sequenced : plan.Sequenced)
    (fits : Fits plan e) (unwanted : ∀ x, e.lifecycle.wants x = false) (distinct : rest.Nodup) :
    (stopEach now rest e s).1.journal.map (fun c => (c.caller, c.callback)) =
      ((rest.filter e.lifecycle.isRunning).map fun x => (x, Callback.exit)).reverse ++
        e.journal.map fun c => (c.caller, c.callback) := by
  induction rest generalizing e s with
  | nil => rfl
  | cons id rest ih =>
    obtain ⟨fresh, distinct⟩ := List.nodup_cons.mp distinct
    cases running : e.lifecycle.isRunning id with
    | false =>
      rw [stopEach_skip running, ih s fits unwanted distinct,
        List.filter_cons_of_neg (by simp [running])]
    | true =>
      have next := Lifecycle.nextStep_of_unwanted running (unwanted id)
      obtain ⟨m, found⟩ := fits.exists_member sequenced (fits.mem_order running)
      obtain ⟨c, left⟩ := stop_left now m e s
      rw [member?_id found] at left
      have quiet : ∀ x, (stop now m e s).1.lifecycle.wants x = false := by
        intro x
        rw [left.lifecycle, Bool.eq_false_iff]
        intro wanted
        rw [Lifecycle.wants_markStopped, unwanted x] at wanted
        cases wanted.1
      have others : rest.filter (stop now m e s).1.lifecycle.isRunning =
          rest.filter e.lifecycle.isRunning := by
        refine List.filter_congr fun x later => ?_
        have other : x ≠ id := fun same => fresh (same ▸ later)
        rw [left.lifecycle, Bool.eq_iff_iff, Lifecycle.isRunning_markStopped]
        exact and_iff_left other
      simp only [stopEach, next, found]
      rw [ih _ (left.fits fits) quiet distinct, others, left.journal,
        List.filter_cons_of_pos running]
      simp [left.made.caller, left.exit]

theorem stopAll_exits (now : Moment) (s : Signals) (sequenced : plan.Sequenced)
    (fits : Fits plan e) :
    (e.stopAll now s).1.journal.map (fun c => (c.caller, c.callback)) =
      ((plan.order.filter e.lifecycle.isRunning).map fun x => (x, Callback.exit)).reverse := by
  obtain rfl := fits.same
  let asked := { e with journal := [] }.mapLifecycle Lifecycle.requestStopAll
  have asked_fits : Fits e.plan asked :=
    ⟨⟨rfl, fits.members⟩, Lifecycle.wiring_requestStopAll.trans fits.lifecycle⟩
  have same : asked.lifecycle.isRunning = e.lifecycle.isRunning :=
    funext fun _ => Lifecycle.isRunning_requestStopAll
  have exits := stopEach_exits now s sequenced asked_fits
    (fun _ => Lifecycle.wants_requestStopAll) sequenced.nodup
  rw [same] at exits
  exact exits.trans (List.append_nil _)

end Engine

open Engine

namespace Pipeline

variable {M : Type}

def isRunning (p : Pipeline M) (id : ModuleId) : Bool :=
  p.engine.any fun e => e.lifecycle.isRunning id

variable [Behaviour M]

/-- What can be done with a pipeline: an act, or a build of the configuration that it has. -/
inductive Deed where
  | act (a : Act)
  | build

def undertake (p : Pipeline M) : Deed → Pipeline M
  | .act a => p.perform a
  | .build => p.build.1

def live (p : Pipeline M) (deeds : List Deed) : Pipeline M := deeds.foldl undertake p

def outcome? (p : Pipeline M) : Deed → Option (Except PipelineError Unit)
  | .build => some p.build.2
  | .act (.command (.reconfigure config)) => some { p with config }.build.2
  | .act _ => none

/-- No build among the deeds succeeds. -/
def Unbuilt (p : Pipeline M) : List Deed → Prop
  | [] => True
  | d :: deeds => p.outcome? d ≠ some (.ok ()) ∧ Unbuilt (p.undertake d) deeds

def callsIn (p : Pipeline M) (d : Deed) : List Call := (p.undertake d).callsSince p

def callsAlong (p : Pipeline M) (deeds : List Deed) : List Call := (p.live deeds).callsSince p

inductive Reachable : Pipeline M → Prop
  | new {p : Pipeline M} (unbuilt : p.engine = none) : Reachable p
  | deed {p : Pipeline M} (d : Deed) : Reachable p → Reachable (p.undertake d)
  | aside {p q : Pipeline M} : Reachable p → q.engine = p.engine → Reachable q

variable {p q : Pipeline M} {e : Engine M} {error : PipelineError}

/-! ### Builds -/

theorem build_succeeds (ok : p.build.2 = .ok ()) :
    ∃ e, Engine.build p.config p.factory (p.generation + 1) = .ok e ∧
      p.build.1.engine = some e := by
  rcases build_cases p with ⟨e, made, same⟩ | ⟨error, -, same⟩
  · exact ⟨e, made, by rw [same]⟩
  · rw [same] at ok
    cases ok

theorem build_fails (failed : p.build.2 ≠ .ok ()) :
    p.build.1 = p.teardown.nextGeneration := by
  rcases build_cases p with ⟨e, -, same⟩ | ⟨error, -, same⟩
  · rw [same] at failed
    exact absurd rfl failed
  · rw [same]

theorem rebuild_fails (failed : p.build.2 = .error error) :
    p.rebuild = p.teardown.nextGeneration.publish (.buildFailed error.message) := by
  have same : p.build = (p.build.1, .error error) := by rw [← failed]
  rw [Pipeline.rebuild, same]
  simp only
  rw [build_fails (by simp [failed])]

theorem outcome?_ok {d : Deed} (ok : p.outcome? d = some (.ok ())) :
    ∃ e, Engine.build (p.undertake d).config p.factory (p.generation + 1) = .ok e ∧
      (p.undertake d).engine = some e ∧ e.slots = Slots.empty ∧
      ∀ id ∈ e.plan.order, e.lifecycle.status? id = some .stopped := by
  have fresh {p : Pipeline M} (ok : p.build.2 = .ok ()) :
      ∃ e, Engine.build p.build.1.config p.factory (p.generation + 1) = .ok e ∧
        p.build.1.engine = some e ∧ e.slots = Slots.empty ∧
        ∀ id ∈ e.plan.order, e.lifecycle.status? id = some .stopped := by
    obtain ⟨e, made, engine⟩ := build_succeeds ok
    obtain ⟨decls, startup, -, initial⟩ := build_initial made
    have config : p.build.1.config = p.config := by
      rcases build_cases p with ⟨e, -, same⟩ | ⟨error, -, same⟩ <;>
        rw [same, nextGeneration, teardown_frame]
    refine ⟨e, config ▸ made, engine, initial.slots, fun id placed => ?_⟩
    rw [initial.lifecycle, Lifecycle.status?, Lifecycle.cell?_ofPlan, if_pos placed]
    rfl
  cases d with
  | build => exact fresh (Option.some.inj ok)
  | act a =>
    cases a with
    | command c =>
      cases c with
      | reconfigure config =>
        have built := fresh (p := { p with config }) (Option.some.inj ok)
        rw [undertake, perform, handle, rebuild_frame]
        exact built
      | _ => cases ok
    | _ => cases ok

theorem outcome?_reconfigure (p : Pipeline M) (config : PipelineConfig) :
    p.outcome? (.act (.command (.reconfigure config))) =
      some ((Engine.build config p.factory (p.generation + 1)).map fun _ => ()) := by
  have outcome (p : Pipeline M) : p.build.2 =
      (Engine.build p.config p.factory (p.generation + 1)).map fun _ => () := by
    rcases build_cases p with ⟨e, made, same⟩ | ⟨error, made, same⟩ <;> rw [same, made] <;> rfl
  exact congrArg some (outcome { p with config })

omit [Behaviour M] in
theorem onModule_factory (p : Pipeline M) (id : ModuleId) (f : Engine M → Engine M) :
    (p.onModule id f).factory = p.factory := by
  unfold onModule
  split
  · split <;> rfl
  · rfl

theorem build_factory (p : Pipeline M) : p.build.1.factory = p.factory := by
  rcases build_cases p with ⟨e, -, same⟩ | ⟨error, -, same⟩ <;>
    rw [same, nextGeneration, teardown_frame]

theorem undertake_factory (p : Pipeline M) (d : Deed) : (p.undertake d).factory = p.factory := by
  cases d with
  | build => exact build_factory p
  | act a =>
    cases a with
    | tick =>
      unfold undertake perform Pipeline.tick
      simp only
      split <;> rfl
    | wait => rfl
    | leave =>
      rw [undertake, perform, Pipeline.leave, teardown_frame]
      rfl
    | command c =>
      cases c with
      | reconfigure config =>
        rw [undertake, perform, handle, rebuild_frame]
        exact build_factory _
      | start | stop | setParam | reset => exact onModule_factory ..
      | stats | topology | shutdown => rfl

theorem live_factory (p : Pipeline M) (deeds : List Deed) : (p.live deeds).factory = p.factory := by
  induction deeds generalizing p with
  | nil => rfl
  | cons d deeds ih => exact (ih (p.undertake d)).trans (undertake_factory p d)

/-! ### Nothing is built -/

theorem tick_halted (halted : p.engine = none) : p.tick = p := by
  simp only [Pipeline.tick, halted]

theorem teardown_halted (halted : p.engine = none) : p.teardown = p := by
  simp only [teardown, halted]

theorem build_halted (halted : p.engine = none) :
    p.build.1.trace = .building (p.generation + 1) :: p.trace := by
  rw [build_trace, teardown_halted halted]

omit [Behaviour M] in
theorem onModule_halted (halted : p.engine = none) (id : ModuleId) (f : Engine M → Engine M) :
    (p.onModule id f).engine = none ∧ (p.onModule id f).ticks = p.ticks := by
  simp only [onModule, halted]
  exact ⟨halted, rfl⟩

/-- While nothing is built, a deed adds to the trace at most that a build begins. -/
theorem undertake_trace (halted : p.engine = none) (d : Deed) :
    (p.undertake d).trace =
      if (p.outcome? d).isSome then .building (p.generation + 1) :: p.trace else p.trace := by
  cases d with
  | build => exact build_halted halted
  | act a =>
    cases a with
    | tick => exact congrArg Pipeline.trace (tick_halted halted)
    | wait => rfl
    | leave =>
      rw [undertake, perform, Pipeline.leave, teardown_halted halted]
      rfl
    | command c =>
      cases c with
      | reconfigure config =>
        exact (congrArg Pipeline.trace (rebuild_frame { p with config })).trans
          (build_halted halted)
      | _ => exact perform_trace p (by simp) id

theorem callsIn_halted (halted : p.engine = none) (d : Deed) : p.callsIn d = [] := by
  have grown := undertake_trace halted d
  split at grown
  · exact callsSince_eq (t := [.building (p.generation + 1)]) grown
  · exact callsSince_self grown

/-- While nothing is built, no deed builds anything or counts a tick, unless its build succeeds. -/
theorem undertake_halted (halted : p.engine = none) {d : Deed}
    (fails : p.outcome? d ≠ some (.ok ())) :
    (p.undertake d).engine = none ∧ (p.undertake d).ticks = p.ticks := by
  have unbuilt {p : Pipeline M} (failed : p.build.2 ≠ .ok ()) :
      p.build.1.engine = none ∧ p.build.1.ticks = p.ticks := by
    rw [build_fails failed, nextGeneration, teardown_frame]
    exact ⟨rfl, rfl⟩
  have unknown (id : ModuleId) (f : Engine M → Engine M) := onModule_halted halted id f
  cases d with
  | build => exact unbuilt fun ok => fails (congrArg some ok)
  | act a =>
    cases a with
    | tick =>
      rw [undertake, perform, tick_halted halted]
      exact ⟨halted, rfl⟩
    | wait time signals => exact ⟨halted, rfl⟩
    | leave =>
      rw [undertake, perform, Pipeline.leave, teardown_halted halted]
      exact ⟨halted, rfl⟩
    | command c =>
      cases c with
      | start id => exact unknown id _
      | stop id => exact unknown id _
      | setParam id key value =>
        exact onModule_halted (p := { p with config := setConfigParam p.config id key value })
          halted id _
      | reset id source => exact unknown id _
      | reconfigure config =>
        rw [undertake, perform, handle, rebuild_frame]
        exact unbuilt (p := { p with config }) fun ok => fails (congrArg some ok)
      | stats => exact ⟨halted, rfl⟩
      | topology => exact ⟨halted, rfl⟩
      | shutdown => exact ⟨halted, rfl⟩

theorem undertake_grows (p : Pipeline M) (d : Deed) : p.trace <:+ (p.undertake d).trace := by
  cases d with
  | act a => exact perform_grows p a
  | build =>
    rw [undertake, build_trace]
    exact (teardown_grows p).trans (List.suffix_cons ..)

theorem live_grows (p : Pipeline M) (deeds : List Deed) : p.trace <:+ (p.live deeds).trace := by
  induction deeds generalizing p with
  | nil => exact List.suffix_rfl
  | cons d deeds ih => exact (undertake_grows p d).trans (ih (p.undertake d))

theorem live_halted (halted : p.engine = none) {deeds : List Deed} (unbuilt : p.Unbuilt deeds) :
    (p.live deeds).engine = none ∧ (p.live deeds).ticks = p.ticks ∧ p.callsAlong deeds = [] := by
  induction deeds generalizing p with
  | nil => exact ⟨halted, rfl, callsSince_self rfl⟩
  | cons d deeds ih =>
    obtain ⟨fails, unbuilt⟩ := unbuilt
    obtain ⟨still, ticks⟩ := undertake_halted halted fails
    obtain ⟨last, same, none⟩ := ih still unbuilt
    have both : p.callsAlong (d :: deeds) = (p.undertake d).callsAlong deeds ++ p.callsIn d :=
      callsSince_trans (undertake_grows p d) (live_grows (p.undertake d) deeds)
    exact ⟨last, same.trans ticks, by rw [both, callsIn_halted halted, none, List.append_nil]⟩

/-! ### Reachable pipelines -/

theorem Reachable.rebuild (h : Reachable p) : Reachable p.rebuild := by
  refine Reachable.aside (h.deed .build) ?_
  rw [rebuild_frame]
  rfl

theorem Reachable.process (h : Reachable p) : Reachable p.process := by
  have through : ∀ (commands : List Command) {p : Pipeline M}, Reachable p →
      Reachable (commands.foldl handle p) := by
    intro commands
    induction commands with
    | nil => exact fun h => h
    | cons c commands ih => exact fun h => ih (h.deed (.act (.command c)))
  exact through p.commands (h.aside rfl)

theorem Reachable.finish (h : Reachable p) : Reachable p.finish := by
  have tick {p : Pipeline M} (h : Reachable p) : Reachable p.tick := h.deed (.act .tick)
  have launched : Reachable p.launch := by
    unfold Pipeline.launch
    split
    · exact tick h.rebuild
    · exact tick h
  have woken : Reachable p.launch.wake := by
    unfold Pipeline.wake
    simp only
    split
    · exact tick launched.process
    · exact launched.process
  unfold Pipeline.finish
  refine Reachable.deed (.act .leave) ?_
  split
  · exact woken.aside rfl
  · exact launched.aside rfl

theorem built_alive (engine : p.build.1.engine = some e) : ∃ plan calls, Alive plan calls e := by
  rcases same : p.build with ⟨q, ⟨error⟩ | ⟨⟨⟩⟩⟩
  · rw [build_fails (by simp [same]), nextGeneration, teardown_engine] at engine
    cases engine
  · rw [same] at engine
    obtain ⟨e', there, alive⟩ := build_alive same
    obtain rfl : e = e' := Option.some.inj (engine.symm.trans there)
    exact ⟨_, _, alive⟩

theorem outcome?_act {a : Act} (goes : ¬ a.Ends) : p.outcome? (.act a) = none := by
  cases a with
  | command c =>
    cases c with
    | reconfigure => exact absurd trivial goes
    | _ => rfl
  | _ => rfl

theorem Reachable.alive (h : Reachable p) (engine : p.engine = some e) :
    ∃ plan calls, Alive plan calls e := by
  induction h generalizing e with
  | new unbuilt =>
    rw [unbuilt] at engine
    cases engine
  | aside _ same ih => exact ih (same.symm.trans engine)
  | @deed p d h ih =>
    cases d with
    | build => exact built_alive engine
    | act a =>
      -- What ends an engine puts a new one in its place or none.
      by_cases ends : a.Ends
      · cases a with
        | tick => exact absurd ends id
        | wait => exact absurd ends id
        | leave =>
          rw [undertake, perform, Pipeline.leave, teardown_frame] at engine
          cases engine
        | command c =>
          cases c with
          | reconfigure config =>
            rw [undertake, perform, handle, rebuild_frame] at engine
            exact built_alive engine
          | _ => exact absurd ends id
      · cases before : p.engine with
        | none =>
          have still := (undertake_halted before (d := .act a) (by simp [outcome?_act ends])).1
          rw [still] at engine
          cases engine
        | some e₀ =>
          obtain ⟨plan, calls, alive⟩ := ih before
          obtain ⟨e', there, alive⟩ := perform_alive before alive ends
          obtain rfl : e = e' := Option.some.inj (engine.symm.trans there)
          exact ⟨_, _, alive⟩

/-- A new configuration makes the modules that run exit before anything is built, whether or not a
build comes of it. -/
theorem Reachable.exits (h : Reachable p) (config : PipelineConfig) :
    ∃ exits, (p.perform (.command (.reconfigure config))).trace =
        .building (p.generation + 1) :: exits.map .call ++ p.trace ∧
      ∀ id, (callsOf id exits).map (·.callback) = if p.isRunning id then [.exit] else [] := by
  have trace : (p.perform (.command (.reconfigure config))).trace =
      .building (p.generation + 1) :: p.teardown.trace := by
    rw [perform, handle, rebuild_trace, teardown_config]
  rw [trace]
  cases engine : p.engine with
  | none =>
    refine ⟨[], by rw [teardown_halted engine]; rfl, fun id => ?_⟩
    simp [isRunning, engine, callsOf]
  | some e =>
    obtain ⟨plan, past, alive⟩ := h.alive engine
    refine ⟨(e.stopAll p.now p.signals).1.journal, by rw [teardown_trace engine]; rfl,
      fun id => ?_⟩
    have all := stopAll_exits p.now p.signals alive.sequenced alive.fits
    have own : (callsOf id (e.stopAll p.now p.signals).1.journal).map (·.callback) =
        (((e.stopAll p.now p.signals).1.journal.map fun c => (c.caller, c.callback)).filter
          fun c => c.1 = id).map (·.2) := by
      rw [List.filter_map, List.map_map]
      rfl
    have once : (plan.order.filter e.lifecycle.isRunning).filter (fun x => x = id) =
        if e.lifecycle.isRunning id then [id] else [] := by
      have distinct := alive.sequenced.nodup.filter e.lifecycle.isRunning
      rw [List.filter_eq]
      split
      · rename_i running
        have mem := List.mem_filter.mpr ⟨alive.fits.mem_order running, running⟩
        rw [List.count_eq_one_of_mem distinct mem]
        rfl
      · rename_i stopped
        rw [List.count_eq_zero_of_not_mem fun mem => stopped (List.mem_filter.mp mem).2]
        rfl
    simp only [isRunning, engine, Option.any_some]
    rw [own, all, List.filter_reverse, List.filter_map]
    simp only [Function.comp_def, once]
    split <;> rfl

end Pipeline

open Pipeline

/-- A new configuration from which nothing can be built: before the build begins, each module that
runs exits once and no other callback is called, and then nothing is called. Nothing is left of the
plan, and whatever is done afterwards, nothing is called and no tick counts until a build succeeds.
That one has all modules stopped and all slots empty, and calls nothing either. -/
theorem failed_reconfigure_halts {M : Type} [Behaviour M] {p : Pipeline M}
    (reachable : Reachable p) {config : PipelineConfig} {error : PipelineError}
    (failed : p.outcome? (.act (.command (.reconfigure config))) = some (.error error)) :
    let command : Deed := .act (.command (.reconfigure config))
    let halted := p.undertake command
    (∃ exits, halted.trace = .building (p.generation + 1) :: exits.map .call ++ p.trace ∧
      ∀ id, (callsOf id exits).map (·.callback) = if p.isRunning id then [.exit] else []) ∧
    (∃ signals : Signals, halted = { p with
      config
      engine := none
      generation := p.generation + 1
      signals := signals.publish (.buildFailed error.message)
      trace := halted.trace }) ∧
    halted.plan? = none ∧ halted.stats.running = 0 ∧ halted.stats.stopped = 0 ∧
    halted.stats.generation = p.stats.generation + 1 ∧
    ∀ later, Unbuilt halted later →
      let q := halted.live later
      halted.callsAlong later = [] ∧ q.stats.ticks = p.stats.ticks ∧ q.tick = q ∧
      ∀ d, q.outcome? d = some (.ok ()) → q.callsIn d = [] ∧
        ∃ e, Engine.build (q.undertake d).config p.factory (q.generation + 1) = .ok e ∧
          (q.undertake d).engine = some e ∧ e.slots = Slots.empty ∧
          ∀ id ∈ e.plan.order, e.lifecycle.status? id = some .stopped := by
  intro command halted
  have same : ∃ signals : Signals, halted = { p with
      config
      engine := none
      generation := p.generation + 1
      signals := signals.publish (.buildFailed error.message)
      trace := halted.trace } := by
    have rebuilt : halted = _ := rebuild_fails (p := { p with config }) (Option.some.inj failed)
    rw [teardown_config, teardown_frame] at rebuilt
    refine ⟨p.teardown.signals, ?_⟩
    rw [rebuilt]
    rfl
  obtain ⟨signals, frame⟩ := same
  have gone : halted.engine = none := by rw [frame]
  have ticks : halted.ticks = p.ticks := by rw [frame]
  refine ⟨reachable.exits config, ⟨signals, frame⟩, ?_, ?_, ?_, ?_, fun later unbuilt => ?_⟩
  · rw [plan?, gone]
    rfl
  · simp [stats, gone]
  · simp [stats, gone]
  · rw [frame]
    rfl
  · obtain ⟨still, count, calls⟩ := live_halted gone unbuilt
    refine ⟨calls, count.trans ticks, tick_halted still, fun d ok =>
      ⟨callsIn_halted still d, ?_⟩⟩
    rw [← undertake_factory p command, ← live_factory halted later]
    exact outcome?_ok ok

/-- The sink of `pair` is to read a stream that nobody has. -/
def pairAstray : PipelineConfig :=
  { pair.config with modules := pair.config.modules.map fun m =>
      { m with input := m.input.map fun _ => "1[7]" } }

theorem pair_builds (generation : Nat) :
    ∃ e, Engine.build pair.config pair.factory generation = .ok e :=
  ⟨_, by cbv⟩

theorem pairAstray_fails (generation : Nat) :
    ∃ error, Engine.build pairAstray pair.factory generation = .error error :=
  ⟨_, by cbv⟩

/-- The pair runs when it is led astray, is asked in vain to start, and gets its own configuration
back. -/
theorem pair_halted :
    let running := pair.live [.build, .act .tick]
    let command : Deed := .act (.command (.reconfigure pairAstray))
    let halted := running.undertake command
    let later : List Deed := [.act .tick, .act (.command (.start ⟨1⟩)), .act .tick]
    let again : Deed := .act (.command (.reconfigure pair.config))
    (∃ error, running.outcome? command = some (.error error)) ∧
    (∃ exits, halted.trace =
        .building (running.generation + 1) :: exits.map .call ++ running.trace ∧
      ∀ id, (callsOf id exits).map (·.callback) = if running.isRunning id then [.exit] else []) ∧
    Unbuilt halted later ∧ halted.callsAlong later = [] ∧
    (halted.live later).outcome? again = some (.ok ()) ∧
    ∃ e, ((halted.live later).undertake again).engine = some e ∧ e.slots = Slots.empty ∧
      ∀ id ∈ e.plan.order, e.lifecycle.status? id = some .stopped := by
  intro running command halted later again
  have reachable : Reachable running := ((Reachable.new rfl).deed .build).deed (.act .tick)
  have same : running.factory = pair.factory := live_factory ..
  obtain ⟨error, fails⟩ := pairAstray_fails (running.generation + 1)
  have failed : running.outcome? command = some (.error error) := by
    rw [outcome?_reconfigure, same, fails]
    rfl
  have unbuilt : Unbuilt halted later := by simp [later, Unbuilt, outcome?]
  have ok : (halted.live later).outcome? again = some (.ok ()) := by
    obtain ⟨e, built⟩ := pair_builds ((halted.live later).generation + 1)
    rw [outcome?_reconfigure, live_factory, undertake_factory, same, built]
    rfl
  obtain ⟨exits, -, -, -, -, -, afterwards⟩ := failed_reconfigure_halts reachable failed
  obtain ⟨calls, -, -, anew⟩ := afterwards later unbuilt
  obtain ⟨-, e, -, built⟩ := anew again ok
  exact ⟨⟨error, failed⟩, exits, unbuilt, calls, ok, e, built⟩

end EventFlow

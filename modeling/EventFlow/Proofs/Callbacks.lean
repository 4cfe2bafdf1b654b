import EventFlow.Module.StandIn
import EventFlow.Proofs.Engine.Typestate

/-!
The life of a build: from the build that succeeds, through any commands and ticks, to the teardown
by a new configuration or by the end of the pipeline. Histories are lists of calls, with the latest
one first.
-/

namespace EventFlow
open Engine

namespace Pipeline

variable {M : Type} {p q : Pipeline M} {plan : Plan} {h : List Call} {e : Engine M}

/-- An engine that fits its plan, with its history. -/
structure Alive (plan : Plan) (h : List Call) (e : Engine M) : Prop where
  sequenced : plan.Sequenced
  fits : Fits plan e
  logged : Logged e.lifecycle h

theorem Alive.topology (alive : Alive plan h e) (id : ModuleId) :
    (∃ m ∈ e.topology.modules, m.id = id ∧ m.status = .running) ↔ Up id h := by
  rw [← alive.logged.running]
  constructor
  · rintro ⟨shown, listed, rfl, status⟩
    obtain ⟨m, -, rfl⟩ := List.mem_map.mp listed
    simp only at status ⊢
    cases known : e.lifecycle.status? m.entry.id with
    | none =>
      rw [known] at status
      cases status
    | some st =>
      rw [known, Option.getD_some] at status
      simp [Lifecycle.isRunning, known, status]
  · intro running
    obtain ⟨m, found⟩ := alive.fits.exists_member alive.sequenced (alive.fits.mem_order running)
    obtain rfl := member?_id found
    refine ⟨_, List.mem_map_of_mem (List.mem_of_find?_eq_some found), rfl, ?_⟩
    rw [beq_iff_eq.mp running, Option.getD_some]

/-! ### Acts -/

inductive Act where
  | tick
  | command (c : Command)
  /-- Time passes, and somebody else sends and receives signals. -/
  | wait (time : Nat) (signals : Signals)
  | leave

/-- The act tears down what is built. -/
def Act.Ends : Act → Prop
  | .leave => True
  | .command (.reconfigure _) => True
  | _ => False

variable [Behaviour M]

def perform (p : Pipeline M) : Act → Pipeline M
  | .tick => p.tick
  | .command c => p.handle c
  | .wait time signals => { p with time, signals }
  | .leave => p.leave

def after (p : Pipeline M) (acts : List Act) : Pipeline M := acts.foldl perform p

/-- The calls of modules that led here from an earlier state. -/
def callsSince (q p : Pipeline M) : List Call :=
  (q.trace.take (q.trace.length - p.trace.length)).filterMap Happening.call?

def calls (p : Pipeline M) (a : Act) : List Call := (p.perform a).callsSince p

def history (p : Pipeline M) (acts : List Act) : List Call := (p.after acts).callsSince p

/-! ### What is torn down and built -/

theorem teardown_frame (p : Pipeline M) :
    p.teardown =
      { p with engine := none, signals := p.teardown.signals, trace := p.teardown.trace } := by
  unfold teardown
  split
  · rename_i none
    rw [← none]
  · rfl

@[simp] theorem teardown_engine (p : Pipeline M) : p.teardown.engine = none := by
  rw [teardown_frame]

theorem teardown_config (p : Pipeline M) (config : PipelineConfig) :
    ({ p with config } : Pipeline M).teardown = { p.teardown with config } := by
  obtain ⟨factory, -, engine⟩ := p
  cases engine <;> rfl

/-- A teardown makes the calls that stop the modules which are built. -/
theorem teardown_trace (engine : p.engine = some e) :
    p.teardown.trace = (e.stopAll p.now p.signals).1.journal.map .call ++ p.trace := by
  simp only [teardown, engine, called]

/-- All that a build does; none of its calls is of the modules that it makes. -/
theorem build_cases (p : Pipeline M) :
    (∃ e, Engine.build p.config p.factory (p.generation + 1) = .ok e ∧ p.build =
      ({ p.teardown.nextGeneration with engine := some e, built := true }, .ok ())) ∨
    ∃ error, Engine.build p.config p.factory (p.generation + 1) = .error error ∧
      p.build = (p.teardown.nextGeneration, .error error) := by
  have same : Engine.build p.teardown.nextGeneration.config p.teardown.nextGeneration.factory
      p.teardown.nextGeneration.generation =
        Engine.build p.config p.factory (p.generation + 1) := by
    rw [teardown_frame]
    rfl
  simp only [Pipeline.build, same]
  cases made : Engine.build p.config p.factory (p.generation + 1) with
  | ok e =>
    refine Or.inl ⟨e, rfl, ?_⟩
    simp only [called, build_journal made, List.map_nil, List.nil_append]
  | error error => exact Or.inr ⟨error, rfl, rfl⟩

theorem build_trace (p : Pipeline M) :
    p.build.1.trace = .building (p.generation + 1) :: p.teardown.trace := by
  rcases build_cases p with ⟨e, -, same⟩ | ⟨error, -, same⟩ <;>
    rw [same, nextGeneration, teardown_frame]

theorem rebuild_frame (p : Pipeline M) :
    p.rebuild = { p.build.1 with signals := p.rebuild.signals } := by
  unfold Pipeline.rebuild
  rcases p.build with ⟨q, ⟨error⟩ | ⟨⟨⟩⟩⟩ <;> rfl

theorem rebuild_trace (p : Pipeline M) :
    p.rebuild.trace = .building (p.generation + 1) :: p.teardown.trace := by
  rw [rebuild_frame]
  exact build_trace p

/-! ### Calls are only added -/

omit [Behaviour M] in
@[simp] theorem filterMap_call (calls : List Call) :
    (calls.map Happening.call).filterMap Happening.call? = calls := by
  rw [List.filterMap_map]
  exact List.filterMap_some

omit [Behaviour M] in
theorem callsSince_eq {t : List Happening} (grown : q.trace = t ++ p.trace) :
    q.callsSince p = t.filterMap Happening.call? := by
  rw [callsSince, grown, List.length_append, Nat.add_sub_cancel, List.take_left]

omit [Behaviour M] in
theorem callsSince_self (same : q.trace = p.trace) : q.callsSince p = [] :=
  callsSince_eq (t := []) same

omit [Behaviour M] in
theorem callsSince_trans {r : Pipeline M} (first : p.trace <:+ q.trace)
    (second : q.trace <:+ r.trace) :
    r.callsSince p = r.callsSince q ++ q.callsSince p := by
  obtain ⟨early, first⟩ := first
  obtain ⟨late, second⟩ := second
  have both : r.trace = (late ++ early) ++ p.trace := by
    rw [← second, ← first, List.append_assoc]
  rw [callsSince_eq both, callsSince_eq second.symm, callsSince_eq first.symm,
    List.filterMap_append]

theorem teardown_grows (p : Pipeline M) : p.trace <:+ p.teardown.trace := by
  cases engine : p.engine with
  | none => rw [teardown, engine]
  | some e =>
    rw [teardown_trace engine]
    exact List.suffix_append ..

theorem rebuild_grows (p : Pipeline M) : p.trace <:+ p.rebuild.trace := by
  rw [rebuild_trace]
  exact (teardown_grows p).trans (List.suffix_cons ..)

omit [Behaviour M] in
theorem onModule_trace (p : Pipeline M) (id : ModuleId) (f : Engine M → Engine M) :
    (p.onModule id f).trace = p.trace := by
  unfold onModule
  split
  · split <;> rfl
  · rfl

theorem perform_trace (p : Pipeline M) {a : Act} (other : a ≠ .tick) (goes : ¬ a.Ends) :
    (p.perform a).trace = p.trace := by
  cases a with
  | tick => exact absurd rfl other
  | leave => exact absurd trivial goes
  | wait => rfl
  | command c =>
    cases c with
    | reconfigure => exact absurd trivial goes
    | start | stop | setParam | reset => exact onModule_trace ..
    | stats | topology | shutdown => rfl

theorem perform_grows (p : Pipeline M) (a : Act) : p.trace <:+ (p.perform a).trace := by
  have quiet (other : a ≠ .tick) (goes : ¬ a.Ends) : p.trace <:+ (p.perform a).trace := by
    rw [perform_trace p other goes]
  cases a with
  | tick =>
    rw [perform, Pipeline.tick]
    split
    · exact List.suffix_rfl
    · exact List.suffix_append ..
  | leave => exact teardown_grows p
  | wait => exact quiet (by simp) id
  | command c =>
    cases c with
    | reconfigure config => exact rebuild_grows { p with config }
    | _ => exact quiet (by simp) id

theorem after_grows (p : Pipeline M) (acts : List Act) : p.trace <:+ (p.after acts).trace := by
  induction acts generalizing p with
  | nil => exact List.suffix_rfl
  | cons a acts ih => exact (perform_grows p a).trans (ih (p.perform a))

theorem history_cons (p : Pipeline M) (a : Act) (acts : List Act) :
    p.history (a :: acts) = (p.perform a).history acts ++ p.calls a :=
  callsSince_trans (perform_grows p a) (after_grows (p.perform a) acts)

theorem history_append (p : Pipeline M) (acts : List Act) (last : Act) :
    p.history (acts ++ [last]) = (p.after acts).calls last ++ p.history acts := by
  rw [history, after, List.foldl_append]
  exact callsSince_trans (after_grows p acts) (perform_grows (p.after acts) last)

theorem calls_other (p : Pipeline M) {a : Act} (other : a ≠ .tick) (goes : ¬ a.Ends) :
    p.calls a = [] :=
  callsSince_self (perform_trace p other goes)

theorem calls_tick (engine : p.engine = some e) :
    p.calls .tick = (e.tick p.now p.signals).1.journal := by
  have grown : (p.perform .tick).trace =
      (e.tick p.now p.signals).1.journal.map .call ++ p.trace := by
    simp only [perform, Pipeline.tick, engine, called]
  rw [calls, callsSince_eq grown, filterMap_call]

/-- What ends a build calls the modules that are built to stop them, and no others. -/
theorem calls_ending (engine : p.engine = some e) {a : Act} (ends : a.Ends) :
    p.calls a = (e.stopAll p.now p.signals).1.journal := by
  cases a with
  | tick => exact absurd ends id
  | wait => exact absurd ends id
  | leave => exact (callsSince_eq (teardown_trace engine)).trans (filterMap_call _)
  | command c =>
    cases c with
    | reconfigure config =>
      have grown : (p.handle (.reconfigure config)).trace =
          (.building (p.generation + 1) :: (e.stopAll p.now p.signals).1.journal.map .call) ++
            p.trace := by
        rw [handle, rebuild_trace, teardown_config]
        exact congrArg _ (teardown_trace engine)
      exact (callsSince_eq grown).trans (filterMap_call _)
    | _ => exact absurd ends id

/-! ### Up to the teardown -/

theorem Alive.react (alive : Alive plan h e) {event : Engine.Event}
    (command : ∀ now s, event ≠ .tick now s) : Alive plan h (e.react event) := by
  refine ⟨alive.sequenced, react_fits alive.sequenced alive.fits event, alive.logged.proper, ?_⟩
  intro x
  rw [react_isRunning command]
  exact alive.logged.running x

theorem perform_alive (engine : p.engine = some e) (alive : Alive plan h e) {a : Act}
    (goes : ¬ a.Ends) :
    ∃ e', (p.perform a).engine = some e' ∧ Alive plan (p.calls a ++ h) e' := by
  have quiet {c : Command} {event : Engine.Event} (same : eventOf c = some event)
      (command : ∀ now s, event ≠ .tick now s) :
      ∃ e', (p.handle c).engine = some e' ∧ Alive plan h e' := by
    rcases handle_react engine same with changed | kept
    · exact ⟨_, changed, alive.react command⟩
    · exact ⟨e, kept, alive⟩
  cases a with
  | tick =>
    have turning := tick_turning p.now p.signals alive.sequenced alive.fits alive.logged
    refine ⟨(e.tick p.now p.signals).1, by simp [perform, Pipeline.tick, engine], alive.sequenced,
      tick_fits p.now p.signals alive.sequenced alive.fits, ?_⟩
    rw [calls_tick engine]
    exact turning.logged
  | leave => exact absurd trivial goes
  | wait =>
    rw [calls_other p (by simp) goes]
    exact ⟨e, engine, alive⟩
  | command c =>
    rw [calls_other p (by simp) goes]
    cases c with
    | reconfigure => exact absurd trivial goes
    | start | stop | setParam | reset => exact quiet rfl (by simp)
    | stats | topology | shutdown => exact ⟨e, engine, alive⟩

theorem after_alive (engine : p.engine = some e) (alive : Alive plan h e) {acts : List Act}
    (going : ∀ a ∈ acts, ¬ a.Ends) :
    ∃ e', (p.after acts).engine = some e' ∧ Alive plan (p.history acts ++ h) e' := by
  induction acts generalizing p e h with
  | nil =>
    have nothing : p.history [] = [] := callsSince_self rfl
    rw [nothing]
    exact ⟨e, engine, alive⟩
  | cons a acts ih =>
    obtain ⟨goes, going⟩ := List.forall_mem_cons.mp going
    obtain ⟨e', engine', alive'⟩ := perform_alive engine alive goes
    obtain ⟨last, there, lives⟩ := ih engine' alive' going
    refine ⟨last, there, ?_⟩
    rwa [history_cons, List.append_assoc]

theorem build_alive (built : p.build = (q, .ok ())) :
    ∃ e, q.engine = some e ∧ Alive e.plan [] e := by
  rcases build_cases p with ⟨e, made, same⟩ | ⟨error, -, same⟩
  · obtain ⟨rfl, -⟩ := Prod.mk.inj (built.symm.trans same)
    obtain ⟨decls, startup, compiled, initial⟩ := build_initial made
    have sequenced := Compile.compile_sequenced compiled
    refine ⟨e, rfl, sequenced, initial.fits, trivial, fun x => iff_of_false ?_ not_up_nil⟩
    exact initial.stopped x
  · cases built.symm.trans same

end Pipeline

open Pipeline

/-- Whatever is asked of a built pipeline and whatever its modules answer: those modules run that
are up, a module has one turn in a tick, and up to the teardown all callbacks come when they may,
with an exit for each init that succeeded. -/
theorem callbacks_in_order {M : Type} [Behaviour M] {p q : Pipeline M}
    (built : p.build = (q, .ok ())) {acts : List Act} (going : ∀ a ∈ acts, ¬ a.Ends) :
    (∀ id, (∃ m ∈ (q.after acts).topology.modules, m.id = id ∧ m.status = .running) ↔
      Up id (q.history acts)) ∧
    (∀ id, OneTurn (callsOf id ((q.after acts).calls .tick))) ∧
    ∀ last, last.Ends →
      let whole := q.history (acts ++ [last])
      Proper whole ∧ ∀ id, ∃ n, marks id whole = rounds n := by
  obtain ⟨e₀, engine, alive⟩ := build_alive built
  obtain ⟨e, engine, alive⟩ := after_alive engine alive going
  rw [List.append_nil] at alive
  refine ⟨fun id => ?_, fun id => ?_, fun last ends => ?_⟩
  · rw [Pipeline.topology, engine]
    exact alive.topology id
  · rw [calls_tick engine]
    exact (tick_turning _ _ alive.sequenced alive.fits alive.logged).turns id
  · rw [history_append, calls_ending engine ends]
    obtain ⟨proper, down⟩ := stopAll_logged (q.after acts).now (q.after acts).signals
      alive.sequenced alive.fits alive.logged
    exact ⟨proper, fun id => (proper.marks_eq_rounds id).2 (down id)⟩

/-- A source and a sink for its stream. -/
def pair : Pipeline StandIn where
  factory :=
    { create := fun library _ =>
        if library = "source" then
          some { spec := { info :=
            { name := "source", kind := .source, outputs := [.fixed .polarity] } } }
        else
          some { spec := { info :=
            { name := "sink", kind := .sink, inputs := [⟨.any, .any, false⟩] } } } }
  config := { modules := [
    { id := 1, name := "in", library := "source" },
    { id := 2, name := "out", library := "sink", input := some "1[1]" } ] }
  signals := default

def pairActs : List Act :=
  [.tick, .command (.stop ⟨1⟩), .tick, .command (.start ⟨1⟩), .tick, .tick]

theorem pair_callbacks : ∃ q, pair.build = (q, .ok ()) ∧ (∀ a ∈ pairActs, ¬ a.Ends) ∧
    (∀ id, (∃ m ∈ (q.after pairActs).topology.modules, m.id = id ∧ m.status = .running) ↔
      Up id (q.history pairActs)) ∧
    (∀ id, OneTurn (callsOf id ((q.after pairActs).calls .tick))) ∧
    ∀ last, last.Ends →
      let whole := q.history (pairActs ++ [last])
      Proper whole ∧ ∀ id, ∃ n, marks id whole = rounds n := by
  have built : ∃ q, pair.build = (q, .ok ()) := ⟨_, by cbv⟩
  obtain ⟨q, ok⟩ := built
  have going : ∀ a ∈ pairActs, ¬ a.Ends := by simp [pairActs, Act.Ends]
  exact ⟨q, ok, going, callbacks_in_order ok going⟩

example : (pair.build.1.history (pairActs ++ [.leave])).map
    (fun c => (c.caller.val, c.callback)) =
    [(2, .exit), (1, .exit), (1, .run), (2, .init), (1, .init), (2, .exit), (1, .exit), (2, .init),
      (1, .init)] := by
  cbv

end EventFlow

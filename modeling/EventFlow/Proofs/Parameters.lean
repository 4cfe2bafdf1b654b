import EventFlow.Proofs.Callbacks
import EventFlow.Proofs.Engine.Briefing

/-!
The parameters of a build, from the build on: whatever commands and ticks come, no module runs on
parameters that it has not been told, and none of the changes is lost.
-/

namespace EventFlow
open Engine

namespace Pipeline

variable {M : Type} {p q : Pipeline M} {plan : Plan} {e : Engine M}
  {first : ModuleId → Params} {past : List Note} {calls : List Call}

def params (p : Pipeline M) (id : ModuleId) : Params :=
  ((p.engine.bind (·.entryOf? id)).map (·.params)).getD []

theorem Alive.briefed (alive : Alive plan [] e) (engine : q.engine = some e) :
    Briefed q.params [] [] e := by
  refine ⟨trivial, fun id entry found => ?_, fun x _ running => ?_⟩
  · simp [paramsAfter, params, engine, found]
  · exact absurd ((alive.logged.running x).mp running) not_up_nil

variable [Behaviour M]

def notes (p : Pipeline M) : Act → List Note
  | .command (.setParam id key value) => [.set id key value]
  | a => (p.calls a).map .call

def story (p : Pipeline M) : List Act → List Note
  | [] => []
  | a :: acts => story (p.perform a) acts ++ p.notes a

theorem notes_tick (engine : p.engine = some e) :
    p.notes .tick = (e.tick p.now p.signals).1.journal.map .call := by
  rw [notes, calls_tick engine]
  · nofun

theorem story_append (p : Pipeline M) (acts : List Act) (last : Act) :
    p.story (acts ++ [last]) = (p.after acts).notes last ++ p.story acts := by
  induction acts generalizing p with
  | nil => simp [story, after]
  | cons a acts ih =>
    rw [List.cons_append, story, ih, List.append_assoc]
    rfl

theorem react_briefed (h : Briefed first [] past e) {event : Engine.Event}
    (command : ∀ now s, event ≠ .tick now s)
    (other : ∀ id key value, event ≠ .setParam id key value) :
    Briefed first [] past (e.react event) := by
  have running := react_isRunning command e
  cases event with
  | tick now s => exact absurd rfl (command now s)
  | setParam id key value => exact absurd rfl (other id key value)
  | start id =>
    refine h.of_lifecycle rfl running fun x => ?_
    exact Lifecycle.configPending_modify (by intro c; exact ⟨rfl, rfl⟩) _ [id] x
  | stop id =>
    refine h.of_lifecycle rfl running fun x => ?_
    exact Lifecycle.configPending_modify (by intro c; exact ⟨rfl, rfl⟩) _ [id] x
  | reset id source =>
    refine h.of_lifecycle rfl running fun x => ?_
    exact Lifecycle.configPending_modify (by intro c; exact ⟨rfl, rfl⟩) _ [id] x

theorem setParam_briefed (engine : p.engine = some e) (fits : Fits plan e)
    (h : Briefed first [] past e) (id : ModuleId) (key : String) (value : ParamValue) :
    ∃ e', (p.handle (.setParam id key value)).engine = some e' ∧
      Briefed first [] (.set id key value :: past) e' := by
  cases has : e.lifecycle.has id with
  | true =>
    refine ⟨e.setParam id key value, ?_, h.set id key value⟩
    simp [handle, onModule, engine, has]
  | false =>
    have missing : ¬ id ∈ plan.order := fun mem => by simp [fits.has mem] at has
    have absent : e.entryOf? id = none := by
      rw [Engine.entryOf?, Option.map_eq_none_iff, Option.eq_none_iff_forall_ne_some]
      exact fun m found => missing (fits.mem_order_of_member found)
    have down : ¬ e.lifecycle.isRunning id = true := fun running =>
      missing (fits.mem_order running)
    refine ⟨e, ?_, h.absent absent down key value⟩
    simp [handle, onModule, engine, has, publish]

theorem perform_briefed (engine : p.engine = some e) (sequenced : plan.Sequenced)
    (fits : Fits plan e) (h : Briefed first [] past e) {a : Act} (goes : ¬ a.Ends) :
    ∃ e', (p.perform a).engine = some e' ∧ Briefed first [] (p.notes a ++ past) e' := by
  have quiet {c : Command} {event : Engine.Event} (same : eventOf c = some event)
      (command : ∀ now s, event ≠ .tick now s)
      (other : ∀ id key value, event ≠ .setParam id key value) :
      ∃ e', (p.handle c).engine = some e' ∧ Briefed first [] past e' := by
    rcases handle_react engine same with changed | kept
    · exact ⟨_, changed, react_briefed h command other⟩
    · exact ⟨e, kept, h⟩
  cases a with
  | tick =>
    refine ⟨(e.tick p.now p.signals).1, by simp [perform, Pipeline.tick, engine], ?_⟩
    rw [notes_tick engine]
    exact (tick_briefing p.now p.signals sequenced fits h).briefed
  | leave => exact absurd trivial goes
  | wait =>
    rw [notes, calls_other p (by simp) goes]
    · exact ⟨e, engine, h⟩
    · simp
  | command c =>
    cases c with
    | reconfigure => exact absurd trivial goes
    | setParam id key value => exact setParam_briefed engine fits h id key value
    | start | stop | reset =>
      rw [notes, calls_other p (by simp) goes]
      · exact quiet rfl (by simp) (by simp)
      · simp
    | stats | topology | shutdown =>
      rw [notes, calls_other p (by simp) goes]
      · exact ⟨e, engine, h⟩
      · simp

theorem after_briefed (engine : p.engine = some e) (alive : Alive plan calls e)
    (h : Briefed first [] past e) {acts : List Act} (going : ∀ a ∈ acts, ¬ a.Ends) :
    ∃ e', (p.after acts).engine = some e' ∧ Alive plan (p.history acts ++ calls) e' ∧
      Briefed first [] (p.story acts ++ past) e' := by
  induction acts generalizing p e calls past with
  | nil =>
    have nothing : p.history [] = [] := callsSince_self rfl
    rw [nothing]
    exact ⟨e, engine, alive, h⟩
  | cons a acts ih =>
    obtain ⟨goes, going⟩ := List.forall_mem_cons.mp going
    obtain ⟨e', engine', alive'⟩ := perform_alive engine alive goes
    obtain ⟨e'', again, briefed⟩ := perform_briefed engine alive.sequenced alive.fits h goes
    obtain rfl : e' = e'' := Option.some.inj (engine'.symm.trans again)
    obtain ⟨last, there, lives, knows⟩ := ih engine' alive' briefed going
    refine ⟨last, there, ?_, ?_⟩
    · rwa [history_cons, List.append_assoc]
    · rwa [story, List.append_assoc]

/-- After a tick, who runs has been told of all changes. -/
theorem tick_told (engine : p.engine = some e) (alive : Alive plan calls e)
    (h : Briefed first [] past e) {id : ModuleId}
    (shown : ∃ m ∈ p.tick.topology.modules, m.id = id ∧ m.status = .running) :
    let story := p.notes .tick ++ past
    changed id story = false ∧ told? id story = some (paramsAfter (first id) id story) := by
  have ticked : p.tick.engine = some (e.tick p.now p.signals).1 := by
    simp [Pipeline.tick, engine]
  have notes : p.notes .tick ++ past = (e.tick p.now p.signals).1.story past := by
    rw [notes_tick engine, Engine.story]
  obtain ⟨e', engine', alive'⟩ := perform_alive engine alive (a := .tick) not_false
  obtain rfl : e' = (e.tick p.now p.signals).1 := Option.some.inj (engine'.symm.trans ticked)
  rw [Pipeline.topology, ticked] at shown
  have running := (alive'.logged.running id).mpr ((alive'.topology id).mp shown)
  obtain ⟨briefed, unchanged⟩ := tick_briefing p.now p.signals alive.sequenced alive.fits h
  have still := unchanged id List.not_mem_nil running
  rw [notes]
  exact ⟨still, (briefed.knows id List.not_mem_nil running).told still⟩

end Pipeline

open Pipeline

theorem OneTurn.configs {calls : List Call} (turn : OneTurn calls) :
    (calls.map (·.callback)).count .config ≤ 1 := by
  have inTurn {calls : List Call} (turn : InTurn calls) :
      (calls.map (·.callback)).count .config ≤ 1 := turn.count_le .config
  cases turn with
  | started c init => simp [init]
  | stopped c exits => simp [show c.callback = .exit from exits]
  | ran _ turn _ => exact inTurn turn
  | failed c calls turn _ exits =>
    rw [List.map_cons, show c.callback = .exit from exits,
      List.count_cons_of_ne (by decide)]
    exact inTurn turn

/-- Whatever is asked of a built pipeline and whatever its modules answer: no module runs on
parameters other than those in its last successful init or config, config is called only for a
change and once in a tick at most, and after a tick every module that runs has been told its
parameters as all changes together have made them. -/
theorem runs_on_told_params {M : Type} [Behaviour M] {p q : Pipeline M}
    (built : p.build = (q, .ok ())) {acts : List Act} (going : ∀ a ∈ acts, ¬ a.Ends) :
    Informed q.params (q.story acts) ∧
    (∀ id, ((callsOf id ((q.after acts).calls .tick)).map (·.callback)).count .config ≤ 1) ∧
    ∀ id, (∃ m ∈ (q.after (acts ++ [.tick])).topology.modules,
        m.id = id ∧ m.status = .running) →
      let story := q.story (acts ++ [.tick])
      changed id story = false ∧ told? id story = some (paramsAfter (q.params id) id story) := by
  obtain ⟨e₀, engine, alive⟩ := build_alive built
  have start := alive.briefed engine
  obtain ⟨e, there, lives, briefed⟩ := after_briefed engine alive start going
  rw [List.append_nil] at briefed
  refine ⟨briefed.informed, fun id => ?_, fun id shown => ?_⟩
  · rw [calls_tick there]
    exact ((tick_turning _ _ lives.sequenced lives.fits lives.logged).turns id).configs
  · rw [Pipeline.after, List.foldl_append] at shown
    rw [story_append]
    exact tick_told there lives briefed shown

/-- A parameter of the source is set twice between two ticks. -/
def pairChanges : List Act :=
  let change (n : Int) : Act := .command (.setParam ⟨1⟩ "gain" (.int n))
  [.tick, change 1, change 2]

theorem pair_told : ∃ q, pair.build = (q, .ok ()) ∧ (∀ a ∈ pairChanges, ¬ a.Ends) ∧
    Informed q.params (q.story pairChanges) ∧
    (∀ id, ((callsOf id ((q.after pairChanges).calls .tick)).map (·.callback)).count .config ≤ 1) ∧
    ∀ id, (∃ m ∈ (q.after (pairChanges ++ [.tick])).topology.modules,
        m.id = id ∧ m.status = .running) →
      let story := q.story (pairChanges ++ [.tick])
      changed id story = false ∧ told? id story = some (paramsAfter (q.params id) id story) := by
  have built : ∃ q, pair.build = (q, .ok ()) := ⟨_, by cbv⟩
  obtain ⟨q, ok⟩ := built
  have going : ∀ a ∈ pairChanges, ¬ a.Ends := by simp [pairChanges, Act.Ends]
  exact ⟨q, ok, going, runs_on_told_params ok going⟩

end EventFlow

import EventFlow.Proofs.Engine.Safety

/-!
What a tick takes down. A module that is unwanted or fails is stopped at its turn; the stop reaches
its direct consumers only, and `Containing` follows it from there, turn by turn, to all the others.
-/

namespace EventFlow
namespace Engine

variable {M : Type} {plan : Plan} {e e' : Engine M} {id x : ModuleId} {rest : List ModuleId}
  {l l' : Lifecycle} {calls : List Call}

def takenDown (before after : Lifecycle) : Set ModuleId :=
  {id | before.isRunning id = true ∧ after.isRunning id = false}

def Broke (calls : List Call) (id : ModuleId) : Prop :=
  ∃ c ∈ calls, c.caller = id ∧ ofRunning c.callback ∧ ¬ c.Succeeds

/-- The running modules that nobody wants and those that break. -/
def atFault (before : Lifecycle) (calls : List Call) : Set ModuleId :=
  {id | before.isRunning id = true ∧ (before.wants id = false ∨ Broke calls id)}

/-! ### One turn -/

theorem broke_append {later : List Call} :
    Broke (later ++ calls) id ↔ Broke later id ∨ Broke calls id := by
  simp only [Broke, List.mem_append, or_and_right, exists_or]

theorem not_broke (h : ∀ c ∈ calls, c.caller ≠ id) : ¬ Broke calls id := by
  rintro ⟨c, mem, own, -⟩
  exact h c mem own

theorem Moved.own (moved : Moved l id calls l') (made : ∀ c ∈ calls, Made e id c)
    (running : l.isRunning id = true) :
    l'.isRunning id = false ↔ l.wants id = false ∨ Broke calls id := by
  have down : (l.markStopped id).unscheduled.isRunning id = false := by
    rw [Lifecycle.isRunning_unscheduled, Bool.eq_false_iff]
    exact fun up => (Lifecycle.isRunning_markStopped.mp up).2 rfl
  cases moved with
  | idle next =>
    rw [Lifecycle.nextStep_idle next] at running
    cases running
  | started c next =>
    rw [(Lifecycle.nextStep_start next).1] at running
    cases running
  | unstarted c next =>
    rw [(Lifecycle.nextStep_start next).1] at running
    cases running
  | stopped c next => exact iff_of_true down (Or.inl (Lifecycle.nextStep_stop next).2)
  | ran _ next _ fine =>
    rw [Lifecycle.isRunning_unscheduled, running, (Lifecycle.nextStep_run next).2]
    refine iff_of_false (by simp) ?_
    rintro (unwanted | ⟨c, mem, -, -, failed⟩)
    · cases unwanted
    · exact failed ((made c mem).failure.mp (fine c mem))
  | failed c before _ turn failed =>
    obtain ⟨d, mem, failure⟩ := failed
    have called : d ∈ c :: before := List.mem_cons_of_mem _ mem
    refine iff_of_true down (Or.inr ⟨d, called, (made d called).caller, turn.ofRunning d mem, ?_⟩)
    exact fun fine => failure ((made d called).failure.mpr fine)

/-- A turn takes the wish to run from the consumers of a module that it stops, and gives it only to
consumers of a module that did not run. -/
theorem Moved.wants_other (moved : Moved l id calls l') (other : x ≠ id)
    (fed : x ∈ l.consumers id → l.isRunning id = true) :
    l'.wants x = true ↔ l.wants x = true ∧ (x ∈ l.consumers id → l'.isRunning id = true) := by
  have apart : l.isRunning id = false → x ∉ l.consumers id := by
    intro stopped consumer
    rw [fed consumer] at stopped
    cases stopped
  have down : (l.markStopped id).isRunning id = false := by
    rw [Bool.eq_false_iff]
    exact fun up => (Lifecycle.isRunning_markStopped.mp up).2 rfl
  have stop : (l.markStopped id).unscheduled.wants x = true ↔ l.wants x = true ∧
      (x ∈ l.consumers id → (l.markStopped id).unscheduled.isRunning id = true) := by
    rw [Lifecycle.wants_unscheduled, Lifecycle.isRunning_unscheduled, Lifecycle.wants_markStopped,
      down, and_iff_right other]
    simp
  cases moved with
  | idle next =>
    have apart := apart (Lifecycle.nextStep_idle next)
    simp [Lifecycle.wants_unscheduled, apart]
  | started c next =>
    have apart := apart (Lifecycle.nextStep_start next).1
    simp [Lifecycle.wants_unscheduled, Lifecycle.wants_markRunning_of_not_mem apart, apart]
  | unstarted c next =>
    have apart := apart (Lifecycle.nextStep_start next).1
    simp [Lifecycle.wants_unscheduled, apart]
  | stopped => exact stop
  | ran _ next =>
    have running := (Lifecycle.nextStep_run next).1
    simp [Lifecycle.wants_unscheduled, Lifecycle.isRunning_unscheduled, running]
  | failed => exact stop

/-! ### A tick -/

/-- In the middle of a tick that began with `l`: of the modules that ran, those still to come run,
and are wanted as before unless they have lost a producer; of the others, those are down that were
at fault or have lost a producer. -/
structure Containing (plan : Plan) (l : Lifecycle) (rest : List ModuleId) (e : Engine M) :
    Prop where
  waiting : ∀ x ∈ rest, l.isRunning x = true → e.lifecycle.isRunning x = true ∧
    (e.lifecycle.wants x = true ↔
      l.wants x = true ∧ ∀ p ∈ plan.producers x, e.lifecycle.isRunning p = true)
  settled : ∀ x, x ∉ rest → l.isRunning x = true →
    (e.lifecycle.isRunning x = false ↔ l.wants x = false ∨ Broke e.journal x ∨
      ∃ p ∈ plan.producers x, e.lifecycle.isRunning p = false)
  callers : ∀ c ∈ e.journal, c.caller ∉ rest

namespace Containing

theorem start (fits : Fits plan e) (supplied : plan.Supplied e.lifecycle) :
    Containing plan e.lifecycle plan.order { e with journal := [] } where
  waiting x _ running := ⟨running, (and_iff_left (supplied x running)).symm⟩
  settled x absent running := absurd (fits.mem_order running) absent
  callers := by simp

section Turn

variable {done : List ModuleId} {routes : Routes} (sequenced : plan.Sequenced)
  (split : plan.order = done ++ id :: rest) (h : Containing plan l (id :: rest) e)
  (stepped : Stepped e id routes e' calls)

include sequenced split stepped

theorem producers_still (visited : x ∉ rest) :
    ∀ p ∈ plan.producers x, e'.lifecycle.isRunning p = e.lifecycle.isRunning p := by
  intro p feeds
  refine stepped.isRunning_other ?_
  rintro rfl
  have before := sequenced.before x p feeds
  rw [split] at before
  exact visited (before.mem_tail (split ▸ sequenced.nodup))

include h

theorem next_waiting (supplied : plan.Supplied l) (fits : Fits plan e) (later : x ∈ rest)
    (running : l.isRunning x = true) : e'.lifecycle.isRunning x = true ∧
      (e'.lifecycle.wants x = true ↔
        l.wants x = true ∧ ∀ p ∈ plan.producers x, e'.lifecycle.isRunning p = true) := by
  have mem : id ∈ plan.order := split ▸ List.mem_append_cons_self
  have fresh : id ∉ rest := not_mem_after (split ▸ sequenced.nodup)
  have other : x ≠ id := fun same => fresh (same ▸ later)
  obtain ⟨up, wanted⟩ := h.waiting x (List.mem_cons_of_mem _ later) running
  have reads : x ∈ e.lifecycle.consumers id ↔ id ∈ plan.producers x := by
    rw [(fits.neighbours mem).2, sequenced.consumers]
  have fed : x ∈ e.lifecycle.consumers id → e.lifecycle.isRunning id = true := fun consumer =>
    (h.waiting id List.mem_cons_self (supplied x running id (reads.mp consumer))).1
  have wants := stepped.lifecycle.wants_other other fed
  rw [Lifecycle.wants_unscheduled, Lifecycle.isRunning_unscheduled] at wants
  refine ⟨(stepped.isRunning_other other).trans up, ?_⟩
  rw [wants, wanted, and_assoc, reads]
  refine and_congr_right fun _ => ⟨fun ⟨all, own⟩ p feeds => ?_, fun all => ⟨?_, all id⟩⟩
  · by_cases same : p = id
    · subst same
      exact own feeds
    · rw [stepped.isRunning_other same]
      exact all p feeds
  · intro p feeds
    by_cases same : p = id
    · subst same
      exact fed (reads.mpr feeds)
    · rw [← stepped.isRunning_other same]
      exact all p feeds

theorem next_settled (visited : x ∉ rest) (running : l.isRunning x = true) :
    e'.lifecycle.isRunning x = false ↔ l.wants x = false ∨ Broke e'.journal x ∨
      ∃ p ∈ plan.producers x, e'.lifecycle.isRunning p = false := by
  have still : (∃ p ∈ plan.producers x, e'.lifecycle.isRunning p = false) ↔
      ∃ p ∈ plan.producers x, e.lifecycle.isRunning p = false := by
    refine exists_congr fun p => and_congr_right fun feeds => ?_
    rw [producers_still sequenced split stepped visited p feeds]
  rw [still, stepped.journal]
  by_cases own : x = id
  · subst own
    obtain ⟨up, wanted⟩ := h.waiting x List.mem_cons_self running
    have earlier : ¬ Broke e.journal x :=
      not_broke fun c called same => h.callers c called (same ▸ List.mem_cons_self)
    have turn := stepped.lifecycle.own stepped.made up
    rw [Lifecycle.isRunning_unscheduled] at turn
    have unwanted : e.lifecycle.wants x = false ↔
        l.wants x = false ∨ ∃ p ∈ plan.producers x, e.lifecycle.isRunning p = false := by
      rw [Bool.eq_false_iff, Ne, wanted, not_and_or, Bool.not_eq_true]
      simp
    rw [turn, broke_append, or_iff_left earlier, unwanted, or_assoc, or_comm (a := Broke calls x)]
  · have gone : x ∉ id :: rest := List.not_mem_cons_of_ne_of_not_mem own visited
    have foreign : ¬ Broke calls x := not_broke fun c called same =>
      own (same.symm.trans (stepped.made c called).caller)
    rw [stepped.isRunning_other own, broke_append, or_iff_right foreign]
    exact h.settled x gone running

theorem next (supplied : plan.Supplied l) (fits : Fits plan e) : Containing plan l rest e' := by
  refine ⟨fun x => next_waiting sequenced split h stepped supplied fits,
    fun x => next_settled sequenced split h stepped, ?_⟩
  rw [stepped.journal]
  refine List.forall_mem_append.mpr ⟨fun c called => ?_, fun c called later => ?_⟩
  · rw [(stepped.made c called).caller]
    exact not_mem_after (split ▸ sequenced.nodup)
  · exact h.callers c called (List.mem_cons_of_mem _ later)

end Turn

end Containing

theorem tick_containing [Behaviour M] (now : Moment) (s : Signals) (sequenced : plan.Sequenced)
    (fits : Fits plan e) (supplied : plan.Supplied e.lifecycle) :
    Containing plan e.lifecycle [] (e.tick now s).1 := by
  obtain ⟨last, h, -, same⟩ := tick_induction now s sequenced fits
    (Containing.start fits supplied) fun _ _ _ _ _ _ _ split fits h _ stepped =>
      Containing.next sequenced split h stepped supplied fits
  rw [same]
  exact ⟨h.waiting, h.settled, h.callers⟩

/-- Any set with the modules at fault that is closed under running consumers has all that is taken
down. -/
theorem Containing.least (h : Containing plan l [] e) (sequenced : plan.Sequenced)
    (supplied : plan.Supplied l) (inside : ∀ x, l.isRunning x = true → x ∈ plan.order) :
    IsLeast {s | atFault l e.journal ⊆ s ∧
      ∀ p ∈ s, ∀ c ∈ plan.consumers p, l.isRunning c = true → c ∈ s}
      (takenDown l e.lifecycle) := by
  have settled := fun x => h.settled x List.not_mem_nil
  refine ⟨⟨?_, ?_⟩, ?_⟩
  · rintro x ⟨running, fault⟩
    exact ⟨running, (settled x running).mpr (fault.imp_right Or.inl)⟩
  · rintro p ⟨-, down⟩ c consumer running
    have feeds := (sequenced.consumers c p).mp consumer
    exact ⟨running, (settled c running).mpr (Or.inr (Or.inr ⟨p, feeds, down⟩))⟩
  · rintro s ⟨fault, closed⟩ x ⟨running, down⟩
    have along : ∀ y ∈ plan.order, y ∈ takenDown l e.lifecycle → y ∈ s := by
      refine before_induction sequenced.nodup fun y _ earlier ⟨running, down⟩ => ?_
      rcases (settled y running).mp down with unwanted | broke | ⟨p, feeds, lost⟩
      · exact fault ⟨running, Or.inl unwanted⟩
      · exact fault ⟨running, Or.inr broke⟩
      · have taken := earlier p (sequenced.before y p feeds) ⟨supplied y running p feeds, lost⟩
        exact closed p taken y ((sequenced.consumers y p).mpr feeds) running
    exact along x (inside x running) ⟨running, down⟩

end Engine

open Engine

/-- What a tick takes down is the least set that has the running modules at fault and, with each
module, all running consumers of its streams. -/
theorem tick_takes_down_least {M : Type} [Behaviour M] {decls : List Decl} {generation : Nat}
    {plan : Plan} (compiled : compile decls generation = .ok plan) {startup : ModuleId → Bool}
    {e : Engine M} (initial : Initial plan startup e) (events : List Engine.Event) (now : Moment)
    (s : Signals) :
    let before := e.after events
    let after := (before.tick now s).1
    IsLeast {s | atFault before.lifecycle after.journal ⊆ s ∧
      ∀ p ∈ s, ∀ c ∈ plan.consumers p, before.lifecycle.isRunning c = true → c ∈ s}
      (takenDown before.lifecycle after.lifecycle) := by
  have sequenced := Compile.compile_sequenced compiled
  have fits := after_fits sequenced initial.fits events
  have supplied := after_supplied sequenced initial.fits initial.supplied events
  have containing := tick_containing now s sequenced fits supplied
  exact containing.least sequenced supplied fun _ => fits.mem_order

/-- A source with a sink of its own, and two processors and a sink in a row behind it. -/
def relays : List Decl :=
  let relay (type : EventType) : ModuleInfo :=
    { name := "relay", kind := .processor, inputs := [⟨.fixed type, .exactly 1, false⟩]
      outputs := [.fixed .frame] }
  let sink : ModuleInfo := { name := "sink", kind := .sink, inputs := [⟨.any, .any, false⟩] }
  [ { id := ⟨1⟩, name := "in",
      info := { name := "source", kind := .source, outputs := [.fixed .polarity] } },
    { id := ⟨2⟩, name := "first", input := some "1[1]", info := relay .polarity },
    { id := ⟨3⟩, name := "second", input := some "2[2]", info := relay .frame },
    { id := ⟨4⟩, name := "out", input := some "3[2]", info := sink },
    { id := ⟨5⟩, name := "tap", input := some "1[1]", info := sink } ]

def relayModules (id : ModuleId) : StandIn :=
  let info := ((relays.find? fun d => d.id == id).map (·.info)).getD
    { name := "none", kind := .sink }
  { spec := { info, emissions := if id = ⟨1⟩ then [{ type := .polarity }] else [] } }

theorem relays_taken_down : ∃ plan, compile relays 0 = .ok plan ∧
    let before := (ofPlan plan (fun _ => true) relayModules).after [.tick {} default, .stop ⟨2⟩]
    let after := (before.tick ⟨1, 1⟩ default).1
    IsLeast {s | atFault before.lifecycle after.journal ⊆ s ∧
      ∀ p ∈ s, ∀ c ∈ plan.consumers p, before.lifecycle.isRunning c = true → c ∈ s}
      (takenDown before.lifecycle after.lifecycle) := by
  have accepted : ∃ plan, compile relays 0 = .ok plan := ⟨_, by cbv⟩
  obtain ⟨plan, ok⟩ := accepted
  have initial := ofPlan_initial plan (fun _ => true) relayModules
  exact ⟨plan, ok, tick_takes_down_least ok initial [.tick {} default, .stop ⟨2⟩] ⟨1, 1⟩ default⟩

example : (match compile relays 0 with
    | .error _ => []
    | .ok plan =>
      let before := (ofPlan plan (fun _ => true) relayModules).after [.tick {} default, .stop ⟨2⟩]
      (before.tick ⟨1, 1⟩ default).1.lifecycle.cells.map fun c => (c.id.val, c.status)) =
    [(1, .running), (2, .stopped), (5, .running), (3, .stopped), (4, .stopped)] := by cbv

end EventFlow

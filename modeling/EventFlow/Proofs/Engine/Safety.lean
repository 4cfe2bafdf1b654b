import EventFlow.Module.StandIn
import EventFlow.Proofs.Engine.Layout

/-!
Which modules may run. A stop clears the wish to run of the direct consumers only, so in the middle
of a tick some modules run without their producers; `Guarded` says that those are still to come, and
that a stop is what comes for them.
-/

namespace EventFlow

/-- Whatever runs has its producers running. -/
def Plan.Supplied (plan : Plan) (l : Lifecycle) : Prop :=
  ∀ id, l.isRunning id = true → ∀ p ∈ plan.producers id, l.isRunning p = true

namespace Call

/-- After this call its module does not run for the rest of the tick. -/
def Ends (c : Call) : Prop := c.callback = .exit ∨ c.failure ≠ none

/-- Unless it is told to exit, the module is called while all its producers run. -/
def Fed (plan : Plan) (c : Call) : Prop :=
  c.callback ≠ .exit → ∀ p ∈ plan.producers c.caller, c.context.view.status? p = some .running

end Call

namespace Engine

variable {M : Type} {plan : Plan} {e e' : Engine M} {id : ModuleId} {rest : List ModuleId}

/-! ### In the middle of a tick -/

/-- Only modules that are about to be stopped run without a producer. -/
def Guarded (plan : Plan) (rest : List ModuleId) (l : Lifecycle) : Prop :=
  ∀ c p, p ∈ plan.producers c → l.isRunning c = true →
    l.isRunning p = true ∨ (c ∈ rest ∧ p ∉ rest ∧ l.wants c = false)

theorem guarded_unscheduled {l : Lifecycle} :
    Guarded plan rest l.unscheduled ↔ Guarded plan rest l := by
  simp only [Guarded, Lifecycle.isRunning_unscheduled, Lifecycle.wants_unscheduled]

theorem Guarded.supplied {l : Lifecycle} (h : Guarded plan [] l) : plan.Supplied l := by
  intro c running p feeds
  rcases h c p feeds running with runs | ⟨mem, -⟩
  · exact runs
  · cases mem

theorem guarded_of_supplied {l : Lifecycle} (h : plan.Supplied l) (rest : List ModuleId) :
    Guarded plan rest l :=
  fun c p feeds running => Or.inl (h c running p feeds)

theorem Guarded.pass {l : Lifecycle} (h : Guarded plan (id :: rest) l)
    (settled : l.isRunning id = true → l.wants id = true) : Guarded plan rest l := by
  intro c p feeds running
  rcases h c p feeds running with runs | ⟨mem, fresh, unwanted⟩
  · exact Or.inl runs
  · right
    refine ⟨(List.mem_cons.mp mem).resolve_left ?_, fun later => fresh (.tail _ later), unwanted⟩
    rintro rfl
    rw [settled running] at unwanted
    cases unwanted

/-- A start wakes no module that a producer has just taken down: such a module runs, so it is no
consumer of a module that is still to come and does not run. -/
theorem Guarded.started (fits : Fits plan e) (sequenced : plan.Sequenced)
    (mem : id ∈ plan.order) (h : Guarded plan (id :: rest) e.lifecycle)
    (next : e.lifecycle.nextStep id = .start) :
    Guarded plan rest (e.lifecycle.markRunning id) := by
  obtain ⟨stopped, fed⟩ := Lifecycle.nextStep_start next
  rw [(fits.neighbours mem).1] at fed
  intro c p feeds running
  by_cases self : c = id
  · subst self
    exact Or.inl (Lifecycle.isRunning_markRunning (fed p feeds))
  · rw [Lifecycle.isRunning_markRunning_of_ne self] at running
    rcases h c p feeds running with runs | ⟨later, fresh, unwanted⟩
    · exact Or.inl (Lifecycle.isRunning_markRunning runs)
    · right
      refine ⟨(List.mem_cons.mp later).resolve_left self, fun later => fresh (.tail _ later), ?_⟩
      rw [Bool.eq_false_iff]
      intro wanted
      rcases Lifecycle.wants_markRunning wanted with already | consumer
      · rw [unwanted] at already
        cases already
      · rw [(fits.neighbours mem).2] at consumer
        have reads := (sequenced.consumers c id).mp consumer
        rcases h c id reads running with runs | ⟨-, gone, -⟩
        · rw [stopped] at runs
          cases runs
        · exact gone List.mem_cons_self

theorem Guarded.stopped {done : List ModuleId} (fits : Fits plan e) (sequenced : plan.Sequenced)
    (split : plan.order = done ++ id :: rest) (h : Guarded plan (id :: rest) e.lifecycle) :
    Guarded plan rest (e.lifecycle.markStopped id) := by
  have nodup := split ▸ sequenced.nodup
  have mem : id ∈ plan.order := split ▸ List.mem_append_cons_self
  intro c p feeds running
  obtain ⟨running, other⟩ := Lifecycle.isRunning_markStopped.mp running
  have still : e.lifecycle.wants c = false → (e.lifecycle.markStopped id).wants c = false := by
    simp only [Bool.eq_false_iff]
    exact fun unwanted wanted => unwanted (Lifecycle.wants_markStopped.mp wanted).1
  by_cases producer : p = id
  · -- Only direct consumers lose a producer by this stop, and the order puts them later.
    subst producer
    have later : c ∈ rest := by
      have before := sequenced.before c p feeds
      rw [split] at before
      exact before.mem_tail nodup
    refine Or.inr ⟨later, not_mem_after nodup, Bool.eq_false_iff.mpr fun wanted => ?_⟩
    apply (Lifecycle.wants_markStopped.mp wanted).2.2
    rw [(fits.neighbours mem).2]
    exact (sequenced.consumers c p).mpr feeds
  · rcases h c p feeds running with runs | ⟨later, fresh, unwanted⟩
    · exact Or.inl (Lifecycle.isRunning_markStopped.mpr ⟨runs, producer⟩)
    · right
      exact ⟨(List.mem_cons.mp later).resolve_left other, fun later => fresh (.tail _ later),
        still unwanted⟩

/-! ### Steps and ticks -/

/-- What a tick has done up to some module: nobody was called without its producers, and a module
whose calls have ended stays down. -/
structure Watched (plan : Plan) (rest : List ModuleId) (e : Engine M) : Prop where
  guarded : Guarded plan rest e.lifecycle
  fed : ∀ c ∈ e.journal, c.Fed plan
  ended : ∀ c ∈ e.journal, c.Ends → e.lifecycle.isRunning c.caller = false ∧ c.caller ∉ rest
  ordered : e.journal.Pairwise fun later earlier =>
    earlier.Ends → earlier.caller ∈ plan.producers later.caller → later.callback = .exit

theorem Moved.guarded {done : List ModuleId} {l' : Lifecycle} {calls : List Call}
    (moved : Moved e.lifecycle id calls l') (fits : Fits plan e) (sequenced : plan.Sequenced)
    (split : plan.order = done ++ id :: rest) (h : Guarded plan (id :: rest) e.lifecycle) :
    Guarded plan rest l' := by
  have mem : id ∈ plan.order := split ▸ List.mem_append_cons_self
  cases moved with
  | idle next =>
    have stopped := Lifecycle.nextStep_idle next
    exact guarded_unscheduled.mpr (h.pass fun running => by simp [stopped] at running)
  | started c next _ _ =>
    exact guarded_unscheduled.mpr (h.started fits sequenced mem next)
  | unstarted c next _ _ =>
    have stopped := (Lifecycle.nextStep_start next).1
    exact guarded_unscheduled.mpr (h.pass fun running => by simp [stopped] at running)
  | stopped c next _ => exact guarded_unscheduled.mpr (h.stopped fits sequenced split)
  | ran calls next _ _ =>
    exact guarded_unscheduled.mpr (h.pass fun _ => (Lifecycle.nextStep_run next).2)
  | failed c calls next _ _ _ => exact guarded_unscheduled.mpr (h.stopped fits sequenced split)

theorem Moved.fed {l' : Lifecycle} {calls : List Call} (moved : Moved e.lifecycle id calls l')
    (fits : Fits plan e) (mem : id ∈ plan.order) (h : Guarded plan (id :: rest) e.lifecycle)
    {c : Call} (called : c ∈ calls) (lively : c.callback ≠ .exit) :
    ∀ p ∈ plan.producers id, e.lifecycle.isRunning p = true := by
  have starting (next : e.lifecycle.nextStep id = .start) :
      ∀ p ∈ plan.producers id, e.lifecycle.isRunning p = true :=
    (fits.neighbours mem).1 ▸ (Lifecycle.nextStep_start next).2
  have going (next : e.lifecycle.nextStep id = .run) :
      ∀ p ∈ plan.producers id, e.lifecycle.isRunning p = true := by
    obtain ⟨running, wanted⟩ := Lifecycle.nextStep_run next
    intro p feeds
    rcases h id p feeds running with runs | ⟨-, -, unwanted⟩
    · exact runs
    · rw [wanted] at unwanted
      cases unwanted
  cases moved with
  | idle => cases called
  | started _ next => exact starting next
  | unstarted _ next => exact starting next
  | stopped d _ exit =>
    obtain rfl := List.mem_singleton.mp called
    exact absurd exit lively
  | ran _ next => exact going next
  | failed _ _ next => exact going next

theorem Moved.ended {l' : Lifecycle} {calls : List Call} (moved : Moved e.lifecycle id calls l')
    {c : Call} (called : c ∈ calls) (ends : c.Ends) : l'.isRunning id = false := by
  have down : (e.lifecycle.markStopped id).unscheduled.isRunning id = false := by
    rw [Lifecycle.isRunning_unscheduled, Bool.eq_false_iff]
    exact fun running => (Lifecycle.isRunning_markStopped.mp running).2 rfl
  cases moved with
  | idle => cases called
  | started d _ init ok =>
    obtain rfl := List.mem_singleton.mp called
    rcases ends with exit | failed
    · rw [init] at exit
      cases exit
    · exact absurd ok failed
  | unstarted _ next =>
    rw [Lifecycle.isRunning_unscheduled]
    exact (Lifecycle.nextStep_start next).1
  | stopped => exact down
  | ran _ _ turn ok =>
    rcases ends with exit | failed
    · rcases turn.ofRunning c called with config | run | reset <;> simp_all
    · exact absurd (ok c called) failed
  | failed => exact down

theorem Moved.isRunning_other {l l' : Lifecycle} {calls : List Call} (moved : Moved l id calls l')
    {x : ModuleId} (other : x ≠ id) : l'.isRunning x = l.isRunning x := by
  cases moved with
  | started =>
    rw [Lifecycle.isRunning_unscheduled, Lifecycle.isRunning_markRunning_of_ne other]
  | stopped =>
    rw [Lifecycle.isRunning_unscheduled, Lifecycle.isRunning_markStopped_of_ne other]
  | failed =>
    rw [Lifecycle.isRunning_unscheduled, Lifecycle.isRunning_markStopped_of_ne other]
  | _ => rw [Lifecycle.isRunning_unscheduled]

theorem Stepped.isRunning_other {routes : Routes} {calls : List Call}
    (h : Stepped e id routes e' calls) {x : ModuleId} (other : x ≠ id) :
    e'.lifecycle.isRunning x = e.lifecycle.isRunning x := by
  rw [← Lifecycle.isRunning_unscheduled, h.lifecycle.isRunning_other other]

theorem view_status? (e : Engine M) (id : ModuleId) :
    e.view.status? id = (e.member? id).map fun _ => (e.lifecycle.status? id).getD .stopped := by
  rw [View.status?, View.module?, Engine.view, List.find?_map, Option.map_map]
  have same : (e.members.find? fun m => m.entry.id == id) = e.member? id := rfl
  simp only [Function.comp_def, same]
  cases found : e.member? id with
  | none => rfl
  | some m => rw [Option.map_some, Option.map_some, member?_id found]

theorem view_running (sequenced : plan.Sequenced) (fits : Fits plan e) (id : ModuleId) :
    e.view.status? id = some .running ↔ e.lifecycle.isRunning id = true := by
  rw [view_status?, Lifecycle.isRunning, beq_iff_eq]
  constructor
  · intro seen
    obtain ⟨-, -, status⟩ := Option.map_eq_some_iff.mp seen
    cases known : e.lifecycle.status? id with
    | none =>
      rw [known] at status
      cases status
    | some st =>
      rw [known] at status
      exact congrArg some status
  · intro running
    obtain ⟨m, found⟩ := fits.exists_member sequenced (fits.mem_order (beq_iff_eq.mpr running))
    rw [found, running, Option.map_some, Option.getD_some]

theorem Stepped.watched {done : List ModuleId} {routes : Routes} {calls : List Call}
    (h : Stepped e id routes e' calls) (fits : Fits plan e) (sequenced : plan.Sequenced)
    (split : plan.order = done ++ id :: rest) (watched : Watched plan (id :: rest) e) :
    Watched plan rest e' := by
  have mem : id ∈ plan.order := split ▸ List.mem_append_cons_self
  have fresh : id ∉ rest := not_mem_after (split ▸ sequenced.nodup)
  have fed : ∀ c ∈ calls, c.Fed plan := by
    intro c called lively p feeds
    obtain ⟨caller, view⟩ := h.made c called
    rw [caller] at feeds
    rw [view, view_running sequenced fits]
    exact h.lifecycle.fed fits mem watched.guarded called lively p feeds
  refine ⟨guarded_unscheduled.mp (h.lifecycle.guarded fits sequenced split watched.guarded),
    ?_, ?_, ?_⟩
  · rw [h.journal]
    exact List.forall_mem_append.mpr ⟨fed, watched.fed⟩
  · rw [h.journal]
    refine List.forall_mem_append.mpr ⟨fun c called ends => ?_, fun c old ends => ?_⟩
    · rw [(h.made c called).caller]
      exact ⟨Lifecycle.isRunning_unscheduled _ id ▸ h.lifecycle.ended called ends, fresh⟩
    · obtain ⟨stopped, gone⟩ := watched.ended c old ends
      obtain ⟨other, gone⟩ := List.ne_and_not_mem_of_not_mem_cons gone
      exact ⟨(h.isRunning_other other).trans stopped, gone⟩
  · rw [h.journal]
    refine List.pairwise_append.mpr ⟨?_, watched.ordered, ?_⟩
    · refine List.pairwise_of_forall_mem_list fun later hl earlier he _ feeds => ?_
      rw [(h.made later hl).caller, (h.made earlier he).caller] at feeds
      exact absurd (sequenced.before id id feeds) (not_before_self sequenced.nodup id)
    · intro later new earlier old ends feeds
      by_contra lively
      rw [(h.made later new).caller] at feeds
      have running := h.lifecycle.fed fits mem watched.guarded new lively _ feeds
      rw [(watched.ended earlier old ends).1] at running
      cases running

theorem Initial.stopped {startup : ModuleId → Bool} (h : Initial plan startup e) (id : ModuleId) :
    ¬ e.lifecycle.isRunning id = true := by
  intro running
  obtain ⟨c, found, status⟩ := Lifecycle.isRunning_iff.mp running
  have mem := List.mem_of_find?_eq_some found
  rw [h.lifecycle, Lifecycle.ofPlan] at mem
  obtain ⟨x, -, rfl⟩ := List.mem_map.mp mem
  cases status

theorem Initial.supplied {startup : ModuleId → Bool} (h : Initial plan startup e) :
    plan.Supplied e.lifecycle :=
  fun id running => absurd running (h.stopped id)

section
variable [Behaviour M]

theorem tick_watched (now : Moment) (s : Signals) (sequenced : plan.Sequenced) (fits : Fits plan e)
    (supplied : plan.Supplied e.lifecycle) : Watched plan [] (e.tick now s).1 := by
  have start : Watched plan plan.order { e with journal := [] } :=
    ⟨guarded_of_supplied supplied plan.order, by simp, by simp, .nil⟩
  obtain ⟨last, h, -, same⟩ := tick_induction now s sequenced fits start
    fun _ _ _ _ _ _ _ split fits watched _ stepped => stepped.watched fits sequenced split watched
  rw [same]
  exact ⟨h.guarded, h.fed, h.ended, h.ordered⟩

theorem react_supplied (sequenced : plan.Sequenced) (fits : Fits plan e)
    (supplied : plan.Supplied e.lifecycle) (event : Event) :
    plan.Supplied (e.react event).lifecycle := by
  by_cases tick : ∃ now s, event = .tick now s
  · obtain ⟨now, s, rfl⟩ := tick
    exact (tick_watched now s sequenced fits supplied).guarded.supplied
  · have command : ∀ now s, event ≠ .tick now s := fun now s same => tick ⟨now, s, same⟩
    intro id running p feeds
    rw [react_isRunning command] at running ⊢
    exact supplied id running p feeds

theorem after_supplied (sequenced : plan.Sequenced) {e : Engine M} (fits : Fits plan e)
    (supplied : plan.Supplied e.lifecycle) (events : List Event) :
    plan.Supplied (e.after events).lifecycle := by
  induction events generalizing e with
  | nil => exact supplied
  | cons event events ih =>
    exact ih (react_fits sequenced fits event) (react_supplied sequenced fits supplied event)

end
end Engine

open Engine

/-- Whatever modules answer and whatever is asked of a pipeline between its ticks, what runs has its
producers running. In a tick, a module is called while its producers run unless it exits, and after
a call that ends a producer it can only exit. -/
theorem lifecycle_safe {M : Type} [Behaviour M] {decls : List Decl} {generation : Nat} {plan : Plan}
    (compiled : compile decls generation = .ok plan) {startup : ModuleId → Bool} {e : Engine M}
    (initial : Initial plan startup e) (events : List Engine.Event) :
    plan.Supplied (e.after events).lifecycle ∧ ∀ now s,
      let e' := ((e.after events).tick now s).1
      plan.Supplied e'.lifecycle ∧
      (∀ c ∈ e'.journal, c.Fed plan) ∧
      e'.journal.Pairwise fun later earlier =>
        earlier.Ends → earlier.caller ∈ plan.producers later.caller → later.callback = .exit := by
  have sequenced := Compile.compile_sequenced compiled
  have fits := after_fits sequenced initial.fits events
  have supplied := after_supplied sequenced initial.fits initial.supplied events
  refine ⟨supplied, fun now s => ?_⟩
  have watched := tick_watched now s sequenced fits supplied
  exact ⟨watched.guarded.supplied, watched.fed, watched.ordered⟩

def tapChainModules (id : ModuleId) : StandIn :=
  let info := ((tapChain.find? fun d => d.id == id).map (·.info)).getD
    { name := "none", kind := .sink }
  { spec :=
      { info
        failRun := if id = ⟨2⟩ then [1] else []
        emissions := if id = ⟨1⟩ then [{ type := .polarity }] else [] } }

theorem tapChain_supplied : ∃ plan, compile tapChain 0 = .ok plan ∧
    plan.Supplied (((Engine.ofPlan plan (fun _ => true) tapChainModules).after
      [.tick {} default, .stop ⟨1⟩, .tick ⟨1, 1⟩ default]).lifecycle) := by
  have accepted : ∃ plan, compile tapChain 0 = .ok plan := ⟨_, by cbv⟩
  obtain ⟨plan, ok⟩ := accepted
  exact ⟨plan, ok, (lifecycle_safe ok (ofPlan_initial plan _ tapChainModules) _).1⟩

end EventFlow

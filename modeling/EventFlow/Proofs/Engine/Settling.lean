import EventFlow.Proofs.Engine.Containment

/-!
What a tick leaves to do. A turn changes the wishes of modules that come later only, so a module
that has had its turn stays as it is meant to be until the tick is over, and the next tick finds
nothing to start and nothing to stop.
-/

namespace EventFlow

def FailedInit (calls : List Call) (id : ModuleId) : Prop :=
  ∃ c ∈ calls, c.caller = id ∧ c.callback = .init ∧ ¬ c.Succeeds

/-- A module is as it is meant to be: it runs because it is wanted, or it is down because nobody
wants it, because it waits for a producer, or because it has just failed to start. -/
structure Plan.AtRest (plan : Plan) (l : Lifecycle) (calls : List Call) (id : ModuleId) :
    Prop where
  up : l.isRunning id = true → l.wants id = true
  down : l.isRunning id = false →
    l.wants id = false ∨ (∃ p ∈ plan.producers id, l.isRunning p = false) ∨ FailedInit calls id

namespace Engine

variable {M : Type} {plan : Plan} {e e' : Engine M} {id x : ModuleId} {rest : List ModuleId}
  {l l' : Lifecycle} {calls earlier : List Call}

theorem atRest_unscheduled : plan.AtRest l.unscheduled calls id ↔ plan.AtRest l calls id := by
  constructor
  · rintro ⟨up, down⟩
    simp only [Lifecycle.isRunning_unscheduled, Lifecycle.wants_unscheduled] at up down
    exact ⟨up, down⟩
  · rintro ⟨up, down⟩
    refine ⟨?_, ?_⟩ <;>
      simpa only [Lifecycle.isRunning_unscheduled, Lifecycle.wants_unscheduled]

/-! ### One turn -/

theorem atRest_markStopped : plan.AtRest (l.markStopped id) calls id := by
  have stopped : ¬ (l.markStopped id).isRunning id = true := fun up =>
    (Lifecycle.isRunning_markStopped.mp up).2 rfl
  have unwanted : ¬ (l.markStopped id).wants id = true := fun wanted =>
    (Lifecycle.wants_markStopped.mp wanted).2.1 rfl
  exact ⟨fun up => absurd up stopped, fun _ => Or.inl (Bool.eq_false_iff.mpr unwanted)⟩

theorem Moved.atRest (moved : Moved l id calls l') (made : ∀ c ∈ calls, Made e id c)
    (producers : l.producers id = plan.producers id) (apart : id ∉ l.consumers id)
    (earlier : List Call) : plan.AtRest l' (calls ++ earlier) id := by
  cases moved with
  | idle next =>
    have stopped := Lifecycle.nextStep_idle next
    have waits := Lifecycle.waits_of_idle next
    rw [producers] at waits
    exact atRest_unscheduled.mpr ⟨by simp [stopped], fun _ => waits.imp_right Or.inl⟩
  | started c next =>
    have known : l.has id = true := Lifecycle.has_of_nextStep (by rw [next]; decide)
    have running := Lifecycle.isRunning_markRunning_self known
    have wanted : (l.markRunning id).wants id = true := by
      rw [Lifecycle.wants_markRunning_of_not_mem apart]
      exact Lifecycle.wants_of_start next
    exact atRest_unscheduled.mpr ⟨fun _ => wanted, by simp [running]⟩
  | unstarted c next init failed =>
    have stopped := (Lifecycle.nextStep_start next).1
    have here := made c List.mem_cons_self
    have fails : ¬ c.Succeeds := fun fine => failed (here.failure.mpr fine)
    have tried : FailedInit ([c] ++ earlier) id :=
      ⟨c, List.mem_cons_self, here.caller, init, fails⟩
    exact atRest_unscheduled.mpr ⟨by simp [stopped], fun _ => Or.inr (Or.inr tried)⟩
  | stopped => exact atRest_unscheduled.mpr atRest_markStopped
  | ran _ next =>
    obtain ⟨running, wanted⟩ := Lifecycle.nextStep_run next
    exact atRest_unscheduled.mpr ⟨fun _ => wanted, by simp [running]⟩
  | failed => exact atRest_unscheduled.mpr atRest_markStopped

theorem Moved.atRest_other (moved : Moved l id calls l') (other : x ≠ id)
    (apart : x ∉ l.consumers id)
    (still : ∀ p ∈ plan.producers x, l'.isRunning p = l.isRunning p)
    (h : plan.AtRest l earlier x) : plan.AtRest l' (calls ++ earlier) x := by
  have running := moved.isRunning_other other
  have wants : l'.wants x = l.wants x := by
    rw [Bool.eq_iff_iff, moved.wants_other other fun consumer => absurd consumer apart]
    simp [apart]
  refine ⟨fun up => ?_, fun down => ?_⟩
  · rw [wants]
    exact h.up (running ▸ up)
  · rcases h.down (running ▸ down) with unwanted | ⟨p, feeds, waits⟩ | ⟨c, mem, failed⟩
    · exact Or.inl (wants.trans unwanted)
    · exact Or.inr (Or.inl ⟨p, feeds, (still p feeds).trans waits⟩)
    · exact Or.inr (Or.inr ⟨c, List.mem_append_right _ mem, failed⟩)

theorem Moved.steady (moved : Moved l id calls l') (made : ∀ c ∈ calls, Made e id c)
    (producers : l.producers id = plan.producers id) (h : plan.AtRest l [] id)
    (fine : ∀ c ∈ calls, c.Succeeds) : l' = l.unscheduled := by
  have unstarted : l.nextStep id ≠ .start := by
    intro next
    obtain ⟨stopped, fed⟩ := Lifecycle.nextStep_start next
    rcases h.down stopped with unwanted | ⟨p, feeds, down⟩ | ⟨c, mem, -⟩
    · rw [Lifecycle.wants_of_start next] at unwanted
      cases unwanted
    · rw [fed p (producers ▸ feeds)] at down
      cases down
    · cases mem
  cases moved with
  | idle => rfl
  | started c next => exact absurd next unstarted
  | unstarted c next => exact absurd next unstarted
  | stopped c next =>
    obtain ⟨running, unwanted⟩ := Lifecycle.nextStep_stop next
    rw [h.up running] at unwanted
    cases unwanted
  | ran => rfl
  | failed c before _ _ failed =>
    obtain ⟨d, mem, failure⟩ := failed
    have called : d ∈ c :: before := List.mem_cons_of_mem _ mem
    exact absurd ((made d called).failure.mpr (fine d called)) failure

/-! ### A tick -/

def Resting (plan : Plan) (rest : List ModuleId) (e : Engine M) : Prop :=
  ∀ x, x ∉ rest → plan.AtRest e.lifecycle e.journal x

theorem resting_start (fits : Fits plan e) :
    Resting plan plan.order { e with journal := [] } := by
  intro x absent
  have none : e.lifecycle.cell? x = none := by
    cases found : e.lifecycle.cell? x with
    | none => rfl
    | some c => exact absurd (fits.placed found) absent
  have stopped : e.lifecycle.isRunning x = false := by
    simp [Lifecycle.isRunning, Lifecycle.status?, none]
  have unwanted : e.lifecycle.wants x = false := by simp [Lifecycle.wants, none]
  exact ⟨by simp [stopped], fun _ => Or.inl unwanted⟩

variable {done : List ModuleId} {routes : Routes}

theorem not_consumer (sequenced : plan.Sequenced) (fits : Fits plan e)
    (split : plan.order = done ++ id :: rest) (visited : x ∉ rest) :
    x ∉ e.lifecycle.consumers id := by
  have mem : id ∈ plan.order := split ▸ List.mem_append_cons_self
  rw [(fits.neighbours mem).2, sequenced.consumers]
  intro feeds
  have before := sequenced.before x id feeds
  rw [split] at before
  exact visited (before.mem_tail (split ▸ sequenced.nodup))

theorem Resting.next (h : Resting plan (id :: rest) e) (sequenced : plan.Sequenced)
    (fits : Fits plan e) (split : plan.order = done ++ id :: rest)
    (stepped : Stepped e id routes e' calls) : Resting plan rest e' := by
  have mem : id ∈ plan.order := split ▸ List.mem_append_cons_self
  intro x visited
  have apart := not_consumer sequenced fits split visited
  rw [← atRest_unscheduled, stepped.journal]
  by_cases own : x = id
  · subst own
    exact stepped.lifecycle.atRest stepped.made (fits.neighbours mem).1 apart e.journal
  · refine stepped.lifecycle.atRest_other own apart (fun p feeds => ?_)
      (h x (List.not_mem_cons_of_ne_of_not_mem own visited))
    rw [Lifecycle.isRunning_unscheduled]
    exact Containing.producers_still sequenced split stepped visited p feeds

def Still (l : Lifecycle) (e : Engine M) : Prop :=
  (∀ c ∈ e.journal, c.Succeeds) → e.lifecycle.unscheduled = l.unscheduled

theorem Still.next (h : Still l e) (fits : Fits plan e) (mem : id ∈ plan.order)
    (stepped : Stepped e id routes e' calls) (rests : plan.AtRest l [] id) : Still l e' := by
  intro fine
  rw [stepped.journal] at fine
  obtain ⟨here, before⟩ := List.forall_mem_append.mp fine
  have same := h before
  have rests : plan.AtRest e.lifecycle [] id := by
    rwa [← atRest_unscheduled, same, atRest_unscheduled]
  rw [← same]
  exact stepped.lifecycle.steady stepped.made (fits.neighbours mem).1 rests here

section
variable [Behaviour M]

theorem tick_resting (now : Moment) (s : Signals) (sequenced : plan.Sequenced)
    (fits : Fits plan e) : Resting plan [] (e.tick now s).1 := by
  obtain ⟨last, h, -, same⟩ := tick_induction now s sequenced fits (resting_start fits)
    fun _ _ _ _ _ _ _ split fits h _ stepped => h.next sequenced fits split stepped
  rw [same]
  exact h

/-- Where all is at rest, a tick without failures changes nothing but what is scheduled. -/
theorem tick_steady (now : Moment) (s : Signals) (sequenced : plan.Sequenced) (fits : Fits plan e)
    (h : ∀ id, plan.AtRest e.lifecycle [] id)
    (fine : ∀ c ∈ (e.tick now s).1.journal, c.Succeeds) :
    (e.tick now s).1.lifecycle.unscheduled = e.lifecycle.unscheduled := by
  obtain ⟨last, still, -, same⟩ := tick_induction (P := fun _ => Still e.lifecycle) now s sequenced
    fits (fun _ => rfl) fun _ id _ _ _ _ _ split fits still _ stepped =>
      still.next fits (split ▸ List.mem_append_cons_self) stepped (h id)
  rw [same] at fine ⊢
  exact still fine

/-! ### More ticks -/

def ticks (e : Engine M) (rounds : List (Moment × Signals)) : Engine M :=
  rounds.foldl (fun e r => (e.tick r.1 r.2).1) e

/-- No callback fails in any of the ticks. -/
def Smooth (e : Engine M) : List (Moment × Signals) → Prop
  | [] => True
  | r :: rounds =>
    (∀ c ∈ (e.tick r.1 r.2).1.journal, c.Succeeds) ∧ Smooth (e.tick r.1 r.2).1 rounds

theorem ticks_steady (sequenced : plan.Sequenced) (fits : Fits plan e)
    (h : ∀ id, plan.AtRest e.lifecycle [] id) {rounds : List (Moment × Signals)}
    (smooth : Smooth e rounds) :
    (e.ticks rounds).lifecycle.unscheduled = e.lifecycle.unscheduled := by
  induction rounds generalizing e with
  | nil => rfl
  | cons r rounds ih =>
    obtain ⟨fine, smooth⟩ := smooth
    have same := tick_steady r.1 r.2 sequenced fits h fine
    have still : ∀ id, plan.AtRest (e.tick r.1 r.2).1.lifecycle [] id := by
      intro id
      rw [← atRest_unscheduled, same, atRest_unscheduled]
      exact h id
    exact (ih (tick_fits r.1 r.2 sequenced fits) still smooth).trans same

end
end Engine

open Engine

/-- After every tick, what runs is wanted, and what is down is unwanted, waits for a producer or has
failed to start in this tick. If no init has failed, nothing goes up or down any more in further
ticks in which no callback fails. -/
theorem tick_settles {M : Type} [Behaviour M] {decls : List Decl} {generation : Nat} {plan : Plan}
    (compiled : compile decls generation = .ok plan) {startup : ModuleId → Bool} {e : Engine M}
    (initial : Initial plan startup e) (events : List Engine.Event) (now : Moment) (s : Signals) :
    let settled := ((e.after events).tick now s).1
    (∀ id, plan.AtRest settled.lifecycle settled.journal id) ∧
    ((∀ c ∈ settled.journal, c.callback = .init → c.Succeeds) →
      ∀ rounds, Smooth settled rounds →
        ∀ id, (settled.ticks rounds).lifecycle.status? id = settled.lifecycle.status? id) := by
  intro settled
  have sequenced := Compile.compile_sequenced compiled
  have fits := tick_fits now s sequenced (after_fits sequenced initial.fits events)
  have resting := tick_resting now s sequenced (after_fits sequenced initial.fits events)
  refine ⟨fun id => resting id List.not_mem_nil, fun fine rounds smooth id => ?_⟩
  have rests : ∀ id, plan.AtRest settled.lifecycle [] id := by
    intro id
    obtain ⟨up, down⟩ := resting id List.not_mem_nil
    refine ⟨up, fun stopped => ?_⟩
    rcases down stopped with unwanted | waits | ⟨c, mem, -, init, failed⟩
    · exact Or.inl unwanted
    · exact Or.inr (Or.inl waits)
    · exact absurd (fine c mem init) failed
  rw [← Lifecycle.status?_unscheduled, ticks_steady sequenced fits rests smooth,
    Lifecycle.status?_unscheduled]

/-- The second tick takes down the relays, and the third one finds them down. -/
theorem relays_settled : ∃ plan, compile relays 0 = .ok plan ∧
    let stopped := (ofPlan plan (fun _ => true) relayModules).after [.tick {} default, .stop ⟨2⟩]
    let settled := (stopped.tick ⟨1, 1⟩ default).1
    (∀ id, plan.AtRest settled.lifecycle settled.journal id) ∧
    ∀ id, (settled.ticks [(⟨2, 2⟩, default)]).lifecycle.status? id =
      settled.lifecycle.status? id := by
  have fine : ((compile relays 0).toOption.all fun plan =>
      let stopped := (ofPlan plan (fun _ => true) relayModules).after [.tick {} default, .stop ⟨2⟩]
      let settled := (stopped.tick ⟨1, 1⟩ default).1
      (settled.journal ++ (settled.tick ⟨2, 2⟩ default).1.journal).all fun c =>
        decide c.Succeeds) = true := by cbv
  have accepted : ∃ plan, compile relays 0 = .ok plan := ⟨_, by cbv⟩
  obtain ⟨plan, ok⟩ := accepted
  simp only [ok, Except.toOption, Option.all_some, List.all_append, Bool.and_eq_true,
    List.all_eq_true, decide_eq_true_eq] at fine
  obtain ⟨second, third⟩ := fine
  have initial := ofPlan_initial plan (fun _ => true) relayModules
  obtain ⟨resting, steady⟩ :=
    tick_settles ok initial [.tick {} default, .stop ⟨2⟩] ⟨1, 1⟩ default
  exact ⟨plan, ok, resting, steady (fun c mem _ => second c mem) _ ⟨third, trivial⟩⟩

end EventFlow

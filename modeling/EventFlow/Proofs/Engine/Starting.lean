import EventFlow.Proofs.Engine.Settling
import EventFlow.Proofs.Engine.Typestate

/-!
What a tick starts. A start rouses the direct consumers only, and a stop takes back their wish to
run; since every module has its turn after all its producers, a module whose producers all run at
its turn has lost no wish, and has been roused by those of them that have just started.
-/

namespace EventFlow
open Relation

def InitCalled (calls : List Call) (id : ModuleId) : Prop :=
  ∃ c ∈ calls, c.caller = id ∧ c.callback = .init

/-- A module is wanted, or starts with its producers and one of them has gone up. -/
def Plan.Summoned (plan : Plan) (startup : ModuleId → Bool) (before after : Lifecycle)
    (id : ModuleId) : Prop :=
  before.wants id = true ∨ startup id = true ∧
    ∃ p ∈ plan.producers id, before.isRunning p = false ∧ after.isRunning p = true

namespace Engine

variable {M : Type} {plan : Plan} {startup : ModuleId → Bool} {e e' : Engine M} {id x : ModuleId}
  {rest : List ModuleId} {l l' : Lifecycle} {calls : List Call}

/-! ### One turn -/

theorem initCalled_append {later : List Call} :
    InitCalled (later ++ calls) id ↔ InitCalled later id ∨ InitCalled calls id := by
  simp only [InitCalled, List.mem_append, or_and_right, exists_or]

theorem not_initCalled (h : ∀ c ∈ calls, c.caller ≠ id) : ¬ InitCalled calls id := by
  rintro ⟨c, mem, own, -⟩
  exact h c mem own

theorem InTurn.not_init (h : InTurn calls) : ∀ c ∈ calls, c.callback ≠ .init := by
  intro c mem
  rcases h.ofRunning c mem with kind | kind | kind <;> simp [kind]

theorem Moved.initCalled (moved : Moved l id calls l') (made : ∀ c ∈ calls, Made e id c) :
    InitCalled calls id ↔ l.nextStep id = .start := by
  cases moved with
  | idle next =>
    rw [next]
    exact iff_of_false (not_initCalled (by simp)) (by simp)
  | started c next init =>
    have here := (made c List.mem_cons_self).caller
    exact iff_of_true ⟨c, List.mem_cons_self, here, init⟩ next
  | unstarted c next init =>
    have here := (made c List.mem_cons_self).caller
    exact iff_of_true ⟨c, List.mem_cons_self, here, init⟩ next
  | stopped c next exits =>
    rw [next]
    refine iff_of_false ?_ (by simp)
    rintro ⟨d, mem, -, init⟩
    rw [List.mem_singleton.mp mem, exits] at init
    cases init
  | ran _ next turn =>
    rw [next]
    refine iff_of_false ?_ (by simp)
    rintro ⟨d, mem, -, init⟩
    exact turn.not_init d mem init
  | failed c before next turn _ exits =>
    rw [next]
    refine iff_of_false ?_ (by simp)
    rintro ⟨d, mem, -, init⟩
    rcases List.mem_cons.mp mem with rfl | mem
    · rw [exits] at init
      cases init
    · exact turn.not_init d mem init

theorem Moved.up_iff (moved : Moved l id calls l') (made : ∀ c ∈ calls, Made e id c)
    (stopped : l.isRunning id = false) :
    l'.isRunning id = true ↔ ∃ c ∈ calls, c.callback = .init ∧ c.Succeeds := by
  cases moved with
  | idle next => simp [Lifecycle.isRunning_unscheduled, stopped]
  | started c next init fine =>
    have known : l.has id = true := Lifecycle.has_of_nextStep (by rw [next]; decide)
    have success := (made c List.mem_cons_self).failure.mp fine
    rw [Lifecycle.isRunning_unscheduled]
    exact iff_of_true (Lifecycle.isRunning_markRunning_self known)
      ⟨c, List.mem_cons_self, init, success⟩
  | unstarted c next init failed =>
    have fails : ¬ c.Succeeds := fun fine =>
      failed ((made c List.mem_cons_self).failure.mpr fine)
    simp [Lifecycle.isRunning_unscheduled, stopped, fails]
  | stopped c next =>
    rw [(Lifecycle.nextStep_stop next).1] at stopped
    cases stopped
  | ran _ next =>
    rw [(Lifecycle.nextStep_run next).1] at stopped
    cases stopped
  | failed c before next =>
    rw [(Lifecycle.nextStep_run next).1] at stopped
    cases stopped

theorem Moved.eager (moved : Moved l id calls l') : l'.eager x = l.eager x := by
  cases moved with
  | started => rw [Lifecycle.eager_unscheduled, Lifecycle.eager_markRunning]
  | stopped => rw [Lifecycle.eager_unscheduled, Lifecycle.eager_markStopped]
  | failed => rw [Lifecycle.eager_unscheduled, Lifecycle.eager_markStopped]
  | _ => rw [Lifecycle.eager_unscheduled]

theorem Moved.wants_apart (moved : Moved l id calls l') (other : x ≠ id)
    (apart : x ∉ l.consumers id) : l'.wants x = l.wants x := by
  rw [Bool.eq_iff_iff, moved.wants_other other fun consumer => absurd consumer apart]
  simp [apart]

theorem Moved.wants_consumer (moved : Moved l id calls l') (up : l'.isRunning id = true)
    (consumer : x ∈ l.consumers id) :
    l'.wants x = true ↔ l.wants x = true ∨ l.isRunning id = false ∧ l.eager x = true := by
  have down : ¬ (l.markStopped id).unscheduled.isRunning id = true := by
    rw [Lifecycle.isRunning_unscheduled]
    exact fun running => (Lifecycle.isRunning_markStopped.mp running).2 rfl
  cases moved with
  | idle next =>
    rw [Lifecycle.isRunning_unscheduled, Lifecycle.nextStep_idle next] at up
    cases up
  | started c next =>
    have stopped := (Lifecycle.nextStep_start next).1
    rw [Lifecycle.wants_unscheduled, Lifecycle.wants_markRunning_of_mem consumer, Bool.or_eq_true,
      and_iff_right stopped]
  | unstarted c next =>
    rw [Lifecycle.isRunning_unscheduled, (Lifecycle.nextStep_start next).1] at up
    cases up
  | stopped => exact absurd up down
  | ran _ next =>
    have running := (Lifecycle.nextStep_run next).1
    simp [Lifecycle.wants_unscheduled, running]
  | failed => exact absurd up down

/-! ### A tick -/

/-- In the middle of a tick that began with `l`. The wish of a module still to come is only known as
long as none of its producers has had its turn and is down; with such a producer it will not start
anyway. -/
structure Starting (plan : Plan) (startup : ModuleId → Bool) (l : Lifecycle)
    (rest : List ModuleId) (e : Engine M) : Prop where
  eager : ∀ x ∈ plan.order, e.lifecycle.eager x = startup x
  waiting : ∀ x ∈ rest, e.lifecycle.isRunning x = l.isRunning x
  roused : ∀ x ∈ rest, (∀ p ∈ plan.producers x, p ∉ rest → e.lifecycle.isRunning p = true) →
    (e.lifecycle.wants x = true ↔ plan.Summoned startup l e.lifecycle x)
  called : ∀ x, x ∉ rest → (InitCalled e.journal x ↔ l.isRunning x = false ∧
    (∀ p ∈ plan.producers x, e.lifecycle.isRunning p = true) ∧
    plan.Summoned startup l e.lifecycle x)
  up : ∀ x, x ∉ rest → l.isRunning x = false → (e.lifecycle.isRunning x = true ↔
    ∃ c ∈ e.journal, c.caller = x ∧ c.Starts)
  callers : ∀ c ∈ e.journal, c.caller ∉ rest

namespace Starting

theorem not_summoned_still {startup : ModuleId → Bool} :
    plan.Summoned startup l l x ↔ l.wants x = true := by
  refine or_iff_left ?_
  rintro ⟨-, p, -, down, up⟩
  rw [down] at up
  cases up

theorem start (fits : Fits plan e) (eager : ∀ x ∈ plan.order, e.lifecycle.eager x = startup x) :
    Starting plan startup e.lifecycle plan.order { e with journal := [] } where
  eager := eager
  waiting _ _ := rfl
  roused x _ _ := not_summoned_still.symm
  called x absent := by
    have unwanted : ¬ e.lifecycle.wants x = true := by
      intro wanted
      obtain ⟨c, found, -⟩ := Lifecycle.wants_iff.mp wanted
      exact absent (fits.placed found)
    refine iff_of_false (not_initCalled (by simp)) ?_
    rintro ⟨-, -, summoned⟩
    exact unwanted (not_summoned_still.mp summoned)
  up x absent stopped := by simp [stopped]
  callers := by simp

section Turn

variable {done : List ModuleId} {routes : Routes} (sequenced : plan.Sequenced)
  (fits : Fits plan e) (split : plan.order = done ++ id :: rest)
  (h : Starting plan startup l (id :: rest) e) (stepped : Stepped e id routes e' calls)

include sequenced split stepped

theorem summoned_still (visited : x ∉ rest) :
    plan.Summoned startup l e'.lifecycle x ↔ plan.Summoned startup l e.lifecycle x := by
  have still := Containing.producers_still sequenced split stepped visited
  unfold Plan.Summoned
  refine or_congr_right (and_congr_right fun _ => exists_congr fun p => ?_)
  refine and_congr_right fun feeds => ?_
  rw [still p feeds]

include h

omit sequenced split in
theorem summoned_turn (other : x ≠ id) :
    plan.Summoned startup l e'.lifecycle x ↔ plan.Summoned startup l e.lifecycle x ∨
      startup x = true ∧ id ∈ plan.producers x ∧ e.lifecycle.isRunning id = false ∧
        e'.lifecycle.isRunning id = true := by
  have before := h.waiting id List.mem_cons_self
  constructor
  · rintro (wanted | ⟨auto, p, feeds, down, up⟩)
    · exact Or.inl (Or.inl wanted)
    · by_cases same : p = id
      · subst same
        exact Or.inr ⟨auto, feeds, before.trans down, up⟩
      · rw [stepped.isRunning_other same] at up
        exact Or.inl (Or.inr ⟨auto, p, feeds, down, up⟩)
  · rintro ((wanted | ⟨auto, p, feeds, down, up⟩) | ⟨auto, feeds, down, up⟩)
    · exact Or.inl wanted
    · have differs : p ≠ id := by
        rintro rfl
        rw [before, down] at up
        cases up
      rw [← stepped.isRunning_other differs] at up
      exact Or.inr ⟨auto, p, feeds, down, up⟩
    · exact Or.inr ⟨auto, id, feeds, before.symm.trans down, up⟩

include fits

theorem next_roused (later : x ∈ rest)
    (fed : ∀ p ∈ plan.producers x, p ∉ rest → e'.lifecycle.isRunning p = true) :
    e'.lifecycle.wants x = true ↔ plan.Summoned startup l e'.lifecycle x := by
  have mem : id ∈ plan.order := split ▸ List.mem_append_cons_self
  have fresh : id ∉ rest := not_mem_after (split ▸ sequenced.nodup)
  have other : x ≠ id := fun same => fresh (same ▸ later)
  have reads : x ∈ e.lifecycle.consumers id ↔ id ∈ plan.producers x := by
    rw [(fits.neighbours mem).2, sequenced.consumers]
  have earlier : e.lifecycle.wants x = true ↔ plan.Summoned startup l e.lifecycle x := by
    apply h.roused x (List.mem_cons_of_mem _ later)
    intro p feeds gone
    obtain ⟨differs, gone⟩ := List.ne_and_not_mem_of_not_mem_cons gone
    rw [← stepped.isRunning_other differs]
    exact fed p feeds gone
  rw [summoned_turn h stepped other, ← earlier, ← Lifecycle.wants_unscheduled]
  by_cases consumer : x ∈ e.lifecycle.consumers id
  · have feeds := reads.mp consumer
    have auto := h.eager x (split ▸ List.mem_append_right _ (List.mem_cons_of_mem _ later))
    have running := fed id feeds fresh
    have up : e'.lifecycle.unscheduled.isRunning id = true := by
      rw [Lifecycle.isRunning_unscheduled]
      exact running
    rw [stepped.lifecycle.wants_consumer up consumer, auto]
    simp [feeds, running, and_comm]
  · have apart : id ∉ plan.producers x := fun feeds => consumer (reads.mpr feeds)
    rw [stepped.lifecycle.wants_apart other consumer]
    simp [apart]

theorem next_called (visited : x ∉ rest) :
    InitCalled e'.journal x ↔ l.isRunning x = false ∧
      (∀ p ∈ plan.producers x, e'.lifecycle.isRunning p = true) ∧
      plan.Summoned startup l e'.lifecycle x := by
  have mem : id ∈ plan.order := split ▸ List.mem_append_cons_self
  have still := Containing.producers_still sequenced split stepped visited
  have fed : (∀ p ∈ plan.producers x, e'.lifecycle.isRunning p = true) ↔
      ∀ p ∈ plan.producers x, e.lifecycle.isRunning p = true :=
    forall₂_congr fun p feeds => by rw [still p feeds]
  rw [fed, summoned_still sequenced split stepped visited, stepped.journal, initCalled_append]
  by_cases own : x = id
  · subst own
    have quiet : ¬ InitCalled e.journal x :=
      not_initCalled fun c called same => h.callers c called (same ▸ List.mem_cons_self)
    rw [or_iff_left quiet, stepped.lifecycle.initCalled stepped.made, Lifecycle.nextStep_eq_start,
      (fits.neighbours mem).1, h.waiting x List.mem_cons_self]
    refine and_congr_right fun _ => ?_
    rw [and_comm]
    exact and_congr_right fun all => h.roused x List.mem_cons_self fun p feeds _ => all p feeds
  · have foreign : ¬ InitCalled calls x := not_initCalled fun c called same =>
      own (same.symm.trans (stepped.made c called).caller)
    rw [or_iff_right foreign]
    exact h.called x (List.not_mem_cons_of_ne_of_not_mem own visited)

omit fits sequenced split in
theorem next_up (visited : x ∉ rest) (stopped : l.isRunning x = false) :
    e'.lifecycle.isRunning x = true ↔ ∃ c ∈ e'.journal, c.caller = x ∧ c.Starts := by
  rw [stepped.journal]
  simp only [List.mem_append, or_and_right, exists_or]
  by_cases own : x = id
  · subst own
    have quiet : ¬ ∃ c ∈ e.journal, c.caller = x ∧ c.Starts := by
      rintro ⟨c, called, same, -⟩
      exact h.callers c called (same ▸ List.mem_cons_self)
    have before := (h.waiting x List.mem_cons_self).trans stopped
    rw [or_iff_left quiet, ← Lifecycle.isRunning_unscheduled,
      stepped.lifecycle.up_iff stepped.made before]
    refine exists_congr fun c => and_congr_right fun called => ?_
    rw [and_iff_right (stepped.made c called).caller]
    rfl
  · have foreign : ¬ ∃ c ∈ calls, c.caller = x ∧ c.Starts := by
      rintro ⟨c, called, same, -⟩
      exact own (same.symm.trans (stepped.made c called).caller)
    rw [or_iff_right foreign, stepped.isRunning_other own]
    exact h.up x (List.not_mem_cons_of_ne_of_not_mem own visited) stopped

theorem next : Starting plan startup l rest e' where
  eager x placed := by
    rw [← Lifecycle.eager_unscheduled, stepped.lifecycle.eager]
    exact h.eager x placed
  waiting x later := by
    have fresh : id ∉ rest := not_mem_after (split ▸ sequenced.nodup)
    rw [stepped.isRunning_other fun same => fresh (same ▸ later)]
    exact h.waiting x (List.mem_cons_of_mem _ later)
  roused _ := next_roused sequenced fits split h stepped
  called _ := next_called sequenced fits split h stepped
  up _ := next_up h stepped
  callers := by
    rw [stepped.journal]
    refine List.forall_mem_append.mpr ⟨?_, ?_⟩
    · intro c called
      rw [(stepped.made c called).caller]
      exact not_mem_after (split ▸ sequenced.nodup)
    · intro c called later
      exact h.callers c called (List.mem_cons_of_mem _ later)

end Turn
end Starting

section
variable [Behaviour M]

theorem tick_starting (now : Moment) (s : Signals) (sequenced : plan.Sequenced)
    (fits : Fits plan e) (eager : ∀ x ∈ plan.order, e.lifecycle.eager x = startup x) :
    Starting plan startup e.lifecycle [] (e.tick now s).1 := by
  obtain ⟨last, h, -, same⟩ := tick_induction now s sequenced fits (Starting.start fits eager)
    fun _ _ _ _ _ _ _ split fits h _ stepped => h.next sequenced fits split stepped
  rw [same]
  exact ⟨h.eager, h.waiting, h.roused, h.called, h.up, h.callers⟩

theorem react_eager (sequenced : plan.Sequenced) (fits : Fits plan e)
    (eager : ∀ x ∈ plan.order, e.lifecycle.eager x = startup x) (event : Event) :
    ∀ x ∈ plan.order, (e.react event).lifecycle.eager x = startup x := by
  intro x placed
  rw [← eager x placed]
  cases event with
  | tick now s =>
    exact ((tick_starting now s sequenced fits eager).eager x placed).trans (eager x placed).symm
  | start id => exact Lifecycle.eager_modify (by intro c; exact ⟨rfl, rfl⟩) _ [id] x
  | stop id => exact Lifecycle.eager_modify (by intro c; exact ⟨rfl, rfl⟩) _ [id] x
  | setParam id => exact Lifecycle.eager_modify (by intro c; exact ⟨rfl, rfl⟩) _ [id] x
  | reset id => exact Lifecycle.eager_modify (by intro c; exact ⟨rfl, rfl⟩) _ [id] x

theorem after_eager (sequenced : plan.Sequenced) {e : Engine M} (fits : Fits plan e)
    (eager : ∀ x ∈ plan.order, e.lifecycle.eager x = startup x) (events : List Event) :
    ∀ x ∈ plan.order, (e.after events).lifecycle.eager x = startup x := by
  induction events generalizing e with
  | nil => exact eager
  | cons event events ih =>
    exact ih (react_fits sequenced fits event) (react_eager sequenced fits eager event)

end

theorem Initial.eager (h : Initial plan startup e) :
    ∀ x ∈ plan.order, e.lifecycle.eager x = startup x := by
  intro x placed
  rw [h.lifecycle, Lifecycle.eager, Lifecycle.cell?_ofPlan, if_pos placed, Option.any_some]

theorem Initial.wants (h : Initial plan startup e) (placed : x ∈ plan.order) :
    e.lifecycle.wants x = startup x := by
  rw [h.lifecycle, Lifecycle.wants, Lifecycle.cell?_ofPlan, if_pos placed, Option.any_some]

/-- If no init fails in a first tick, whatever runs after it runs at startup, and so do all that it
reads from. -/
theorem Starting.first (h : Starting plan startup e.lifecycle [] e') (sequenced : plan.Sequenced)
    (initial : Initial plan startup e) (fits : Fits plan e')
    (fine : ∀ c ∈ e'.journal, c.callback = .init → c.Succeeds) (id : ModuleId) :
    e'.lifecycle.isRunning id = true ↔ id ∈ plan.order ∧ startup id = true ∧
      ∀ p, TransGen (fun a b => a ∈ plan.producers b) p id → startup p = true := by
  have stopped (x : ModuleId) : e.lifecycle.isRunning x = false :=
    Bool.eq_false_iff.mpr (initial.stopped x)
  have direct : ∀ x ∈ plan.order, (e'.lifecycle.isRunning x = true ↔
      startup x = true ∧ ∀ p ∈ plan.producers x, e'.lifecycle.isRunning p = true) := by
    intro x placed
    have wanted := initial.wants placed
    have summoned : plan.Summoned startup e.lifecycle e'.lifecycle x ↔ startup x = true := by
      rw [Plan.Summoned, wanted]
      exact or_iff_left_of_imp And.left
    have called := h.called x List.not_mem_nil
    rw [summoned, and_iff_right (stopped x), and_comm] at called
    rw [← called, h.up x List.not_mem_nil (stopped x)]
    constructor
    · rintro ⟨c, mem, own, init, -⟩
      exact ⟨c, mem, own, init⟩
    · rintro ⟨c, mem, own, init⟩
      exact ⟨c, mem, own, init, fine c mem init⟩
  constructor
  · intro running
    have placed := fits.mem_order running
    refine ⟨placed, ((direct id placed).mp running).1, fun p path => ?_⟩
    have runs : e'.lifecycle.isRunning p = true := by
      induction path using TransGen.head_induction_on with
      | single feeds => exact ((direct id placed).mp running).2 _ feeds
      | head feeds _ ih => exact ((direct _ (fits.mem_order ih)).mp ih).2 _ feeds
    exact ((direct p (fits.mem_order runs)).mp runs).1
  · rintro ⟨placed, auto, all⟩
    -- Along the order: a module is summoned once all its producers have come up.
    have along : ∀ x ∈ plan.order, startup x = true →
        (∀ p, TransGen (fun a b => a ∈ plan.producers b) p x → startup p = true) →
        e'.lifecycle.isRunning x = true := by
      refine before_induction sequenced.nodup fun x placed earlier auto all => ?_
      refine (direct x placed).mpr ⟨auto, fun p feeds => ?_⟩
      apply earlier p (sequenced.before x p feeds) (all p (.single feeds))
      intro q path
      exact all q (path.tail feeds)
    exact along id placed auto all

end Engine

open Engine

/-- A tick calls init of those stopped modules whose producers all run at its end and that were
wanted, or run at startup and had a producer go up in this tick; of these, those run afterwards
whose init succeeded. So a first tick without failures brings up what runs at startup together with
all that it reads from, however indirectly. -/
theorem tick_starts_summoned {M : Type} [Behaviour M] {decls : List Decl} {generation : Nat}
    {plan : Plan} (compiled : compile decls generation = .ok plan) {startup : ModuleId → Bool}
    {e : Engine M} (initial : Initial plan startup e) :
    (∀ events now s,
      let before := e.after events
      let after := (before.tick now s).1
      (∀ id, InitCalled after.journal id ↔
        before.lifecycle.isRunning id = false ∧
        (∀ p ∈ plan.producers id, after.lifecycle.isRunning p = true) ∧
        plan.Summoned startup before.lifecycle after.lifecycle id) ∧
      ∀ id, before.lifecycle.isRunning id = false →
        (after.lifecycle.isRunning id = true ↔
          ∃ c ∈ after.journal, c.caller = id ∧ c.callback = .init ∧ c.Succeeds)) ∧
    ∀ now s,
      let first := (e.tick now s).1
      (∀ c ∈ first.journal, c.callback = .init → c.Succeeds) →
        ∀ id, first.lifecycle.isRunning id = true ↔ id ∈ plan.order ∧ startup id = true ∧
          ∀ p, TransGen (fun a b => a ∈ plan.producers b) p id → startup p = true := by
  have sequenced := Compile.compile_sequenced compiled
  refine ⟨fun events now s => ?_, fun now s fine id => ?_⟩
  · have fits := after_fits sequenced initial.fits events
    have starting := tick_starting now s sequenced fits
      (after_eager sequenced initial.fits initial.eager events)
    exact ⟨fun id => starting.called id List.not_mem_nil,
      fun id stopped => starting.up id List.not_mem_nil stopped⟩
  · have starting := tick_starting now s sequenced initial.fits initial.eager
    exact starting.first sequenced initial (tick_fits now s sequenced initial.fits) fine id

/-- The second relay is left out at startup, which keeps the sink behind it down; once it is wanted,
one tick starts both. -/
theorem relays_started : ∃ plan, compile relays 0 = .ok plan ∧
    let fresh := ofPlan plan (fun id => id ≠ ⟨3⟩) relayModules
    let before := fresh.after [.tick {} default, .start ⟨3⟩]
    let after := (before.tick ⟨1, 1⟩ default).1
    (∀ id, InitCalled after.journal id ↔
      before.lifecycle.isRunning id = false ∧
      (∀ p ∈ plan.producers id, after.lifecycle.isRunning p = true) ∧
      plan.Summoned (fun id => id ≠ ⟨3⟩) before.lifecycle after.lifecycle id) ∧
    ∀ id, (fresh.tick {} default).1.lifecycle.isRunning id = true ↔
      id ∈ plan.order ∧ id ≠ ⟨3⟩ ∧
        ∀ p, TransGen (fun a b => a ∈ plan.producers b) p id → p ≠ ⟨3⟩ := by
  have fine : ((compile relays 0).toOption.all fun plan =>
      let fresh := ofPlan plan (fun id => id ≠ ⟨3⟩) relayModules
      (fresh.tick {} default).1.journal.all fun c => decide c.Succeeds) = true := by cbv
  have accepted : ∃ plan, compile relays 0 = .ok plan := ⟨_, by cbv⟩
  obtain ⟨plan, ok⟩ := accepted
  simp only [ok, Except.toOption, Option.all_some, List.all_eq_true, decide_eq_true_eq] at fine
  have initial := ofPlan_initial plan (fun id => id ≠ ⟨3⟩) relayModules
  obtain ⟨every, first⟩ := tick_starts_summoned ok initial
  refine ⟨plan, ok, (every [.tick {} default, .start ⟨3⟩] ⟨1, 1⟩ default).1, fun id => ?_⟩
  simpa using first {} default (fun c mem _ => fine c mem) id

example : (match compile relays 0 with
    | .error _ => []
    | .ok plan =>
      let fresh := ofPlan plan (fun id => id ≠ ⟨3⟩) relayModules
      let before := fresh.after [.tick {} default, .start ⟨3⟩]
      let after := (before.tick ⟨1, 1⟩ default).1
      [(fresh.tick {} default).1, after].map fun e =>
        (e.lifecycle.cells.filter fun c => c.status == .running).map (·.id.val)) =
    [[1, 2, 5], [1, 2, 5, 3, 4]] := by cbv

end EventFlow

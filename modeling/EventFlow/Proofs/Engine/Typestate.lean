import EventFlow.Proofs.Engine.Safety

/-!
Which callbacks a module may see when. Histories are lists of calls, the latest first. `Logged` says
that a history is in order and that the modules that run are those that it leaves up; every turn
keeps it, whatever the callbacks answer, and so does the stop of all modules.
-/

namespace EventFlow

namespace Call

def Starts (c : Call) : Prop := c.callback = .init ∧ c.Succeeds

def Exits (c : Call) : Prop := c.callback = .exit

end Call

/-- The module has had an init that succeeded, and no exit since. -/
def Up (id : ModuleId) (calls : List Call) : Prop :=
  ∃ later c earlier, calls = later ++ c :: earlier ∧ c.caller = id ∧ c.Starts ∧
    ∀ d ∈ later, d.caller = id → ¬ d.Exits

/-- Every call but an init is for a module that is up, an init for one that is not, and each sees
those modules running that are up. -/
def Proper : List Call → Prop
  | [] => True
  | c :: earlier =>
    (c.callback = .init ↔ ¬ Up c.caller earlier) ∧
    (∀ id, c.context.view.status? id = some .running ↔ Up id earlier) ∧
    Proper earlier

def callsOf (id : ModuleId) (calls : List Call) : List Call := calls.filter fun c => c.caller = id

open Engine in
/-- What a module may see of a tick (the latest call first). -/
inductive OneTurn : List Call → Prop where
  | started (c : Call) : c.callback = .init → OneTurn [c]
  | stopped (c : Call) : c.Exits → OneTurn [c]
  | ran (calls : List Call) : InTurn calls → (∀ c ∈ calls, c.Succeeds) → OneTurn calls
  | failed (c : Call) (calls : List Call) : InTurn calls → (∃ d ∈ calls, ¬ d.Succeeds) → c.Exits →
    OneTurn (c :: calls)

variable {id x : ModuleId} {c : Call} {calls h : List Call}

theorem not_up_nil : ¬ Up id [] := by
  rintro ⟨later, c, earlier, split, -⟩
  simp at split

theorem up_cons : Up id (c :: h) ↔
    (c.caller = id ∧ c.Starts) ∨ (Up id h ∧ ¬ (c.caller = id ∧ c.Exits)) := by
  constructor
  · rintro ⟨later, d, earlier, split, own, starts, quiet⟩
    cases later with
    | nil =>
      obtain ⟨rfl, rfl⟩ := List.cons.inj split
      exact Or.inl ⟨own, starts⟩
    | cons e later =>
      obtain ⟨rfl, rfl⟩ := List.cons.inj split
      obtain ⟨here, quiet⟩ := List.forall_mem_cons.mp quiet
      exact Or.inr ⟨⟨later, d, earlier, rfl, own, starts, quiet⟩, fun exit => here exit.1 exit.2⟩
  · rintro (⟨own, starts⟩ | ⟨⟨later, d, earlier, rfl, own, starts, quiet⟩, stays⟩)
    · exact ⟨[], c, h, rfl, own, starts, by simp⟩
    · refine ⟨c :: later, d, earlier, rfl, own, starts, List.forall_mem_cons.mpr ⟨?_, quiet⟩⟩
      exact fun own exits => stays ⟨own, exits⟩

/-! ### Inits and exits -/

instance (c : Call) : Decidable c.Starts := inferInstanceAs (Decidable (_ ∧ c.Succeeds))

instance (c : Call) : Decidable c.Exits := inferInstanceAs (Decidable (c.callback = .exit))

/-- The inits of a module that succeeded, and its exits. -/
def marks (id : ModuleId) (calls : List Call) : List Callback :=
  ((callsOf id calls).filter fun c => c.Starts ∨ c.Exits).map (·.callback)

/-- Inits and exits in turn, with an exit at the end. -/
def rounds (n : Nat) : List Callback := (List.replicate n [.exit, .init]).flatten

theorem marks_cons_of_not (h : ¬ (c.caller = id ∧ (c.Starts ∨ c.Exits))) :
    marks id (c :: calls) = marks id calls := by
  simp only [marks, callsOf, List.filter_cons]
  split
  · rename_i own
    rw [List.filter_cons_of_neg]
    simpa using fun mark => h ⟨of_decide_eq_true own, mark⟩
  · rfl

theorem marks_cons (own : c.caller = id) (mark : c.Starts ∨ c.Exits) :
    marks id (c :: calls) = c.callback :: marks id calls := by
  simp [marks, callsOf, own, mark]

theorem Proper.marks_eq_rounds (proper : Proper h) (id : ModuleId) :
    (Up id h → ∃ n, marks id h = .init :: rounds n) ∧
      (¬ Up id h → ∃ n, marks id h = rounds n) := by
  induction h with
  | nil => exact ⟨fun up => absurd up not_up_nil, fun _ => ⟨0, rfl⟩⟩
  | cons c h ih =>
    obtain ⟨down, -, proper⟩ := proper
    obtain ⟨up, stopped⟩ := ih proper
    by_cases own : c.caller = id
    · subst own
      by_cases starts : c.Starts
      · obtain ⟨n, same⟩ := stopped (down.mp starts.1)
        have now : Up c.caller (c :: h) := up_cons.mpr (Or.inl ⟨rfl, starts⟩)
        refine ⟨fun _ => ⟨n, ?_⟩, fun gone => absurd now gone⟩
        rw [marks_cons rfl (Or.inl starts), starts.1, same]
      · by_cases exits : c.Exits
        · have other : c.callback ≠ .init := by
            rw [exits]
            decide
          obtain ⟨n, same⟩ := up (not_not.mp (other ∘ down.mpr))
          have gone : ¬ Up c.caller (c :: h) := by simp [up_cons, starts, exits]
          refine ⟨fun now => absurd now gone, fun _ => ⟨n + 1, ?_⟩⟩
          rw [marks_cons rfl (Or.inr exits), exits, same]
          rfl
        · rw [up_cons, marks_cons_of_not (by simp [starts, exits])]
          simpa [starts, exits] using ⟨up, stopped⟩
    · rw [up_cons, marks_cons_of_not (by simp [own])]
      simpa [own] using ⟨up, stopped⟩

/-! ### Turns -/

namespace Engine

structure Logged (l : Lifecycle) (h : List Call) : Prop where
  proper : Proper h
  running : ∀ x, l.isRunning x = true ↔ Up x h

variable {M : Type} {plan : Plan} {e e' : Engine M} {rest : List ModuleId} {l l' : Lifecycle}

theorem logged_unscheduled : Logged l.unscheduled h ↔ Logged l h := by
  constructor
  · rintro ⟨proper, running⟩
    exact ⟨proper, fun x => Lifecycle.isRunning_unscheduled l x ▸ running x⟩
  · rintro ⟨proper, running⟩
    exact ⟨proper, fun x => (Lifecycle.isRunning_unscheduled l x).symm ▸ running x⟩

theorem Logged.call (logged : Logged l h)
    (seen : ∀ x, c.context.view.status? x = some .running ↔ l.isRunning x = true)
    (turn : c.callback = .init ↔ l.isRunning c.caller = false)
    (after : ∀ x, l'.isRunning x = true ↔
      (c.caller = x ∧ c.Starts) ∨ (l.isRunning x = true ∧ ¬ (c.caller = x ∧ c.Exits))) :
    Logged l' (c :: h) := by
  refine ⟨⟨?_, fun x => (seen x).trans (logged.running x), logged.proper⟩, fun x => ?_⟩
  · rw [turn, ← logged.running, Bool.not_eq_true]
  · rw [after, logged.running, up_cons]

theorem Logged.turn (logged : Logged l h) (running : l.isRunning id = true)
    (seen : ∀ x, e.view.status? x = some .running ↔ l.isRunning x = true)
    (made : ∀ c ∈ calls, Made e id c) (turn : ∀ c ∈ calls, ofRunning c.callback) :
    Logged l (calls ++ h) := by
  induction calls with
  | nil => exact logged
  | cons c calls ih =>
    obtain ⟨here, made⟩ := List.forall_mem_cons.mp made
    obtain ⟨called, turn⟩ := List.forall_mem_cons.mp turn
    have init : c.callback ≠ .init := by
      rcases called with kind | kind | kind <;> simp [kind]
    have exit : c.callback ≠ .exit := by
      rcases called with kind | kind | kind <;> simp [kind]
    refine Logged.call (ih made turn) (here.view ▸ seen) ?_ fun x => ?_
    · rw [here.caller, running]
      simp [init]
    · simp [Call.Starts, Call.Exits, init, exit]

theorem Logged.exit (logged : Logged l h) (running : l.isRunning id = true)
    (seen : ∀ x, e.view.status? x = some .running ↔ l.isRunning x = true)
    (made : Made e id c) (exits : c.callback = .exit) :
    Logged (l.markStopped id) (c :: h) := by
  have caller := made.caller
  refine Logged.call logged (made.view ▸ seen) ?_ fun x => ?_
  · rw [caller, running, exits]
    simp
  · have starts : ¬ c.Starts := by simp [Call.Starts, exits]
    have other : ¬ (id = x ∧ c.Exits) ↔ x ≠ id := by
      rw [and_iff_left (show c.Exits from exits), ne_comm]
    rw [Lifecycle.isRunning_markStopped, caller, other, or_iff_right fun up => starts up.2]

theorem Moved.logged (moved : Moved l id calls l') (made : ∀ c ∈ calls, Made e id c)
    (seen : ∀ x, e.view.status? x = some .running ↔ l.isRunning x = true) (logged : Logged l h) :
    Logged l' (calls ++ h) := by
  cases moved with
  | idle => exact logged_unscheduled.mpr logged
  | started c next init fine =>
    have here := made c List.mem_cons_self
    obtain rfl := here.caller
    have stopped := (Lifecycle.nextStep_start next).1
    have known : l.has c.caller = true := Lifecycle.has_of_nextStep (by rw [next]; decide)
    refine logged_unscheduled.mpr (Logged.call logged (here.view ▸ seen) ?_ fun x => ?_)
    · simp [init, stopped]
    · by_cases own : c.caller = x
      · subst own
        have starts : c.Starts := ⟨init, here.failure.mp fine⟩
        simp [Lifecycle.isRunning_markRunning_self known, starts]
      · rw [Lifecycle.isRunning_markRunning_of_ne (Ne.symm own)]
        simp [own]
  | unstarted c next init failed =>
    have here := made c List.mem_cons_self
    obtain rfl := here.caller
    have stopped := (Lifecycle.nextStep_start next).1
    refine logged_unscheduled.mpr (Logged.call logged (here.view ▸ seen) ?_ fun x => ?_)
    · simp [init, stopped]
    · have fails : ¬ c.Succeeds := fun fine => failed (here.failure.mpr fine)
      simp [Call.Starts, Call.Exits, init, fails]
  | stopped c next exits =>
    have running := (Lifecycle.nextStep_stop next).1
    exact logged_unscheduled.mpr (logged.exit running seen (made c List.mem_cons_self) exits)
  | ran _ next turn =>
    have running := (Lifecycle.nextStep_run next).1
    exact logged_unscheduled.mpr (logged.turn running seen made turn.ofRunning)
  | failed c calls next turn _ exits =>
    have running := (Lifecycle.nextStep_run next).1
    obtain ⟨here, made⟩ := List.forall_mem_cons.mp made
    exact logged_unscheduled.mpr
      ((logged.turn running seen made turn.ofRunning).exit running seen here exits)

theorem Moved.oneTurn (moved : Moved l id calls l') (made : ∀ c ∈ calls, Made e id c) :
    OneTurn calls := by
  have fine : ∀ c ∈ calls, (c.failure = none ↔ c.Succeeds) := fun c mem => (made c mem).failure
  cases moved with
  | idle => exact .ran [] (by simp [InTurn]) (by simp)
  | started c _ init => exact .started c init
  | unstarted c _ init => exact .started c init
  | stopped c _ exits => exact .stopped c exits
  | ran _ _ turn ok => exact .ran calls turn fun c mem => (fine c mem).mp (ok c mem)
  | failed c calls _ turn failed exits =>
    obtain ⟨d, mem, failure⟩ := failed
    have fails : ¬ d.Succeeds := fun ok => failure ((fine d (List.mem_cons_of_mem c mem)).mpr ok)
    exact .failed c calls turn ⟨d, mem, fails⟩ exits

/-! ### Ticks -/

theorem callsOf_self (own : ∀ c ∈ calls, c.caller = id) : callsOf id calls = calls :=
  List.filter_eq_self.mpr fun c mem => decide_eq_true (own c mem)

theorem callsOf_other (other : ∀ c ∈ calls, c.caller ≠ id) : callsOf id calls = [] :=
  List.filter_eq_nil_iff.mpr fun c mem => by simpa using other c mem

theorem Stepped.callsOf_of_ne {routes : Routes} (h : Stepped e id routes e' calls)
    (other : x ≠ id) : callsOf x e'.journal = callsOf x e.journal := by
  rw [h.journal, callsOf, List.filter_append, ← callsOf, ← callsOf,
    callsOf_other fun c mem same => other (same.symm.trans (h.made c mem).caller), List.nil_append]

theorem Stepped.callsOf_own {routes : Routes} (h : Stepped e id routes e' calls)
    (waiting : callsOf id e.journal = []) : callsOf id e'.journal = calls := by
  rw [h.journal, callsOf, List.filter_append, ← callsOf, ← callsOf, waiting, List.append_nil]
  exact callsOf_self fun c mem => (h.made c mem).caller

structure Turning (past : List Call) (rest : List ModuleId) (e : Engine M) : Prop where
  logged : Logged e.lifecycle (e.journal ++ past)
  turns : ∀ id, OneTurn (callsOf id e.journal)
  waiting : ∀ id ∈ rest, callsOf id e.journal = []

theorem Stepped.turning {past : List Call} {routes : Routes} (sequenced : plan.Sequenced)
    (fits : Fits plan e) (fresh : id ∉ rest) (stepped : Stepped e id routes e' calls)
    (turning : Turning past (id :: rest) e) : Turning past rest e' := by
  have moved := stepped.lifecycle
  have seen := view_running sequenced fits
  refine ⟨?_, fun x => ?_, fun x later => ?_⟩
  · rw [stepped.journal, List.append_assoc]
    exact logged_unscheduled.mp (moved.logged stepped.made seen turning.logged)
  · by_cases same : x = id
    · subst same
      rw [stepped.callsOf_own (turning.waiting x List.mem_cons_self)]
      exact moved.oneTurn stepped.made
    · rw [stepped.callsOf_of_ne same]
      exact turning.turns x
  · have other : x ≠ id := fun same => fresh (same ▸ later)
    rw [stepped.callsOf_of_ne other]
    exact turning.waiting x (List.mem_cons_of_mem id later)

theorem tick_turning [Behaviour M] {past : List Call} (now : Moment) (s : Signals)
    (sequenced : plan.Sequenced) (fits : Fits plan e) (logged : Logged e.lifecycle past) :
    Turning past [] (e.tick now s).1 := by
  have start : Turning past plan.order { e with journal := [] } :=
    ⟨logged, fun id => .ran [] (by simp [InTurn]) (by simp), fun _ _ => rfl⟩
  obtain ⟨last, h, -, same⟩ := tick_induction now s sequenced fits start
    fun _ _ _ _ _ _ _ split fits turning _ stepped =>
      stepped.turning sequenced fits (not_mem_after (split ▸ sequenced.nodup)) turning
  rw [same]
  exact ⟨h.logged, h.turns, h.waiting⟩

/-! ### The stop of all modules -/

theorem Left.fits (left : Left e id e' c) (fits : Fits plan e) : Fits plan e' := by
  have members := congrArg (List.map fun p : ModuleEntry × Routes => (p.1.id, p.2)) left.members
  simp only [List.map_map, Function.comp_def] at members
  refine ⟨⟨left.plan.trans fits.same, members.trans fits.members⟩, ?_⟩
  rw [left.lifecycle, Lifecycle.wiring_markStopped, fits.lifecycle]

theorem stopEach_skip [Behaviour M] {now : Moment} {s : Signals}
    (stopped : e.lifecycle.isRunning id = false) :
    stopEach now (id :: rest) e s = stopEach now rest e s := by
  rw [stopEach]
  split
  · rename_i next _
    rw [(Lifecycle.nextStep_stop next).1] at stopped
    cases stopped
  · rfl

/-- If nobody is wanted and all that runs is on the list, then everything is stopped. -/
theorem stopEach_logged [Behaviour M] {past : List Call} (now : Moment)
    (sequenced : plan.Sequenced) (s : Signals) (fits : Fits plan e)
    (logged : Logged e.lifecycle (e.journal ++ past)) (unwanted : ∀ x, e.lifecycle.wants x = false)
    (listed : ∀ x, e.lifecycle.isRunning x = true → x ∈ rest) :
    let e' := (stopEach now rest e s).1
    Logged e'.lifecycle (e'.journal ++ past) ∧ ∀ x, e'.lifecycle.isRunning x = false := by
  induction rest generalizing e s with
  | nil =>
    refine ⟨logged, fun x => Bool.eq_false_iff.mpr fun running => ?_⟩
    cases listed x running
  | cons id rest ih =>
    cases running : e.lifecycle.isRunning id with
    | true =>
      have next := Lifecycle.nextStep_of_unwanted running (unwanted id)
      obtain ⟨m, found⟩ := fits.exists_member sequenced (fits.mem_order running)
      simp only [stopEach, next, found]
      obtain ⟨c, left⟩ := stop_left now m e s
      rw [member?_id found] at left
      refine ih _ (left.fits fits) ?_ (fun x => ?_) fun x up => ?_
      · rw [left.lifecycle, left.journal]
        exact logged.exit running (view_running sequenced fits) left.made left.exit
      · rw [left.lifecycle, Bool.eq_false_iff]
        intro wanted
        rw [Lifecycle.wants_markStopped, unwanted x] at wanted
        cases wanted.1
      · rw [left.lifecycle] at up
        obtain ⟨up, other⟩ := Lifecycle.isRunning_markStopped.mp up
        exact (List.mem_cons.mp (listed x up)).resolve_left other
    | false =>
      rw [stopEach_skip running]
      refine ih s fits logged unwanted fun x up => ?_
      refine (List.mem_cons.mp (listed x up)).resolve_left ?_
      rintro rfl
      rw [running] at up
      cases up

theorem stopAll_logged [Behaviour M] {past : List Call} (now : Moment) (s : Signals)
    (sequenced : plan.Sequenced) (fits : Fits plan e) (logged : Logged e.lifecycle past) :
    let e' := (e.stopAll now s).1
    Proper (e'.journal ++ past) ∧ ∀ x, ¬ Up x (e'.journal ++ past) := by
  obtain rfl := fits.same
  let asked := { e with journal := [] }.mapLifecycle Lifecycle.requestStopAll
  have asked_fits : Fits e.plan asked :=
    ⟨⟨rfl, fits.members⟩, Lifecycle.wiring_requestStopAll.trans fits.lifecycle⟩
  have same (x : ModuleId) : asked.lifecycle.isRunning x = e.lifecycle.isRunning x :=
    Lifecycle.isRunning_requestStopAll
  have asked_logged : Logged asked.lifecycle (asked.journal ++ past) :=
    ⟨logged.proper, fun x => same x ▸ logged.running x⟩
  obtain ⟨last, stopped⟩ := stopEach_logged now sequenced s asked_fits asked_logged
    (fun _ => Lifecycle.wants_requestStopAll) fun _ => asked_fits.mem_order
  refine ⟨last.proper, fun x up => ?_⟩
  have running := (last.running x).mpr up
  rw [stopped x] at running
  cases running

end Engine
end EventFlow

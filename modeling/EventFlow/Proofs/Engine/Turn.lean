import EventFlow.Engine
import EventFlow.Proofs.Lifecycle

/-!
The turn of one module in a tick. `Framed` is what the parts of a turn leave alone, and
`step_stepped` says everything that a step can do: which callbacks it makes, in which view, and what
becomes of the lifecycle and of the slots.
-/

namespace EventFlow

def Call.caller (c : Call) : ModuleId := c.context.entry.id

/-- The emitted packets that are placed: all before the first one in another name, and none of a
callback that did not succeed. -/
def Call.placed (c : Call) : List Packet :=
  match c.outcome with
  | .ok => c.emitted.takeWhile fun p => p.source = c.caller
  | _ => []

/-- The callback did not fail, and all that it emitted could be placed. -/
def Call.Succeeds (c : Call) : Prop := c.outcome = .ok ∧ ∀ p ∈ c.emitted, p.source = c.caller

instance (c : Call) : Decidable c.Succeeds :=
  inferInstanceAs (Decidable (_ ∧ ∀ p ∈ c.emitted, p.source = c.caller))

theorem Outcome.failure?_eq_none {o : Outcome} : o.failure? = none ↔ o = .ok := by
  cases o <;> simp [Outcome.failure?]

namespace Engine

variable {M : Type} {e e' e'' : Engine M} {id : ModuleId} {m : Member M}

/-! ### Frames -/

structure Framed (e e' : Engine M) : Prop where
  plan : e'.plan = e.plan
  members : e'.members.map (fun m => (m.entry, m.routes)) =
    e.members.map fun m => (m.entry, m.routes)
  lifecycle : e'.lifecycle.unscheduled = e.lifecycle.unscheduled

theorem Framed.refl (e : Engine M) : Framed e e := ⟨rfl, rfl, rfl⟩

theorem Framed.trans (h : Framed e e') (k : Framed e' e'') : Framed e e'' :=
  ⟨k.plan.trans h.plan, k.members.trans h.members, k.lifecycle.trans h.lifecycle⟩

theorem members_modifyMember {f : Member M → Member M}
    (keep : ∀ m, (f m).entry = m.entry ∧ (f m).routes = m.routes) (e : Engine M) (id : ModuleId) :
    (e.modifyMember id f).members.map (fun m => (m.entry, m.routes)) =
      e.members.map fun m => (m.entry, m.routes) := by
  rw [modifyMember, List.map_map]
  refine List.map_congr_left fun m _ => ?_
  simp only [Function.comp_apply]
  split
  · rw [(keep m).1, (keep m).2]
  · rfl

theorem framed_modifyMember {f : Member M → Member M}
    (keep : ∀ m, (f m).entry = m.entry ∧ (f m).routes = m.routes) (e : Engine M) (id : ModuleId) :
    Framed e (e.modifyMember id f) :=
  ⟨rfl, members_modifyMember keep e id, rfl⟩

theorem framed_setModule (e : Engine M) (id : ModuleId) (module : M) :
    Framed e (e.setModule id module) :=
  framed_modifyMember (by intro m; exact ⟨rfl, rfl⟩) e id

theorem framed_mapLifecycle {f : Lifecycle → Lifecycle}
    (keep : (f e.lifecycle).unscheduled = e.lifecycle.unscheduled) : Framed e (e.mapLifecycle f) :=
  ⟨rfl, rfl, keep⟩

theorem framed_record (e : Engine M) (c : Call) : Framed e (e.record c) := ⟨rfl, rfl, rfl⟩

theorem framed_slots (e : Engine M) (slots : Slots) : Framed e { e with slots } := ⟨rfl, rfl, rfl⟩

theorem Framed.status? (h : Framed e e') (x : ModuleId) :
    e'.lifecycle.status? x = e.lifecycle.status? x := by
  rw [← Lifecycle.status?_unscheduled, h.lifecycle, Lifecycle.status?_unscheduled]

theorem Framed.view (h : Framed e e') : e'.view = e.view := by
  have modules := congrArg (List.map fun p : ModuleEntry × Routes =>
    (p.1, (e.lifecycle.status? p.1.id).getD .stopped)) h.members
  simp only [List.map_map, Function.comp_def] at modules
  simp only [Engine.view, h.plan, h.status?, modules]

theorem member?_map (e : Engine M) (id : ModuleId) :
    (e.member? id).map (fun m => (m.entry, m.routes)) =
      (e.members.map fun m => (m.entry, m.routes)).find? fun p => p.1.id == id := by
  rw [List.find?_map]
  rfl

theorem Framed.member? (h : Framed e e') (found : e.member? id = some m) :
    ∃ m', e'.member? id = some m' ∧ m'.entry = m.entry ∧ m'.routes = m.routes := by
  have same := member?_map e' id
  rw [h.members, ← member?_map, found, Option.map_some] at same
  obtain ⟨m', found', eq⟩ := Option.map_eq_some_iff.mp same
  exact ⟨m', found', (Prod.mk.inj eq).1, (Prod.mk.inj eq).2⟩

theorem member?_id (h : e.member? id = some m) : m.entry.id = id := by
  simpa using List.find?_some h

/-! ### Calls -/

structure Made (e : Engine M) (id : ModuleId) (c : Call) : Prop where
  caller : c.caller = id
  view : c.context.view = e.view
  failure : c.failure = none ↔ c.Succeeds

theorem Made.framed {c : Call} (h : Made e' id c) (framed : Framed e e') : Made e id c :=
  ⟨h.caller, h.view.trans framed.view, h.failure⟩

theorem Made.silent {c : Call} (caller : c.caller = id) (view : c.context.view = e.view)
    (emitted : c.emitted = []) (failure : c.failure = c.outcome.failure?) : Made e id c :=
  ⟨caller, view, by simp [failure, Outcome.failure?_eq_none, Call.Succeeds, emitted]⟩

def placeAll (routes : Routes) (packets : List Packet) (slots : Slots) : Slots :=
  packets.foldl (fun slots p => match routes.placement p.type with
    | .slot s => slots.set s (some p)
    | _ => slots) slots

theorem place_slots (id : ModuleId) (routes : Routes) (packets : List Packet) (slots : Slots) :
    (place id routes packets slots).1 =
      placeAll routes (packets.takeWhile fun p => p.source = id) slots := by
  induction packets generalizing slots with
  | nil => rfl
  | cons p packets ih =>
    rw [place]
    by_cases own : p.source = id
    · rw [if_neg (not_not_intro own), List.takeWhile_cons_of_pos (by simpa using own), placeAll,
        List.foldl_cons]
      split
      · rename_i s placement
        rw [ih]
        simp only [placement]
        rfl
      · rename_i placement
        rw [ih]
        simp only [placement]
        rfl
      · rename_i placement
        rw [ih]
        simp only [placement]
        rfl
    · rw [if_pos own, List.takeWhile_cons_of_neg (by simpa using own)]
      rfl

theorem place_failure (id : ModuleId) (routes : Routes) (packets : List Packet) (slots : Slots) :
    (place id routes packets slots).2 = none ↔ ∀ p ∈ packets, p.source = id := by
  induction packets generalizing slots with
  | nil => simp [place]
  | cons p packets ih =>
    rw [place, List.forall_mem_cons]
    by_cases own : p.source = id
    · rw [if_neg (not_not_intro own)]
      split <;> simp [ih, own]
    · simp [own]

def present (slots : Slots) (routes : Routes) : List (Slot × Input) :=
  routes.inputs.filterMap fun r =>
    (slots r.slot).map fun packet => (r.slot, { packet, writable := r.writable })

def putAll (packets : List (Slot × Packet)) (slots : Slots) : Slots :=
  packets.foldl (fun slots p => slots.set p.1 (some p.2)) slots

/-- What a run does to the slots: it is given the packets that are present, leaves the read-only
ones as they are, and has its own packets placed. -/
structure Ran (before : Slots) (routes : Routes) (c : Call) (after : Slots) : Prop where
  run : c.callback = .run
  given : c.given = (present before routes).map (·.2)
  left : ∃ raw, c.left = PacketIo.settle c.given raw
  slots : after = placeAll routes c.placed
    (putAll (((present before routes).map (·.1)).zip c.left) before)

def Calm (before : Slots) (calls : List Call) (after : Slots) : Prop :=
  after = before ∧ ∀ c ∈ calls, c.callback ≠ .run

def RunsOnce (before : Slots) (routes : Routes) (calls : List Call) (after : Slots) : Prop :=
  Calm before calls after ∨ ∃ c, Ran before routes c after ∧
    ∃ pre post, calls = pre ++ c :: post ∧ ∀ d ∈ pre ++ post, d.callback ≠ .run

variable {routes : Routes} {calls calls' : List Call} {s₁ s₂ s₃ : Slots}

theorem Calm.runs (h : Calm s₁ calls s₂) (k : RunsOnce s₂ routes calls' s₃) :
    RunsOnce s₁ routes (calls' ++ calls) s₃ := by
  obtain ⟨rfl, calm⟩ := h
  rcases k with ⟨same, others⟩ | ⟨c, ran, pre, post, split, others⟩
  · refine Or.inl ⟨same, fun c mem => ?_⟩
    exact (List.mem_append.mp mem).elim (others c) (calm c)
  · refine Or.inr ⟨c, ran, pre, post ++ calls, by simp [split], fun d mem => ?_⟩
    rw [← List.append_assoc] at mem
    exact (List.mem_append.mp mem).elim (others d) (calm d)

theorem RunsOnce.calm (h : RunsOnce s₁ routes calls s₂) (k : Calm s₂ calls' s₃) :
    RunsOnce s₁ routes (calls' ++ calls) s₃ := by
  obtain ⟨rfl, calm⟩ := k
  rcases h with ⟨same, others⟩ | ⟨c, ran, pre, post, split, others⟩
  · refine Or.inl ⟨same, fun c mem => ?_⟩
    exact (List.mem_append.mp mem).elim (calm c) (others c)
  · refine Or.inr ⟨c, ran, calls' ++ pre, post, by simp [split], fun d mem => ?_⟩
    rw [List.append_assoc] at mem
    exact (List.mem_append.mp mem).elim (calm d) (others d)

def ofRunning (c : Callback) : Prop := c = .config ∨ c = .run ∨ c = .reset

def InTurn (calls : List Call) : Prop := (calls.map (·.callback)).Sublist [.reset, .run, .config]

theorem InTurn.ofRunning (h : InTurn calls) : ∀ c ∈ calls, ofRunning c.callback := by
  intro c mem
  have known := h.subset (List.mem_map_of_mem mem)
  simp only [List.mem_cons, List.not_mem_nil, or_false] at known
  rcases known with reset | run | config
  · exact Or.inr (Or.inr reset)
  · exact Or.inr (Or.inl run)
  · exact Or.inl config

/-- What a part of the turn of a running module does, with the calls that it makes (the latest
first). -/
structure Part (e : Engine M) (id : ModuleId) (t : Turn M) (callbacks : List Callback)
    (calls : List Call) : Prop where
  framed : Framed e t.engine
  journal : t.engine.journal = calls ++ e.journal
  made : ∀ c ∈ calls, Made e id c
  order : (calls.map (·.callback)).Sublist callbacks
  failure : t.failure = none ↔ ∀ c ∈ calls, c.failure = none

variable {first last : List Callback}

theorem Part.nothing (e : Engine M) (id : ModuleId) (s : Signals) (callbacks : List Callback) :
    Part e id { engine := e, signals := s } callbacks [] :=
  ⟨Framed.refl e, rfl, by simp, by simp, by simp⟩

theorem Part.early {t : Turn M} (h : Part e id t first calls) (last : List Callback) :
    Part e id t (last ++ first) calls :=
  { h with order := h.order.trans (List.sublist_append_right last first) }

theorem Part.then {t t' : Turn M} (h : Part e id t first calls) (ok : t.failure = none)
    (k : Part t.engine id t' last calls') : Part e id t' (last ++ first) (calls' ++ calls) where
  framed := h.framed.trans k.framed
  journal := by rw [k.journal, h.journal, List.append_assoc]
  made c mem := by
    rcases List.mem_append.mp mem with new | old
    · exact (k.made c new).framed h.framed
    · exact h.made c old
  order := by
    rw [List.map_append]
    exact k.order.append h.order
  failure := by
    rw [k.failure]
    refine ⟨fun all c mem => ?_, fun all c mem => all c (List.mem_append_left _ mem)⟩
    exact (List.mem_append.mp mem).elim (all c) (h.failure.mp ok c)

theorem recorded_part (id : ModuleId) {c : Call} {slots : Slots} {failure : Option PipelineError}
    (module : M) (p : Prop) [Decidable p] (s : Signals) (ran : Ran e.slots routes c slots)
    (made : Made e id c) (same : failure = none ↔ c.failure = none) :
    let recorded := { e.setModule id module with slots }.record c
    let t : Turn M :=
      { engine := if p then recorded.mapLifecycle (·.scheduleDownstreamReset id) else recorded
        signals := s
        failure }
    Part e id t [.run] [c] ∧ RunsOnce e.slots routes [c] t.engine.slots := by
  intro recorded t
  have framed : Framed e recorded :=
    (framed_setModule e id module).trans ((framed_slots _ slots).trans (framed_record _ c))
  have engine : Framed e t.engine ∧ t.engine.journal = [c] ++ e.journal ∧
      t.engine.slots = slots := by
    simp only [t]
    split
    · have unscheduled := Lifecycle.unscheduled_scheduleDownstreamReset recorded.lifecycle id
      exact ⟨framed.trans (framed_mapLifecycle unscheduled), rfl, rfl⟩
    · exact ⟨framed, rfl, rfl⟩
  obtain ⟨framed, journal, slots'⟩ := engine
  refine ⟨⟨framed, journal, ?_, ?_, ?_⟩, Or.inr ⟨c, slots' ▸ ran, [], [], rfl, by simp⟩⟩
  · exact List.forall_mem_singleton.mpr made
  · simp [ran.run]
  · rw [List.forall_mem_singleton]
    exact same

/-! ### Parts -/

variable [Behaviour M]

theorem configTurn_part (now : Moment) (m : Member M) (e : Engine M) (s : Signals) :
    ∃ calls, Part e m.entry.id (configTurn now m e s) [.config] calls ∧
      Calm e.slots calls (configTurn now m e s).engine.slots := by
  unfold configTurn
  split
  · have quiet : Framed e (e.mapLifecycle (·.clearConfig m.entry.id)) :=
      framed_mapLifecycle (Lifecycle.unscheduled_clearConfig _ _)
    refine ⟨[_], ⟨?_, rfl, ?_, List.Sublist.refl _, ?_⟩, rfl, ?_⟩
    · exact quiet.trans ((framed_setModule _ _ _).trans (framed_record _ _))
    · exact List.forall_mem_singleton.mpr (.silent rfl quiet.view rfl rfl)
    · rw [List.forall_mem_singleton, Option.map_eq_none_iff]
    · exact List.forall_mem_singleton.mpr (by simp)
  · exact ⟨[], Part.nothing e _ s _, rfl, by simp⟩

theorem resetTurn_part (now : Moment) (m : Member M) (e : Engine M) (s : Signals) :
    ∃ calls, Part e m.entry.id (resetTurn now m e s) [.reset] calls ∧
      Calm e.slots calls (resetTurn now m e s).engine.slots := by
  unfold resetTurn
  split
  · exact ⟨[], Part.nothing e _ s _, rfl, by simp⟩
  · have quiet : Framed e (e.mapLifecycle (·.clearReset m.entry.id)) :=
      framed_mapLifecycle (Lifecycle.unscheduled_clearReset _ _)
    refine ⟨[_], ⟨?_, rfl, ?_, List.Sublist.refl _, ?_⟩, rfl, ?_⟩
    · exact quiet.trans ((framed_setModule _ _ _).trans (framed_record _ _))
    · exact List.forall_mem_singleton.mpr (.silent rfl quiet.view rfl rfl)
    · rw [List.forall_mem_singleton, Option.map_eq_none_iff]
    · exact List.forall_mem_singleton.mpr (by simp)

theorem runTurn_part (now : Moment) (m : Member M) (e : Engine M) (s : Signals) :
    ∃ calls, Part e m.entry.id (runTurn now m e s) [.run] calls ∧
      RunsOnce e.slots m.routes calls (runTurn now m e s).engine.slots := by
  unfold runTurn
  dsimp only
  split
  · exact ⟨[], Part.nothing e _ s _, Or.inl ⟨rfl, by simp⟩⟩
  · generalize Behaviour.run m.module _ _ s = r
    cases outcome : r.outcome with
    | ok =>
      simp only [Outcome.failure?]
      refine ⟨[_], recorded_part m.entry.id r.module _ _ ⟨rfl, rfl, ⟨_, rfl⟩, ?_⟩
        ⟨rfl, rfl, ?_⟩ ?_⟩
      · exact place_slots _ _ _ _
      · exact (place_failure _ _ _ _).trans (and_iff_right rfl).symm
      · exact Option.map_eq_none_iff
    | failed cause =>
      simp only [Outcome.failure?]
      refine ⟨[_], recorded_part m.entry.id r.module _ _ ⟨rfl, rfl, ⟨_, rfl⟩, ?_⟩
        ⟨rfl, rfl, by simp [Call.Succeeds]⟩ ?_⟩
      · rfl
      · exact Option.map_eq_none_iff
    | panicked text =>
      simp only [Outcome.failure?]
      refine ⟨[_], recorded_part m.entry.id r.module _ _ ⟨rfl, rfl, ⟨_, rfl⟩, ?_⟩
        ⟨rfl, rfl, by simp [Call.Succeeds]⟩ ?_⟩
      · rfl
      · exact Option.map_eq_none_iff

theorem untilRun_part (now : Moment) (e : Engine M) (s : Signals) (found : e.member? id = some m) :
    let t := (forMember id (configTurn now) e s).next (forMember id (runTurn now))
    ∃ calls, Part e id t [.run, .config] calls ∧
      RunsOnce e.slots m.routes calls t.engine.slots := by
  obtain rfl := member?_id found
  have config : ∃ calls,
      Part e m.entry.id (forMember m.entry.id (configTurn now) e s) [.config] calls ∧
      Calm e.slots calls (forMember m.entry.id (configTurn now) e s).engine.slots := by
    simp only [forMember, found]
    exact configTurn_part now m e s
  obtain ⟨first, config, calm⟩ := config
  generalize forMember m.entry.id (configTurn now) e s = t at config calm
  unfold Turn.next
  split
  · exact ⟨first, config.early [.run], Or.inl calm⟩
  · rename_i ok
    obtain ⟨m', found', entry, routes⟩ := config.framed.member? found
    simp only [forMember, found']
    obtain ⟨calls, part, runs⟩ := runTurn_part now m' t.engine t.signals
    rw [entry] at part
    rw [routes] at runs
    exact ⟨_, config.then (by simpa using ok) part, calm.runs runs⟩

theorem callbacks_part (now : Moment) (e : Engine M) (s : Signals) (found : e.member? id = some m) :
    ∃ calls, Part e id (callbacks now id e s) [.reset, .run, .config] calls ∧
      RunsOnce e.slots m.routes calls (callbacks now id e s).engine.slots := by
  obtain ⟨first, run, once⟩ := untilRun_part now e s found
  unfold callbacks
  generalize (forMember id (configTurn now) e s).next (forMember id (runTurn now)) = t at run once
  unfold Turn.next
  split
  · exact ⟨first, run.early [.reset], once⟩
  · rename_i ok
    obtain ⟨m', found', -⟩ := run.framed.member? found
    obtain rfl := member?_id found'
    simp only [forMember, found']
    obtain ⟨calls, part, calm⟩ := resetTurn_part now m' t.engine t.signals
    exact ⟨_, run.then (by simpa using ok) part, once.calm calm⟩

/-! ### Steps -/

/-- What a step makes of the lifecycle, with the calls that it makes (the latest first). -/
inductive Moved (l : Lifecycle) (id : ModuleId) : List Call → Lifecycle → Prop where
  | idle : l.nextStep id = .idle → Moved l id [] l.unscheduled
  | started (c : Call) : l.nextStep id = .start → c.callback = .init → c.failure = none →
    Moved l id [c] (l.markRunning id).unscheduled
  | unstarted (c : Call) : l.nextStep id = .start → c.callback = .init → c.failure ≠ none →
    Moved l id [c] l.unscheduled
  | stopped (c : Call) : l.nextStep id = .stop → c.callback = .exit →
    Moved l id [c] (l.markStopped id).unscheduled
  | ran (calls : List Call) : l.nextStep id = .run → InTurn calls →
    (∀ c ∈ calls, c.failure = none) → Moved l id calls l.unscheduled
  | failed (c : Call) (calls : List Call) : l.nextStep id = .run → InTurn calls →
    (∃ d ∈ calls, d.failure ≠ none) → c.callback = .exit →
    Moved l id (c :: calls) (l.markStopped id).unscheduled

def filled (inputs : List InputRoute) (slots : Slots) : Slots :=
  inputs.foldl (fun slots r => match r.copyFrom with
    | some s => slots.set r.slot (slots s)
    | none => slots) slots

/-- All that a step can do, with the calls that it makes (the latest first). -/
structure Stepped (e : Engine M) (id : ModuleId) (routes : Routes) (e' : Engine M)
    (calls : List Call) : Prop where
  plan : e'.plan = e.plan
  members : e'.members.map (fun m => (m.entry, m.routes)) =
    e.members.map fun m => (m.entry, m.routes)
  journal : e'.journal = calls ++ e.journal
  made : ∀ c ∈ calls, Made e id c
  runs : RunsOnce (filled routes.inputs e.slots) routes calls e'.slots
  lifecycle : Moved e.lifecycle id calls e'.lifecycle.unscheduled

structure Left (e : Engine M) (id : ModuleId) (e' : Engine M) (c : Call) : Prop where
  plan : e'.plan = e.plan
  members : e'.members.map (fun m => (m.entry, m.routes)) =
    e.members.map fun m => (m.entry, m.routes)
  journal : e'.journal = c :: e.journal
  exit : c.callback = .exit
  made : Made e id c
  slots : e'.slots = e.slots
  lifecycle : e'.lifecycle = e.lifecycle.markStopped id

theorem stop_left (now : Moment) (m : Member M) (e : Engine M) (s : Signals) :
    ∃ c, Left e m.entry.id (stop now m e s).1 c :=
  ⟨_, rfl, (framed_setModule _ _ _).members, rfl, rfl, .silent rfl rfl rfl rfl, rfl, rfl⟩

theorem start_stepped (now : Moment) (m : Member M) (e : Engine M) (s : Signals)
    (next : e.lifecycle.nextStep m.entry.id = .start) :
    ∃ calls, Stepped e m.entry.id m.routes (start now m (e.fillCopies m.routes) s).1 calls := by
  unfold start
  dsimp only
  split
  · rename_i ok
    refine ⟨[_], rfl, ?_, rfl, ?_, Or.inl ⟨rfl, ?_⟩, .started _ next rfl ok⟩
    · exact (members_modifyMember (by intro m; exact ⟨rfl, rfl⟩) _ _).trans
        (framed_setModule _ _ _).members
    · exact List.forall_mem_singleton.mpr (.silent rfl rfl rfl rfl)
    · exact List.forall_mem_singleton.mpr (by simp)
  · rename_i reason failed
    refine ⟨[_], rfl, ?_, rfl, ?_, Or.inl ⟨rfl, ?_⟩, .unstarted _ next rfl ?_⟩
    · exact (members_modifyMember (by intro m; exact ⟨rfl, rfl⟩) _ _).trans
        (framed_setModule _ _ _).members
    · exact List.forall_mem_singleton.mpr (.silent rfl rfl rfl rfl)
    · exact List.forall_mem_singleton.mpr (by simp)
    · simp [failed]

theorem run_stepped (now : Moment) (e : Engine M) (s : Signals) (found : e.member? id = some m)
    (next : e.lifecycle.nextStep id = .run) :
    ∃ calls, Stepped e id m.routes (run now id (e.fillCopies m.routes) s).1 calls := by
  have found' : (e.fillCopies m.routes).member? id = some m := found
  have quiet : Framed e (e.fillCopies m.routes) := framed_slots e _
  obtain ⟨calls, part, runs⟩ := callbacks_part now (e.fillCopies m.routes) s found'
  have made : ∀ c ∈ calls, Made e id c := fun c hc => (part.made c hc).framed quiet
  obtain ⟨m', again, -⟩ := part.framed.member? found'
  unfold run
  dsimp only
  generalize callbacks now id (e.fillCopies m.routes) s = t at part runs again
  cases failure : t.failure with
  | some error =>
    simp only [again]
    obtain ⟨c, left⟩ := stop_left now m' t.engine
      (t.signals.publish (.moduleError id error.message))
    rw [member?_id again] at left
    have failed : ∃ d ∈ calls, d.failure ≠ none := by
      by_contra none
      push Not at none
      rw [part.failure.mpr none] at failure
      cases failure
    have once : RunsOnce (filled m.routes.inputs e.slots) m.routes ([c] ++ calls)
        (stop now m' t.engine (t.signals.publish (.moduleError id error.message))).1.slots :=
      runs.calm ⟨left.slots, List.forall_mem_singleton.mpr (by rw [left.exit]; simp)⟩
    refine ⟨c :: calls, left.plan.trans part.framed.plan,
      left.members.trans part.framed.members, by rw [left.journal, part.journal]; rfl, ?_, once, ?_⟩
    · exact List.forall_mem_cons.mpr ⟨left.made.framed (quiet.trans part.framed), made⟩
    · rw [left.lifecycle, Lifecycle.unscheduled_markStopped, part.framed.lifecycle,
        ← Lifecycle.unscheduled_markStopped]
      exact .failed c calls next part.order failed left.exit
  | none =>
    refine ⟨calls, part.framed.plan, part.framed.members, part.journal, made, runs, ?_⟩
    rw [part.framed.lifecycle]
    exact .ran calls next part.order (part.failure.mp failure)

/-- Everything that a tick can do with one module. -/
theorem step_stepped (now : Moment) (e : Engine M) (s : Signals) (found : e.member? id = some m) :
    ∃ calls, Stepped e id m.routes (step now e s id).1 calls := by
  obtain rfl := member?_id found
  simp only [step, found]
  have same : (e.fillCopies m.routes).lifecycle = e.lifecycle := rfl
  rw [same]
  split
  · rename_i next
    exact ⟨[], rfl, rfl, rfl, by simp, Or.inl ⟨rfl, by simp⟩, .idle next⟩
  · rename_i next
    exact start_stepped now m e s next
  · rename_i next
    obtain ⟨c, left⟩ := stop_left now m (e.fillCopies m.routes) s
    refine ⟨[c], left.plan, left.members, left.journal, ?_, Or.inl ⟨left.slots, ?_⟩, ?_⟩
    · exact List.forall_mem_singleton.mpr (left.made.framed (framed_slots e _))
    · exact List.forall_mem_singleton.mpr (by rw [left.exit]; simp)
    · rw [left.lifecycle]
      exact .stopped c next left.exit
  · rename_i next
    exact run_stepped now e s found next

end Engine
end EventFlow

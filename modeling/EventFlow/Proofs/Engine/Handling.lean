import EventFlow.Proofs.Engine.Layout

/-!
What an engine does to one module. `Handled` are the states that a module can be brought into by
callbacks in the order that the lifecycle allows, whatever they are given and however they end; every
module of an engine is in one of them.
-/

namespace EventFlow

/-- The states of a module, and whether it runs: config, run and reset come only between an init that
succeeded and the next exit. -/
inductive Handled {M : Type} [Behaviour M] (new : M) : Bool → M → Prop where
  | new : Handled new false new
  | started {m : M} (h : Handled new false m) (c : Context) (s : Signals)
      (ok : (Behaviour.init m c s).outcome = .ok) : Handled new true (Behaviour.init m c s).module
  | refused {m : M} (h : Handled new false m) (c : Context) (s : Signals)
      (failed : (Behaviour.init m c s).outcome ≠ .ok) :
      Handled new false (Behaviour.init m c s).module
  | config {m : M} (h : Handled new true m) (c : Context) (s : Signals) :
      Handled new true (Behaviour.config m c s).module
  | run {m : M} (h : Handled new true m) (c : Context) (io : PacketIo) (s : Signals) :
      Handled new true (Behaviour.run m c io s).module
  | reset {m : M} (h : Handled new true m) (c : Context) (source : ModuleId) (s : Signals) :
      Handled new true (Behaviour.reset m c source s).module
  | exit {m : M} (h : Handled new true m) (c : Context) (s : Signals) :
      Handled new false (Behaviour.exit m c s).module

namespace Engine

variable {M : Type} {e e' : Engine M} {id : ModuleId} {x : M} {m : Member M}

def modules (e : Engine M) : List (ModuleId × M) := e.members.map fun m => (m.entry.id, m.module)

theorem modules_modifyMember {f : Member M → Member M}
    (keep : ∀ m, (f m).entry.id = m.entry.id ∧ (f m).module = m.module) (e : Engine M) (id : ModuleId) :
    (e.modifyMember id f).modules = e.modules := by
  unfold modules modifyMember
  rw [List.map_map]
  refine List.map_congr_left fun m _ => ?_
  simp only [Function.comp_apply]
  split
  · rw [(keep m).1, (keep m).2]
  · rfl

theorem mem_modules_setModule {p : ModuleId × M} (mem : p ∈ (e.setModule id x).modules) :
    p = (id, x) ∨ p.1 ≠ id ∧ p ∈ e.modules := by
  unfold modules setModule modifyMember at mem
  rw [List.map_map] at mem
  obtain ⟨m, there, rfl⟩ := List.mem_map.mp mem
  simp only [Function.comp_apply]
  split
  · rename_i here
    exact Or.inl (Prod.ext here rfl)
  · rename_i other
    exact Or.inr ⟨other, List.mem_map_of_mem there⟩

theorem mem_modules (found : e.member? id = some m) : (m.entry.id, m.module) ∈ e.modules :=
  List.mem_map_of_mem (List.mem_of_find?_eq_some found)

theorem Framed.isRunning (framed : Framed e e') (y : ModuleId) :
    e'.lifecycle.isRunning y = e.lifecycle.isRunning y :=
  congrArg (· == some Status.running) (framed.status? y)

variable [Behaviour M] {new : ModuleId → M}

def InHand (new : ModuleId → M) (e : Engine M) : Prop :=
  ∀ p ∈ e.modules, Handled (new p.1) (e.lifecycle.isRunning p.1) p.2

theorem InHand.replace (h : InHand new e) (modules : e'.modules = (e.setModule id x).modules)
    (own : Handled (new id) (e'.lifecycle.isRunning id) x)
    (others : ∀ y, y ≠ id → e'.lifecycle.isRunning y = e.lifecycle.isRunning y) : InHand new e' := by
  intro p mem
  rw [modules] at mem
  obtain rfl | ⟨other, mem⟩ := mem_modules_setModule mem
  · exact own
  · rw [others _ other]
    exact h p mem

theorem InHand.call (h : InHand new e) (modules : e'.modules = (e.setModule id x).modules)
    (own : Handled (new id) (e.lifecycle.isRunning id) x)
    (still : ∀ y, e'.lifecycle.isRunning y = e.lifecycle.isRunning y) : InHand new e' :=
  h.replace modules (still id ▸ own) fun y _ => still y

/-! ### Callbacks -/

theorem InHand.start (h : InHand new e) (found : e.member? m.entry.id = some m)
    (next : e.lifecycle.nextStep m.entry.id = .start) (now : Moment) (s : Signals) :
    InHand new (Engine.start now m e s).1 := by
  have stopped := (Lifecycle.nextStep_start next).1
  have known : e.lifecycle.has m.entry.id = true := Lifecycle.has_of_nextStep (by simp [next])
  have before := h _ (mem_modules found)
  rw [stopped] at before
  unfold Engine.start
  dsimp only
  split
  · rename_i fine
    have ok := Outcome.failure?_eq_none.mp fine
    refine h.replace (modules_modifyMember (by intro m; exact ⟨rfl, rfl⟩) _ m.entry.id) ?_ ?_
    · have running := Lifecycle.isRunning_markRunning_self known
      exact running ▸ before.started _ _ ok
    · exact fun y other => Lifecycle.isRunning_markRunning_of_ne other
  · rename_i reason fails
    have failed : (Behaviour.init m.module (e.context now m.entry) s).outcome ≠ .ok := by
      intro ok
      rw [Outcome.failure?_eq_none.mpr ok] at fails
      cases fails
    refine h.call (modules_modifyMember (by intro m; exact ⟨rfl, rfl⟩) _ m.entry.id) ?_ ?_
    · exact stopped ▸ before.refused _ _ failed
    · exact fun _ => rfl

theorem InHand.stop (h : InHand new e) (found : e.member? m.entry.id = some m)
    (running : e.lifecycle.isRunning m.entry.id = true) (now : Moment) (s : Signals) :
    InHand new (Engine.stop now m e s).1 := by
  have before := h _ (mem_modules found)
  rw [running] at before
  have stopped : (e.lifecycle.markStopped m.entry.id).isRunning m.entry.id = false :=
    Bool.eq_false_iff.mpr fun still => (Lifecycle.isRunning_markStopped.mp still).2 rfl
  have modules : (Engine.stop now m e s).1.modules = (e.setModule m.entry.id
      (Behaviour.exit m.module (e.context now m.entry) s).module).modules := rfl
  refine h.replace modules ?_ ?_
  · exact stopped ▸ before.exit _ _
  · exact fun y other => Lifecycle.isRunning_markStopped_of_ne other

theorem InHand.configTurn (h : InHand new e) (found : e.member? m.entry.id = some m)
    (running : e.lifecycle.isRunning m.entry.id = true) (now : Moment) (s : Signals) :
    InHand new (Engine.configTurn now m e s).engine := by
  have before := h _ (mem_modules found)
  rw [running] at before
  obtain ⟨_, part, _⟩ := configTurn_part now m e s
  have still := part.framed.isRunning
  by_cases pending : e.lifecycle.configPending m.entry.id = true
  · have modules : (Engine.configTurn now m e s).engine.modules = (e.setModule m.entry.id
        (Behaviour.config m.module
          ((e.mapLifecycle (·.clearConfig m.entry.id)).context now m.entry) s).module).modules := by
      unfold Engine.configTurn
      rw [if_pos pending]
      rfl
    exact h.call modules (running ▸ before.config _ _) still
  · unfold Engine.configTurn
    rw [if_neg pending]
    exact h

theorem InHand.resetTurn (h : InHand new e) (found : e.member? m.entry.id = some m)
    (running : e.lifecycle.isRunning m.entry.id = true) (now : Moment) (s : Signals) :
    InHand new (Engine.resetTurn now m e s).engine := by
  have before := h _ (mem_modules found)
  rw [running] at before
  obtain ⟨_, part, _⟩ := resetTurn_part now m e s
  have still := part.framed.isRunning
  cases asked : e.lifecycle.reset? m.entry.id with
  | none =>
    unfold Engine.resetTurn
    rw [asked]
    exact h
  | some source =>
    have modules : (Engine.resetTurn now m e s).engine.modules = (e.setModule m.entry.id
        (Behaviour.reset m.module
          ((e.mapLifecycle (·.clearReset m.entry.id)).context now m.entry) source s).module).modules := by
      unfold Engine.resetTurn
      rw [asked]
      rfl
    exact h.call modules (running ▸ before.reset _ source _) still

theorem InHand.runTurn (h : InHand new e) (found : e.member? m.entry.id = some m)
    (running : e.lifecycle.isRunning m.entry.id = true) (now : Moment) (s : Signals) :
    InHand new (Engine.runTurn now m e s).engine := by
  have before := h _ (mem_modules found)
  rw [running] at before
  obtain ⟨_, part, _⟩ := runTurn_part now m e s
  have still := part.framed.isRunning
  by_cases idle : m.entry.kind ≠ .source ∧ (e.inputs m.routes).isEmpty = true
  · unfold Engine.runTurn
    dsimp only
    rw [if_pos idle]
    exact h
  · have modules : (Engine.runTurn now m e s).engine.modules = (e.setModule m.entry.id
        (Behaviour.run m.module (e.context now m.entry)
          { inputs := (e.inputs m.routes).map (·.2) } s).module).modules := by
      unfold Engine.runTurn
      dsimp only
      rw [if_neg idle]
      exact (apply_ite modules _ _ _).trans (ite_self _)
    exact h.call modules (running ▸ before.run _ _ _) still

/-! ### Turns -/

structure Serving (new : ModuleId → M) (id : ModuleId) (e : Engine M) : Prop where
  inHand : InHand new e
  running : e.lifecycle.isRunning id = true

variable {now : Moment} {s : Signals} {f : Member M → Engine M → Signals → Turn M}

theorem Serving.forMember (h : Serving new id e)
    (keep : ∀ m, e.member? m.entry.id = some m → m.entry.id = id →
      InHand new (f m e s).engine ∧ Framed e (f m e s).engine) :
    Serving new id (Engine.forMember id f e s).engine := by
  unfold Engine.forMember
  split
  · rename_i m found
    have own := member?_id found
    obtain ⟨inHand, framed⟩ := keep m (own.symm ▸ found) own
    exact ⟨inHand, (framed.isRunning id).trans h.running⟩
  · exact h

theorem Serving.next {t : Turn M} {g : Engine M → Signals → Turn M} (h : Serving new id t.engine)
    (keep : ∀ e s, Serving new id e → Serving new id (g e s).engine) :
    Serving new id (t.next g).engine := by
  unfold Turn.next
  split
  · exact h
  · exact keep _ _ h

theorem Serving.callbacks (h : Serving new id e) (now : Moment) (s : Signals) :
    Serving new id (Engine.callbacks now id e s).engine := by
  unfold Engine.callbacks
  -- Config, run and reset, each of which leaves the module running for the next.
  apply Serving.next
  · apply Serving.next
    · refine h.forMember fun m found own => ?_
      obtain ⟨_, part, _⟩ := configTurn_part now m e s
      exact ⟨h.inHand.configTurn found (own ▸ h.running) now s, part.framed⟩
    · intro e s h
      refine h.forMember fun m found own => ?_
      obtain ⟨_, part, _⟩ := runTurn_part now m e s
      exact ⟨h.inHand.runTurn found (own ▸ h.running) now s, part.framed⟩
  · intro e s h
    refine h.forMember fun m found own => ?_
    obtain ⟨_, part, _⟩ := resetTurn_part now m e s
    exact ⟨h.inHand.resetTurn found (own ▸ h.running) now s, part.framed⟩

theorem Serving.run (h : Serving new id e) (now : Moment) (s : Signals) :
    InHand new (Engine.run now id e s).1 := by
  have served := h.callbacks now s
  unfold Engine.run
  dsimp only
  split
  · rename_i error m _ found
    have own := member?_id found
    exact served.inHand.stop (own.symm ▸ found) (own ▸ served.running) now _
  · exact served.inHand

theorem InHand.step (h : InHand new e) (now : Moment) (s : Signals) (id : ModuleId) :
    InHand new (Engine.step now e s id).1 := by
  unfold Engine.step
  split
  · exact h
  · rename_i m found
    obtain rfl := member?_id found
    have filled : InHand new (e.fillCopies m.routes) := h
    dsimp only
    split
    · exact filled
    · rename_i next
      exact filled.start found next now s
    · rename_i next
      exact filled.stop found (Lifecycle.nextStep_stop next).1 now s
    · rename_i next
      exact Serving.run ⟨filled, (Lifecycle.nextStep_run next).1⟩ now s

theorem InHand.steps (h : InHand new e) (now : Moment) (ids : List ModuleId) (s : Signals) :
    InHand new (Engine.steps now ids e s).1 := by
  induction ids generalizing e s with
  | nil => exact h
  | cons id ids ih =>
    rw [Engine.steps]
    exact ih (h.step now s id) _

/-! ### Events -/

theorem InHand.react (h : InHand new e) (event : Event) : InHand new (e.react event) := by
  have still (command : ∀ now s, event ≠ .tick now s) (modules : (e.react event).modules = e.modules) :
      InHand new (e.react event) := by
    intro p mem
    rw [react_isRunning command e p.1]
    exact h p (modules ▸ mem)
  cases event with
  | tick now s =>
    have fresh : InHand new { e with journal := [] } := h
    exact fresh.steps now e.plan.order s
  | setParam id key value =>
    exact still (by simp) (modules_modifyMember (by intro m; exact ⟨rfl, rfl⟩) e id)
  | start id => exact still (by simp) rfl
  | stop id => exact still (by simp) rfl
  | reset id source => exact still (by simp) rfl

theorem InHand.stopEach (h : InHand new e) (now : Moment) (ids : List ModuleId) (s : Signals) :
    InHand new (Engine.stopEach now ids e s).1 := by
  induction ids generalizing e s with
  | nil => exact h
  | cons id ids ih =>
    rw [Engine.stopEach]
    split
    · rename_i m next found
      obtain rfl := member?_id found
      exact ih (h.stop found (Lifecycle.nextStep_stop next).1 now s) _
    · exact ih h _

theorem InHand.stopAll (h : InHand new e) (now : Moment) (s : Signals) :
    InHand new (Engine.stopAll now e s).1 := by
  have unwanted : InHand new ({ e with journal := [] }.mapLifecycle Lifecycle.requestStopAll) := by
    intro p mem
    have same : e.lifecycle.requestStopAll.isRunning p.1 = e.lifecycle.isRunning p.1 :=
      Lifecycle.isRunning_requestStopAll
    exact same ▸ h p mem
  exact unwanted.stopEach now _ s

theorem InHand.after (h : InHand new e) (events : List Event) : InHand new (e.after events) := by
  induction events generalizing e with
  | nil => exact h
  | cons event events ih => exact ih (h.react event)

theorem Initial.inHand {plan : Plan} {startup : ModuleId → Bool} (initial : Initial plan startup e)
    (new : ModuleId → M) (fresh : ∀ p ∈ e.modules, p.2 = new p.1) : InHand new e := by
  intro p mem
  have stopped : e.lifecycle.isRunning p.1 = false := by
    rw [initial.lifecycle, Lifecycle.isRunning, Lifecycle.status?, Lifecycle.cell?_ofPlan]
    split
    · rfl
    · rfl
  rw [stopped, fresh p mem]
  exact .new

end Engine
end EventFlow

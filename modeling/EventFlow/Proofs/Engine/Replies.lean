import EventFlow.Proofs.Engine.Turn

/-!
What the runs of a tick come to. All that is known of a run is what its module has answered; of the
inputs only the changes to writable ones are taken over.
-/

namespace EventFlow

/-- A run has left, emitted and come to what a module answers to the inputs that it was given. -/
def Call.Replied (M : Type) [Behaviour M] (c : Call) : Prop :=
  c.callback = .run → ∃ (m : M) (s : Signals),
    let r := Behaviour.run m c.context { inputs := c.given } s
    c.left = PacketIo.settle c.given r.io.inputs ∧ c.emitted = r.io.outputs ∧ c.outcome = r.outcome

namespace Engine

variable {M : Type} [Behaviour M] {e : Engine M} {m : Member M} {t : Turn M}
  {f : Member M → Engine M → Signals → Turn M} {g : Engine M → Signals → Turn M}

def Replied (e : Engine M) : Prop := ∀ c ∈ e.journal, c.Replied M

theorem Replied.start (h : e.Replied) (now : Moment) (m : Member M) (s : Signals) :
    (start now m e s).1.Replied := by
  unfold Engine.start
  dsimp only
  split
  · exact List.forall_mem_cons.mpr ⟨nofun, h⟩
  · exact List.forall_mem_cons.mpr ⟨nofun, h⟩

theorem Replied.stop (h : e.Replied) (now : Moment) (m : Member M) (s : Signals) :
    (stop now m e s).1.Replied :=
  List.forall_mem_cons.mpr ⟨nofun, h⟩

theorem Replied.configTurn (h : e.Replied) (now : Moment) (m : Member M) (s : Signals) :
    (configTurn now m e s).engine.Replied := by
  unfold Engine.configTurn
  split
  · exact List.forall_mem_cons.mpr ⟨nofun, h⟩
  · exact h

theorem Replied.resetTurn (h : e.Replied) (now : Moment) (m : Member M) (s : Signals) :
    (resetTurn now m e s).engine.Replied := by
  unfold Engine.resetTurn
  split
  · exact h
  · exact List.forall_mem_cons.mpr ⟨nofun, h⟩

theorem Replied.mapLifecycle (h : e.Replied) (p : Prop) [Decidable p] (f : Lifecycle → Lifecycle) :
    (if p then e.mapLifecycle f else e).Replied := by
  split
  · exact h
  · exact h

theorem Replied.runTurn (h : e.Replied) (now : Moment) (m : Member M) (s : Signals) :
    (runTurn now m e s).engine.Replied := by
  unfold Engine.runTurn
  dsimp only
  split
  · exact h
  · apply Replied.mapLifecycle
    refine List.forall_mem_cons.mpr ⟨?_, h⟩
    exact fun _ => ⟨m.module, s, rfl, rfl, rfl⟩

theorem Replied.next (h : t.engine.Replied) (keep : ∀ e s, e.Replied → (g e s).engine.Replied) :
    (t.next g).engine.Replied := by
  unfold Turn.next
  split
  · exact h
  · exact keep _ _ h

theorem Replied.forMember (h : e.Replied) (id : ModuleId) (s : Signals)
    (keep : ∀ m, (f m e s).engine.Replied) : (forMember id f e s).engine.Replied := by
  unfold Engine.forMember
  split
  · exact keep _
  · exact h

theorem Replied.callbacks (h : e.Replied) (now : Moment) (id : ModuleId) (s : Signals) :
    (callbacks now id e s).engine.Replied := by
  unfold Engine.callbacks
  refine Replied.next (Replied.next ?_ fun e s h => ?_) fun e s h => ?_
  · exact h.forMember id s fun m => h.configTurn now m s
  · exact h.forMember id s fun m => h.runTurn now m s
  · exact h.forMember id s fun m => h.resetTurn now m s

theorem Replied.run (h : e.Replied) (now : Moment) (id : ModuleId) (s : Signals) :
    (run now id e s).1.Replied := by
  have called := h.callbacks now id s
  unfold Engine.run
  dsimp only
  split
  · exact called.stop now _ _
  · exact called

theorem Replied.step (h : e.Replied) (now : Moment) (s : Signals) (id : ModuleId) :
    (step now e s id).1.Replied := by
  unfold Engine.step
  split
  · exact h
  · rename_i m _
    have filled : (e.fillCopies m.routes).Replied := h
    dsimp only
    split
    · exact filled
    · exact filled.start now m s
    · exact filled.stop now m s
    · exact filled.run now id s

theorem Replied.steps (h : e.Replied) (now : Moment) (ids : List ModuleId) (s : Signals) :
    (steps now ids e s).1.Replied := by
  induction ids generalizing e s with
  | nil => exact h
  | cons id ids ih => exact ih (h.step now s id) _

theorem tick_replied (now : Moment) (e : Engine M) (s : Signals) : (e.tick now s).1.Replied := by
  have fresh : Replied { e with journal := [] } := by simp [Replied]
  exact fresh.steps now e.plan.order s

end Engine
end EventFlow

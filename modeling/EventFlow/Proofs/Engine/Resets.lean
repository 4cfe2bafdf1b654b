import EventFlow.Module.StandIn
import EventFlow.Proofs.Engine.Settling
import EventFlow.Proofs.Engine.Typestate

/-!
Which resets come to a module, and when. All who ask a module to reset share one field of its cell,
which the last one wins; a reset is made in the turn of the module, after its run.
-/

namespace EventFlow
namespace Engine

variable {M : Type} {plan : Plan} {e e' : Engine M} {id x : ModuleId} {m : Member M}
  {calls : List Call}

/-! ### Who asks -/

section
variable [Behaviour M]

def runAsks (now : Moment) (m : Member M) (e : Engine M) (s : Signals) : Bool :=
  let given := e.inputs m.routes
  let io : PacketIo := { inputs := given.map (·.2) }
  (m.entry.kind = .source || !given.isEmpty) &&
    (Behaviour.run m.module (e.context now m.entry) io s).resetConsumers &&
    (runTurn now m e s).failure.isNone

def turnAsks (now : Moment) (id : ModuleId) (e : Engine M) (s : Signals) : Bool :=
  let t := forMember id (configTurn now) e s
  t.failure.isNone && (t.engine.member? id).any fun m => runAsks now m t.engine t.signals

/-- In its turn the module has a run that succeeds, with all its packets placed, and that asks for a
reset of its consumers. -/
def asks (now : Moment) (id : ModuleId) (e : Engine M) (s : Signals) : Bool :=
  (e.member? id).any fun m =>
    e.lifecycle.nextStep id == .run && turnAsks now id (e.fillCopies m.routes) s

theorem runTurn_lifecycle (now : Moment) (m : Member M) (e : Engine M) (s : Signals) :
    (runTurn now m e s).engine.lifecycle =
      if runAsks now m e s = true then e.lifecycle.scheduleDownstreamReset m.entry.id
      else e.lifecycle := by
  unfold runAsks runTurn
  dsimp only
  split
  · rename_i idle
    simp [idle.1, idle.2]
  · rename_i called
    have called : (decide (m.entry.kind = .source) || !(e.inputs m.routes).isEmpty) = true := by
      simpa [or_iff_not_imp_left] using called
    rw [called]
    generalize Behaviour.run m.module _ _ s = r
    simp only [Bool.true_and, Option.isNone_map, Bool.and_eq_true]
    cases r.outcome.failure? <;>
      · dsimp only
        split <;> rfl

theorem configTurn_reset? (now : Moment) (m : Member M) (e : Engine M) (s : Signals)
    (x : ModuleId) :
    (configTurn now m e s).engine.lifecycle.reset? x = e.lifecycle.reset? x := by
  unfold configTurn
  split
  · exact Lifecycle.reset?_modify (by intro c; exact ⟨rfl, rfl⟩) _ _ x
  · rfl

theorem untilRun_reset? (now : Moment) (e : Engine M) (s : Signals)
    (found : e.member? id = some m) (x : ModuleId) :
    ((forMember id (configTurn now) e s).next
        (forMember id (runTurn now))).engine.lifecycle.reset? x =
      if turnAsks now id e s = true ∧ x ∈ e.lifecycle.consumers id ∧ e.lifecycle.isRunning x = true
      then some id else e.lifecycle.reset? x := by
  obtain rfl := member?_id found
  obtain ⟨calls, config, -⟩ := configTurn_part now m e s
  have same := configTurn_reset? now m e s x
  simp only [turnAsks, forMember, found]
  generalize configTurn now m e s = t at config same
  unfold Turn.next
  split
  · rename_i failed
    have notAsked : t.failure.isNone = false := by simpa using failed
    simpa [notAsked] using same
  · rename_i ok
    obtain ⟨m', found', entry, -⟩ := config.framed.member? found
    have fine : t.failure.isNone = true := by simpa using ok
    simp only [forMember, found', Option.any_some, fine, Bool.true_and, runTurn_lifecycle, entry]
    by_cases wish : runAsks now m' t.engine t.signals = true
    · rw [if_pos wish, Lifecycle.reset?_scheduleDownstreamReset, same,
        ← Lifecycle.consumers_unscheduled, ← Lifecycle.isRunning_unscheduled,
        config.framed.lifecycle, Lifecycle.consumers_unscheduled, Lifecycle.isRunning_unscheduled]
      simp [wish]
    · simpa [wish] using same

end

/-! ### What a turn makes of a reset that is due -/

/-- One reset, for `source`, with config and run before it and an exit after it, if there are any
(the latest call first). -/
def ResetOnce (source : ModuleId) (calls : List Call) : Prop :=
  ∃ after c before, calls = after ++ c :: before ∧ c.callback = .reset ∧ c.source = some source ∧
    (∀ d ∈ before, d.callback = .config ∨ d.callback = .run) ∧ ∀ d ∈ after, d.callback = .exit

/-- What the turn of a module, in which it may be due to run, makes of the reset that was due to
it. -/
structure Answered (due : Option ModuleId) (runs : Prop) (calls : List Call)
    (left : Option ModuleId) : Prop where
  source : ∀ c ∈ calls, c.callback = .reset →
    runs ∧ (∃ q, due = some q ∧ c.source = some q) ∧ ∀ d ∈ calls, ¬ d.Starts
  once : runs → (∀ c ∈ calls, c.callback = .config ∨ c.callback = .run → c.failure = none) →
    ∀ q, due = some q → ResetOnce q calls
  left : ∀ q, left = some q → due = some q ∧ ∀ c ∈ calls, ¬ c.Starts

theorem Answered.kept {due : Option ModuleId} {runs : Prop}
    (calm : ∀ c ∈ calls, c.callback ≠ .reset ∧ ¬ c.Starts)
    (early : runs → due = none ∨
      ∃ c ∈ calls, (c.callback = .config ∨ c.callback = .run) ∧ c.failure ≠ none) :
    Answered due runs calls due where
  source c mem reset := absurd reset (calm c mem).1
  once comes fine q owed := by
    rcases early comes with none | ⟨c, mem, kind, failed⟩
    · rw [none] at owed
      cases owed
    · exact absurd (fine c mem kind) failed
  left q owed := ⟨owed, fun c mem => (calm c mem).2⟩

theorem Answered.superseded {due left : Option ModuleId} {runs : Prop}
    (calm : ∀ c ∈ calls, c.callback ≠ .reset) (rests : ¬ runs) (none : left = none) :
    Answered due runs calls left where
  source c mem reset := absurd reset (calm c mem)
  once comes := absurd comes rests
  left q owed := by
    rw [none] at owed
    cases owed

structure Resetting (l : Lifecycle) (id : ModuleId) (asked : Bool) (calls : List Call)
    (l' : Lifecycle) : Prop where
  others : ∀ x, x ≠ id → l'.reset? x =
    if asked = true ∧ x ∈ l.consumers id ∧ l.isRunning x = true then some id else l.reset? x
  own : Answered (l.reset? id) (l.nextStep id = .run) calls (l'.reset? id)

theorem Resetting.silent {l l' : Lifecycle} (same : ∀ x, x ≠ id → l'.reset? x = l.reset? x)
    (own : Answered (l.reset? id) (l.nextStep id = .run) calls (l'.reset? id)) :
    Resetting l id false calls l' := by
  refine ⟨fun x other => ?_, own⟩
  rw [same x other, if_neg (by simp)]

theorem ResetOnce.kinds {source : ModuleId} (h : ResetOnce source calls) {c : Call}
    (mem : c ∈ calls) : (c.callback = .reset ∧ c.source = some source) ∨
      c.callback = .config ∨ c.callback = .run ∨ c.callback = .exit := by
  obtain ⟨after, r, before, rfl, reset, sent, first, last⟩ := h
  rcases List.mem_append.mp mem with mem | mem
  · exact Or.inr (Or.inr (Or.inr (last c mem)))
  · rcases List.mem_cons.mp mem with rfl | mem
    · exact Or.inl ⟨reset, sent⟩
    · exact Or.inr ((first c mem).imp_right Or.inl)

theorem Answered.made {source : ModuleId} {runs : Prop} (comes : runs)
    (once : ResetOnce source calls) : Answered (some source) runs calls none where
  source c mem reset := by
    refine ⟨comes, ⟨source, rfl, ?_⟩, fun d called starts => ?_⟩
    · have kind := once.kinds mem
      rw [reset] at kind
      simpa using kind
    · have kind := once.kinds called
      rw [starts.1] at kind
      simp at kind
  once _ _ q owed := by
    cases owed
    exact once
  left q owed := by cases owed

theorem Answered.exit {due left : Option ModuleId} {runs : Prop} {c : Call}
    (h : Answered due runs calls left) (exit : c.callback = .exit) :
    Answered due runs (c :: calls) left := by
  have calm : ¬ c.Starts := by simp [Call.Starts, exit]
  refine ⟨fun d mem reset => ?_, fun comes fine q owed => ?_, fun q owed => ?_⟩
  · have called : d ∈ calls := by
      refine (List.mem_cons.mp mem).resolve_left ?_
      rintro rfl
      rw [exit] at reset
      cases reset
    obtain ⟨comes, source, quiet⟩ := h.source d called reset
    exact ⟨comes, source, List.forall_mem_cons.mpr ⟨calm, quiet⟩⟩
  · obtain ⟨after, r, before, rfl, reset, source, first, last⟩ :=
      h.once comes (List.forall_mem_cons.mp fine).2 q owed
    exact ⟨c :: after, r, before, rfl, reset, source, first,
      List.forall_mem_cons.mpr ⟨exit, last⟩⟩
  · obtain ⟨same, quiet⟩ := h.left q owed
    exact ⟨same, List.forall_mem_cons.mpr ⟨calm, quiet⟩⟩

theorem Resetting.exit {l l' l'' : Lifecycle} {asked : Bool} {c : Call}
    (h : Resetting l id asked calls l') (exit : c.callback = .exit)
    (same : ∀ x, l''.reset? x = l'.reset? x) : Resetting l id asked (c :: calls) l'' := by
  refine ⟨fun x other => (same x).trans (h.others x other), ?_⟩
  rw [same]
  exact h.own.exit exit

/-! ### Who asks last -/

def LastAsking (asking : ModuleId → Prop) (ids : List ModuleId) (q : ModuleId) : Prop :=
  ∃ pre post, ids = pre ++ q :: post ∧ asking q ∧ ∀ p ∈ post, ¬ asking p

theorem LastAsking.append {asking : ModuleId → Prop} {ids more : List ModuleId} {q : ModuleId}
    (h : LastAsking asking ids q) (silent : ∀ p ∈ more, ¬ asking p) :
    LastAsking asking (ids ++ more) q := by
  obtain ⟨pre, post, rfl, asks, rest⟩ := h
  exact ⟨pre, post ++ more, by simp, asks, List.forall_mem_append.mpr ⟨rest, silent⟩⟩

theorem lastAsking_append {asking : ModuleId → Prop} {ids : List ModuleId} {q : ModuleId} :
    LastAsking asking (ids ++ [id]) q ↔
      (asking id ∧ q = id) ∨ (¬ asking id ∧ LastAsking asking ids q) := by
  constructor
  · rintro ⟨pre, post, split, asks, silent⟩
    rcases List.eq_nil_or_concat' post with rfl | ⟨post, last, rfl⟩
    · obtain ⟨-, same⟩ := List.append_inj' split rfl
      obtain rfl := List.singleton_inj.mp same
      exact Or.inl ⟨asks, rfl⟩
    · rw [← List.cons_append, ← List.append_assoc] at split
      obtain ⟨rfl, same⟩ := List.append_inj' split rfl
      obtain rfl := List.singleton_inj.mp same
      refine Or.inr ⟨silent id List.mem_append_cons_self, pre, post, rfl, asks, fun p mem => ?_⟩
      exact silent p (List.mem_append_left _ mem)
  · rintro (⟨asks, rfl⟩ | ⟨silent, last⟩)
    · exact ⟨ids, [], rfl, asks, by simp⟩
    · exact last.append (List.forall_mem_singleton.mpr silent)

theorem exists_lastAsking {asking : ModuleId → Prop} {ids : List ModuleId} {p : ModuleId}
    (mem : p ∈ ids) (asks : asking p) : ∃ q, LastAsking asking ids q := by
  induction ids using List.reverseRecOn with
  | nil => cases mem
  | append_singleton ids id ih =>
    by_cases last : asking id
    · exact ⟨id, lastAsking_append.mpr (Or.inl ⟨last, rfl⟩)⟩
    · rcases List.mem_append.mp mem with mem | mem
      · obtain ⟨q, h⟩ := ih mem
        exact ⟨q, lastAsking_append.mpr (Or.inr ⟨last, h⟩)⟩
      · rw [List.mem_singleton.mp mem] at asks
        exact absurd asks last

/-! ### Steps -/

section
variable [Behaviour M]

theorem resetTurn_cases (now : Moment) (m : Member M) (e : Engine M) (s : Signals) :
    (e.lifecycle.reset? m.entry.id = none ∧ (resetTurn now m e s).engine = e) ∨
    ∃ q c, e.lifecycle.reset? m.entry.id = some q ∧ c.callback = .reset ∧ c.source = some q ∧
      (resetTurn now m e s).engine.journal = c :: e.journal ∧
      (resetTurn now m e s).engine.lifecycle = e.lifecycle.clearReset m.entry.id := by
  unfold resetTurn
  split
  · rename_i none
    exact Or.inl ⟨none, rfl⟩
  · rename_i q owed
    exact Or.inr ⟨q, _, owed, rfl, rfl, rfl, rfl⟩

theorem callbacks_resetting (now : Moment) (e : Engine M) (s : Signals)
    (found : e.member? id = some m) (apart : id ∉ e.lifecycle.consumers id)
    (next : e.lifecycle.nextStep id = .run) :
    ∃ calls, (callbacks now id e s).engine.journal = calls ++ e.journal ∧
      Resetting e.lifecycle id (turnAsks now id e s) calls
        (callbacks now id e s).engine.lifecycle := by
  obtain ⟨first, part, -⟩ := untilRun_part now e s found
  have due := untilRun_reset? now e s found
  have early : ∀ c ∈ first, c.callback = .config ∨ c.callback = .run := by
    intro c mem
    have known := part.order.subset (List.mem_map_of_mem mem)
    simpa [or_comm] using known
  have calm : ∀ c ∈ first, c.callback ≠ .reset ∧ ¬ c.Starts := by
    intro c mem
    rcases early c mem with kind | kind <;> simp [kind, Call.Starts]
  have own := due id
  rw [if_neg fun wish => apart wish.2.1] at own
  unfold callbacks
  generalize (forMember id (configTurn now) e s).next (forMember id (runTurn now)) = t
    at part due own
  unfold Turn.next
  split
  · rename_i failed
    refine ⟨first, part.journal, fun x _ => due x, ?_⟩
    rw [own]
    refine .kept calm fun _ => Or.inr ?_
    by_contra fine
    push Not at fine
    rw [part.failure.mpr fun c mem => fine c mem (early c mem)] at failed
    cases failed
  · obtain ⟨m', found', -⟩ := part.framed.member? found
    obtain rfl := member?_id found'
    simp only [forMember, found']
    rcases resetTurn_cases now m' t.engine t.signals with
      ⟨none, idle⟩ | ⟨q, c, owed, reset, source, called, cleared⟩
    · rw [idle]
      refine ⟨first, part.journal, fun x _ => due x, ?_⟩
      rw [own]
      exact .kept calm fun _ => Or.inl (own.symm.trans none)
    · refine ⟨c :: first, by rw [called, part.journal]; rfl, fun x other => ?_, ?_⟩
      · rw [cleared, Lifecycle.clearReset,
          Lifecycle.reset?_modify_other (by intro c; rfl) _ other]
        exact due x
      · rw [cleared, Lifecycle.reset?_clearReset, ← own, owed]
        exact .made next ⟨[], c, first, rfl, reset, source, early, by simp⟩

theorem run_resetting (now : Moment) (e : Engine M) (s : Signals) (found : e.member? id = some m)
    (apart : id ∉ e.lifecycle.consumers id) (next : e.lifecycle.nextStep id = .run) :
    ∃ calls, (run now id e s).1.journal = calls ++ e.journal ∧
      Resetting e.lifecycle id (turnAsks now id e s) calls (run now id e s).1.lifecycle := by
  obtain ⟨calls, journal, resetting⟩ := callbacks_resetting now e s found apart next
  unfold run
  dsimp only
  generalize callbacks now id e s = t at journal resetting
  split
  · rename_i error m' _ _
    obtain ⟨c, left⟩ := stop_left now m' t.engine
      (t.signals.publish (.moduleError id error.message))
    refine ⟨c :: calls, by rw [left.journal, journal]; rfl, ?_⟩
    rw [left.lifecycle]
    exact resetting.exit left.exit fun _ => Lifecycle.reset?_markStopped
  · exact ⟨calls, journal, resetting⟩

theorem start_resetting (now : Moment) (m : Member M) (e : Engine M) (s : Signals)
    (next : e.lifecycle.nextStep m.entry.id = .start) :
    ∃ calls, (start now m e s).1.journal = calls ++ e.journal ∧
      Resetting e.lifecycle m.entry.id false calls (start now m e s).1.lifecycle := by
  have rests : ¬ e.lifecycle.nextStep m.entry.id = .run := by
    rw [next]
    decide
  unfold start
  dsimp only
  split
  · refine ⟨[_], rfl, .silent (fun x other => ?_) (.superseded ?_ rests ?_)⟩
    · exact Lifecycle.reset?_markRunning_other other
    · exact List.forall_mem_singleton.mpr (by simp)
    · exact Lifecycle.reset?_markRunning
  · rename_i reason failed
    refine ⟨[_], rfl, .silent (fun _ _ => rfl) (.kept ?_ fun comes => absurd comes rests)⟩
    refine List.forall_mem_singleton.mpr ⟨by simp, fun starts => ?_⟩
    rw [Outcome.failure?_eq_none.mpr starts.2.1] at failed
    cases failed

theorem step_resetting (now : Moment) (e : Engine M) (s : Signals) (found : e.member? id = some m)
    (apart : id ∉ e.lifecycle.consumers id) :
    ∃ calls, (step now e s id).1.journal = calls ++ e.journal ∧
      Resetting e.lifecycle id (asks now id e s) calls (step now e s id).1.lifecycle := by
  obtain rfl := member?_id found
  have same : (e.fillCopies m.routes).lifecycle = e.lifecycle := rfl
  simp only [step, asks, found, Option.any_some, same]
  split
  · rename_i next
    refine ⟨[], rfl, ?_⟩
    rw [next]
    refine .silent (fun _ _ => rfl) (.kept (by simp) fun comes => ?_)
    rw [next] at comes
    cases comes
  · rename_i next
    rw [next]
    exact start_resetting now m (e.fillCopies m.routes) s next
  · rename_i next
    obtain ⟨c, left⟩ := stop_left now m (e.fillCopies m.routes) s
    refine ⟨[c], left.journal, ?_⟩
    rw [next, left.lifecycle]
    refine .silent (fun _ _ => Lifecycle.reset?_markStopped) ?_
    rw [Lifecycle.reset?_markStopped]
    refine .kept (List.forall_mem_singleton.mpr ?_) fun comes => ?_
    · simp [left.exit, Call.Starts]
    · rw [next] at comes
      cases comes
  · rename_i next
    rw [next, beq_self_eq_true, Bool.true_and]
    exact run_resetting now (e.fillCopies m.routes) s found apart next

/-! ### Ticks -/

def upTo (now : Moment) (e : Engine M) (s : Signals) (id : ModuleId) : Engine M × Signals :=
  steps now (e.plan.order.takeWhile fun x => x ≠ id) { e with journal := [] } s

/-- In this tick the module asks for a reset of its consumers. -/
def Asks (now : Moment) (e : Engine M) (s : Signals) (id : ModuleId) : Prop :=
  asks now id (upTo now e s id).1 (upTo now e s id).2 = true

theorem steps_append (now : Moment) (ids ids' : List ModuleId) (e : Engine M) (s : Signals) :
    steps now (ids ++ ids') e s = steps now ids' (steps now ids e s).1 (steps now ids e s).2 := by
  induction ids generalizing e s with
  | nil => rfl
  | cons id ids ih => exact ih _ _

theorem upTo_eq (now : Moment) (s : Signals) {done rest : List ModuleId}
    (nodup : e.plan.order.Nodup) (split : e.plan.order = done ++ id :: rest) :
    upTo now e s id = steps now done { e with journal := [] } s := by
  rw [split] at nodup
  have fresh : ∀ x ∈ done, decide (x ≠ id) = true := by
    intro x mem
    refine decide_eq_true ?_
    rintro rfl
    exact not_mem_before nodup mem
  rw [upTo, split, List.takeWhile_append_of_pos fresh, List.takeWhile_cons_of_neg (by simp),
    List.append_nil]

theorem upTo_induction {P : List ModuleId → Engine M → Prop} (now : Moment) (s : Signals)
    (sequenced : plan.Sequenced) (fits : Fits plan e) (start : P [] { e with journal := [] })
    (turn : ∀ done id rest m calls, plan.order = done ++ id :: rest →
      Fits plan (upTo now e s id).1 → P done (upTo now e s id).1 →
      (upTo now e s id).1.member? id = some m →
      Stepped (upTo now e s id).1 id m.routes
        (step now (upTo now e s id).1 (upTo now e s id).2 id).1 calls →
      P (done ++ [id]) (step now (upTo now e s id).1 (upTo now e s id).2 id).1) :
    (∀ done id rest, plan.order = done ++ id :: rest → P done (upTo now e s id).1) ∧
      ∃ last, P plan.order last ∧ (e.tick now s).1 = { last with slots := Slots.empty } := by
  obtain rfl := fits.same
  have prefixes : ∀ done rest, e.plan.order = done ++ rest →
      Fits e.plan (steps now done { e with journal := [] } s).1 ∧
        P done (steps now done { e with journal := [] } s).1 := by
    intro done
    induction done using List.reverseRecOn with
    | nil => exact fun _ _ => ⟨⟨⟨rfl, fits.members⟩, fits.lifecycle⟩, start⟩
    | append_singleton done id ih =>
      intro rest split
      rw [List.append_assoc, List.singleton_append] at split
      obtain ⟨fits, holds⟩ := ih (id :: rest) split
      have same := upTo_eq now s sequenced.nodup split
      rw [← same] at fits holds
      obtain ⟨m, found⟩ := fits.exists_member sequenced (split ▸ List.mem_append_cons_self)
      obtain ⟨calls, stepped⟩ := step_stepped now _ (upTo now e s id).2 found
      rw [steps_append, ← same]
      exact ⟨stepped.fits fits, turn done id rest m calls split fits holds found stepped⟩
  refine ⟨fun done id rest split => ?_, ?_⟩
  · rw [upTo_eq now s sequenced.nodup split]
    exact (prefixes done (id :: rest) split).2
  · exact ⟨_, (prefixes e.plan.order [] (List.append_nil _).symm).2, rfl⟩

/-- In this tick the module asks for a reset, and `x` is a consumer of it. -/
def AsksFor (now : Moment) (e : Engine M) (s : Signals) (x id : ModuleId) : Prop :=
  Asks now e s id ∧ x ∈ e.plan.consumers id

structure Awaiting (now : Moment) (e : Engine M) (s : Signals) (x : ModuleId)
    (done : List ModuleId) (e' : Engine M) : Prop where
  running : e'.lifecycle.isRunning x = e.lifecycle.isRunning x
  calls : callsOf x e'.journal = []
  asked : e.lifecycle.isRunning x = true → ∀ q, LastAsking (AsksFor now e s x) done q →
    e'.lifecycle.reset? x = some q
  unasked : e.lifecycle.isRunning x = false ∨ (∀ q ∈ done, ¬ AsksFor now e s x q) →
    e'.lifecycle.reset? x = e.lifecycle.reset? x

theorem Awaiting.next {now : Moment} {s : Signals} {done : List ModuleId} {b : Engine M}
    (h : Awaiting now e s x done b) (other : x ≠ id)
    (quiet : callsOf x e'.journal = callsOf x b.journal)
    (running : e'.lifecycle.isRunning x = b.lifecycle.isRunning x) {asked : Bool}
    (asks : asked = true ∧ x ∈ b.lifecycle.consumers id ↔ AsksFor now e s x id)
    (resetting : Resetting b.lifecycle id asked calls e'.lifecycle) :
    Awaiting now e s x (done ++ [id]) e' := by
  have due := resetting.others x other
  have given (own : AsksFor now e s x id) (up : e.lifecycle.isRunning x = true) :
      e'.lifecycle.reset? x = some id := by
    obtain ⟨asked, consumer⟩ := asks.mpr own
    rw [due, if_pos ⟨asked, consumer, h.running.trans up⟩]
  have kept (silent : ¬ (AsksFor now e s x id ∧ e.lifecycle.isRunning x = true)) :
      e'.lifecycle.reset? x = b.lifecycle.reset? x := by
    rw [due, if_neg]
    rintro ⟨asked, consumer, up⟩
    exact silent ⟨asks.mp ⟨asked, consumer⟩, h.running.symm.trans up⟩
  refine ⟨running.trans h.running, quiet.trans h.calls, fun up q last => ?_, fun unasked => ?_⟩
  · rcases lastAsking_append.mp last with ⟨own, rfl⟩ | ⟨silent, last⟩
    · exact given own up
    · exact (kept fun own => silent own.1).trans (h.asked up q last)
  · have silent : ¬ (AsksFor now e s x id ∧ e.lifecycle.isRunning x = true) := by
      rintro ⟨own, up⟩
      rcases unasked with down | none
      · rw [down] at up
        cases up
      · exact none id (by simp) own
    refine (kept silent).trans (h.unasked (unasked.imp_right fun none q mem => ?_))
    exact none q (List.mem_append_left _ mem)

/-- Where a tick stands with a module when `done` have had their turn. -/
structure Standing (now : Moment) (e : Engine M) (s : Signals) (x : ModuleId)
    (done : List ModuleId) (e' : Engine M) : Prop where
  awaiting : x ∉ done → Awaiting now e s x done e'
  answered : x ∈ done → Answered ((upTo now e s x).1.lifecycle.reset? x)
    ((upTo now e s x).1.lifecycle.nextStep x = .run) (callsOf x e'.journal)
    (e'.lifecycle.reset? x)

theorem Standing.next {now : Moment} {s : Signals} {done rest : List ModuleId} {routes : Routes}
    (sequenced : plan.Sequenced) (fits : Fits plan (upTo now e s id).1) (same : e.plan = plan)
    (split : plan.order = done ++ id :: rest)
    (found : (upTo now e s id).1.member? id = some m)
    (stepped : Stepped (upTo now e s id).1 id routes
      (step now (upTo now e s id).1 (upTo now e s id).2 id).1 calls)
    (h : Standing now e s x done (upTo now e s id).1) :
    Standing now e s x (done ++ [id])
      (step now (upTo now e s id).1 (upTo now e s id).2 id).1 := by
  have nodup := split ▸ sequenced.nodup
  have self : id ∉ (upTo now e s id).1.lifecycle.consumers id :=
    not_consumer sequenced fits split (not_mem_after nodup)
  obtain ⟨calls', journal, resetting⟩ := step_resetting now _ (upTo now e s id).2 found self
  obtain rfl : calls' = calls := List.append_cancel_right (journal.symm.trans stepped.journal)
  by_cases own : x = id
  · subst own
    refine ⟨fun missed => absurd (by simp) missed, fun _ => ?_⟩
    rw [stepped.callsOf_own (h.awaiting (not_mem_before nodup)).calls]
    exact resetting.own
  · have quiet := stepped.callsOf_of_ne own
    have running := stepped.isRunning_other own
    refine ⟨fun waits => ?_, fun mem => ?_⟩
    · have visited : x ∉ done := fun mem => waits (List.mem_append_left _ mem)
      refine (h.awaiting visited).next own quiet running ?_ resetting
      have mem : id ∈ plan.order := split ▸ List.mem_append_cons_self
      rw [(fits.neighbours mem).2, AsksFor, same]
      rfl
    · have mem : x ∈ done := by simpa [own] using mem
      have later : x ∉ rest := fun later =>
        (List.nodup_append.mp nodup).2.2 x mem x (List.mem_cons_of_mem _ later) rfl
      have apart := not_consumer sequenced fits split later
      rw [quiet, resetting.others x own, if_neg fun given => apart given.2.1]
      exact h.answered mem

/-- What a tick makes of the reset that is due to a module: its producers may ask for one before it
has its turn, and its turn answers what is due then. -/
theorem tick_standing (now : Moment) (s : Signals) (sequenced : plan.Sequenced)
    (fits : Fits plan e) (x : ModuleId) :
    (∀ done id rest, plan.order = done ++ id :: rest →
      Standing now e s x done (upTo now e s id).1) ∧
    Standing now e s x plan.order (e.tick now s).1 := by
  have start : Standing now e s x [] { e with journal := [] } := by
    refine ⟨fun _ => ⟨rfl, rfl, fun _ q last => ?_, fun _ => rfl⟩, fun mem => by cases mem⟩
    obtain ⟨pre, post, split, -⟩ := last
    simp at split
  obtain ⟨during, last, h, same⟩ := upTo_induction now s sequenced fits start
    fun _ _ _ _ _ split fits' h found stepped =>
      h.next sequenced fits' fits.same split found stepped
  refine ⟨during, fun missed => ?_, fun mem => ?_⟩
  · rw [same]
    obtain ⟨running, calls, asked, unasked⟩ := h.awaiting missed
    exact ⟨running, calls, asked, unasked⟩
  · rw [same]
    exact h.answered mem

theorem AsksFor.before {now : Moment} {s : Signals} {p : ModuleId} (asks : AsksFor now e s x p)
    (sequenced : plan.Sequenced) (same : e.plan = plan) : Before plan.order p x :=
  sequenced.before x p ((sequenced.consumers x p).mp (same ▸ asks.2))

theorem AsksFor.mem_done {now : Moment} {s : Signals} {p : ModuleId} {done rest : List ModuleId}
    (asks : AsksFor now e s x p) (sequenced : plan.Sequenced) (same : e.plan = plan)
    (split : plan.order = done ++ x :: rest) : p ∈ done := by
  have before := asks.before sequenced same
  rw [split] at before
  exact before.mem_init (split ▸ sequenced.nodup)

theorem isRunning_upTo (now : Moment) (s : Signals) (sequenced : plan.Sequenced)
    (fits : Fits plan e) {done rest : List ModuleId} {p : ModuleId}
    (split : plan.order = done ++ x :: rest) (earlier : p ∈ done) :
    (upTo now e s p).1.lifecycle.isRunning x = e.lifecycle.isRunning x := by
  have nodup := split ▸ sequenced.nodup
  obtain ⟨pre, post, rfl⟩ := List.append_of_mem earlier
  have fresh : x ∉ pre := fun mem => not_mem_before nodup (List.mem_append_left _ mem)
  rw [List.append_assoc, List.cons_append] at split
  exact (((tick_standing now s sequenced fits x).1 pre p _ split).awaiting fresh).running

theorem due_in_turn (now : Moment) (s : Signals) (sequenced : plan.Sequenced) (fits : Fits plan e)
    (mem : x ∈ plan.order) {q : ModuleId} (due : (upTo now e s x).1.lifecycle.reset? x = some q) :
    (AsksFor now e s x q ∧ (upTo now e s q).1.lifecycle.isRunning x = true) ∨
      e.lifecycle.reset? x = some q := by
  obtain ⟨done, rest, split⟩ := List.append_of_mem mem
  have fresh := not_mem_before (split ▸ sequenced.nodup)
  have awaiting := ((tick_standing now s sequenced fits x).1 done x rest split).awaiting fresh
  by_cases asked : e.lifecycle.isRunning x = true ∧ ∃ p ∈ done, AsksFor now e s x p
  · obtain ⟨up, p, earlier, asks⟩ := asked
    obtain ⟨r, last⟩ := exists_lastAsking earlier asks
    obtain rfl : r = q := Option.some.inj ((awaiting.asked up r last).symm.trans due)
    obtain ⟨pre, post, rfl, asks, -⟩ := last
    have running := isRunning_upTo now s sequenced fits split List.mem_append_cons_self
    exact Or.inl ⟨asks, running.trans up⟩
  · right
    rw [← awaiting.unasked, due]
    rw [not_and_or, Bool.not_eq_true] at asked
    exact asked.imp_right fun none q mem asks => none ⟨q, mem, asks⟩

/-- In the tick in which a producer asks, a consumer that runs is reset once, for the last to ask,
unless it fails before that. -/
theorem AsksFor.delivered {now : Moment} {s : Signals} {p : ModuleId} (asks : AsksFor now e s x p)
    (sequenced : plan.Sequenced) (fits : Fits plan e)
    (up : (upTo now e s p).1.lifecycle.isRunning x = true)
    (next : (upTo now e s x).1.lifecycle.nextStep x = .run)
    (fine : ∀ c ∈ callsOf x (e.tick now s).1.journal,
      c.callback = .config ∨ c.callback = .run → c.failure = none) :
    ∃ q, LastAsking (AsksFor now e s x) plan.order q ∧
      ResetOnce q (callsOf x (e.tick now s).1.journal) := by
  have mem := (asks.before sequenced fits.same).mem_right
  obtain ⟨done, rest, split⟩ := List.append_of_mem mem
  have nodup := split ▸ sequenced.nodup
  obtain ⟨during, after⟩ := tick_standing now s sequenced fits x
  have awaiting := (during done x rest split).awaiting (not_mem_before nodup)
  have earlier := asks.mem_done sequenced fits.same split
  have running := isRunning_upTo now s sequenced fits split earlier
  obtain ⟨q, last⟩ := exists_lastAsking earlier asks
  have due := awaiting.asked (running.symm.trans up) q last
  refine ⟨q, ?_, (after.answered mem).once next fine q due⟩
  rw [split]
  refine last.append fun r later asks => ?_
  have again := asks.mem_done sequenced fits.same split
  exact (List.nodup_append.mp nodup).2.2 r again r later rfl

theorem answers_due {now : Moment} {s : Signals} {c : Call} (sequenced : plan.Sequenced)
    (fits : Fits plan e) (mem : c ∈ callsOf x (e.tick now s).1.journal)
    (reset : c.callback = .reset) :
    x ∈ plan.order ∧ ∃ q, (upTo now e s x).1.lifecycle.reset? x = some q ∧ c.source = some q ∧
      ∀ d ∈ callsOf x (e.tick now s).1.journal, ¬ d.Starts := by
  have after := (tick_standing now s sequenced fits x).2
  by_cases listed : x ∈ plan.order
  · obtain ⟨-, ⟨q, due, source⟩, quiet⟩ := (after.answered listed).source c mem reset
    exact ⟨listed, q, due, source, quiet⟩
  · rw [(after.awaiting listed).calls] at mem
    cases mem

theorem AsksFor.not_reset {now : Moment} {s : Signals} {p : ModuleId} (asks : AsksFor now e s x p)
    (sequenced : plan.Sequenced) (fits : Fits plan e)
    (down : (upTo now e s p).1.lifecycle.isRunning x = false) :
    ∀ c ∈ callsOf x (e.tick now s).1.journal, c.callback ≠ .reset := by
  intro c mem reset
  have listed := (asks.before sequenced fits.same).mem_right
  obtain ⟨done, rest, split⟩ := List.append_of_mem listed
  have earlier := asks.mem_done sequenced fits.same split
  obtain ⟨during, after⟩ := tick_standing now s sequenced fits x
  obtain ⟨next, -⟩ := (after.answered listed).source c mem reset
  have awaiting := (during done x rest split).awaiting (not_mem_before (split ▸ sequenced.nodup))
  have up := awaiting.running.symm.trans (Lifecycle.nextStep_run next).1
  rw [isRunning_upTo now s sequenced fits split earlier, up] at down
  cases down

/-! ### Histories -/

/-- In this event a module is asked to reset, by a command, or by a producer while it runs. -/
inductive Seeks (e : Engine M) (x q : ModuleId) : Event → Prop where
  | command : Seeks e x q (.reset x q)
  | producer (now : Moment) (s : Signals) : AsksFor now e s x q →
    (upTo now e s q).1.lifecycle.isRunning x = true → Seeks e x q (.tick now s)

/-- In this event a module has an init that succeeds. -/
def StartsIn (e : Engine M) (x : ModuleId) : Event → Prop
  | .tick now s => ∃ c ∈ callsOf x (e.tick now s).1.journal, c.Starts
  | _ => False

/-- A module has been asked to reset in one of these events, and has had no init that succeeded
since. -/
def Sought (e : Engine M) (x q : ModuleId) (events : List Event) : Prop :=
  ∃ before event since, events = before ++ event :: since ∧ Seeks (e.after before) x q event ∧
    ∀ pre next post, event :: since = pre ++ next :: post →
      ¬ StartsIn (e.after (before ++ pre)) x next

theorem after_append (e : Engine M) (events : List Event) (event : Event) :
    e.after (events ++ [event]) = (e.after events).react event :=
  List.foldl_append ..

theorem Sought.asked {events : List Event} {event : Event} {q : ModuleId}
    (seeks : Seeks (e.after events) x q event) (quiet : ¬ StartsIn (e.after events) x event) :
    Sought e x q (events ++ [event]) := by
  refine ⟨events, event, [], rfl, seeks, fun pre next post split => ?_⟩
  cases pre with
  | nil =>
    obtain ⟨rfl, -⟩ := List.cons.inj split
    rwa [List.append_nil]
  | cons _ pre => simp at split

theorem Sought.still {events : List Event} {event : Event} {q : ModuleId}
    (h : Sought e x q events) (quiet : ¬ StartsIn (e.after events) x event) :
    Sought e x q (events ++ [event]) := by
  obtain ⟨before, first, since, rfl, seeks, calm⟩ := h
  refine ⟨before, first, since ++ [event], by simp, seeks, fun pre next post split => ?_⟩
  rw [← List.cons_append] at split
  rcases List.eq_nil_or_concat' post with rfl | ⟨post, last, rfl⟩
  · obtain ⟨same, last⟩ := List.append_inj' split rfl
    obtain rfl := List.singleton_inj.mp last
    rwa [← same]
  · rw [← List.cons_append, ← List.append_assoc] at split
    exact calm pre next post (List.append_inj' split rfl).1

theorem not_startsIn {event : Event} (command : ∀ now s, event ≠ .tick now s) (e : Engine M) :
    ¬ StartsIn e x event := by
  cases event with
  | tick now s => exact absurd rfl (command now s)
  | _ => exact not_false

theorem react_reset? {event : Event} (command : ∀ now s, event ≠ .tick now s) {q : ModuleId}
    (due : (e.react event).lifecycle.reset? x = some q) :
    event = .reset x q ∨ e.lifecycle.reset? x = some q := by
  cases event with
  | tick now s => exact absurd rfl (command now s)
  | reset y source =>
    by_cases own : x = y
    · subst own
      rw [Lifecycle.reset?_scheduleReset due]
      exact Or.inl rfl
    · exact Or.inr ((Lifecycle.reset?_modify_other (by intro c; rfl) _ own).symm.trans due)
  | start y =>
    exact Or.inr ((Lifecycle.reset?_modify (by intro c; exact ⟨rfl, rfl⟩) _ [y] x).symm.trans due)
  | stop y =>
    exact Or.inr ((Lifecycle.reset?_modify (by intro c; exact ⟨rfl, rfl⟩) _ [y] x).symm.trans due)
  | setParam y =>
    exact Or.inr ((Lifecycle.reset?_modify (by intro c; exact ⟨rfl, rfl⟩) _ [y] x).symm.trans due)

/-- What is due to a module in a tick that does not start it has been asked for since it was last
started. -/
theorem sought_in_turn {now : Moment} {s : Signals} {events : List Event}
    (sequenced : plan.Sequenced) (fits : Fits plan (e.after events)) (mem : x ∈ plan.order)
    {q : ModuleId} (before : (e.after events).lifecycle.reset? x = some q → Sought e x q events)
    (due : (upTo now (e.after events) s x).1.lifecycle.reset? x = some q)
    (quiet : ∀ c ∈ callsOf x ((e.after events).tick now s).1.journal, ¬ c.Starts) :
    Sought e x q (events ++ [.tick now s]) := by
  have quiet : ¬ StartsIn (e.after events) x (.tick now s) := by
    rintro ⟨c, mem, starts⟩
    exact quiet c mem starts
  rcases due_in_turn now s sequenced fits mem due with ⟨asks, running⟩ | already
  · exact .asked (.producer now s asks running) quiet
  · exact (before already).still quiet

theorem due_sought {startup : ModuleId → Bool} {e : Engine M} (sequenced : plan.Sequenced)
    (initial : Initial plan startup e) (events : List Event) {q : ModuleId}
    (due : (e.after events).lifecycle.reset? x = some q) : Sought e x q events := by
  induction events using List.reverseRecOn with
  | nil =>
    have none : e.lifecycle.reset? x = none := by
      rw [initial.lifecycle, Lifecycle.reset?, Lifecycle.cell?_ofPlan]
      split <;> rfl
    rw [after, List.foldl_nil, none] at due
    cases due
  | append_singleton events event ih =>
    have fits := after_fits sequenced initial.fits events
    rw [after_append] at due
    by_cases tick : ∃ now s, event = .tick now s
    · obtain ⟨now, s, rfl⟩ := tick
      obtain ⟨c, found, -⟩ := Option.bind_eq_some_iff.mp due
      have mem : x ∈ plan.order := (tick_fits now s sequenced fits).placed found
      obtain ⟨owed, quiet⟩ := ((tick_standing now s sequenced fits x).2.answered mem).left q due
      exact sought_in_turn sequenced fits mem ih owed quiet
    · have command : ∀ now s, event ≠ .tick now s := fun now s same => tick ⟨now, s, same⟩
      have quiet := not_startsIn (x := x) command (e.after events)
      rcases react_reset? command due with rfl | already
      · exact .asked .command quiet
      · exact (ih already).still quiet

end
end Engine

open Engine

/-- Whatever modules answer and whatever is asked of a pipeline between its ticks: if a producer
asks for a reset in its turn, a consumer that runs then has one reset in the same tick, for the last
of its producers to ask, unless it is stopped or fails before; a consumer that does not run has
none. Every reset was asked for since its module was last started. -/
theorem resets_delivered {M : Type} [Behaviour M] {decls : List Decl} {generation : Nat}
    {plan : Plan} (compiled : compile decls generation = .ok plan) {startup : ModuleId → Bool}
    {e₀ : Engine M} (initial : Initial plan startup e₀) (events : List Engine.Event) (now : Moment)
    (s : Signals) :
    let e := e₀.after events
    let calls (x : ModuleId) := callsOf x (e.tick now s).1.journal
    (∀ x p, AsksFor now e s x p →
      ((upTo now e s p).1.lifecycle.isRunning x = true →
        (upTo now e s x).1.lifecycle.nextStep x = .run →
        (∀ c ∈ calls x, c.callback = .config ∨ c.callback = .run → c.failure = none) →
        ∃ q, LastAsking (AsksFor now e s x) plan.order q ∧ ResetOnce q (calls x)) ∧
      ((upTo now e s p).1.lifecycle.isRunning x = false → ∀ c ∈ calls x, c.callback ≠ .reset)) ∧
    ∀ x, ∀ c ∈ calls x, c.callback = .reset →
      ∃ q, c.source = some q ∧ Sought e₀ x q (events ++ [.tick now s]) := by
  intro e calls
  have sequenced := Compile.compile_sequenced compiled
  have fits : Fits plan e := after_fits sequenced initial.fits events
  refine ⟨fun x p asks => ⟨fun up next fine => ?_, fun down => ?_⟩, fun x c mem reset => ?_⟩
  · exact asks.delivered sequenced fits up next fine
  · exact asks.not_reset sequenced fits down
  · obtain ⟨listed, q, due, source, quiet⟩ := answers_due sequenced fits mem reset
    have before := due_sought (x := x) (q := q) sequenced initial events
    exact ⟨q, source, sought_in_turn sequenced fits listed before due quiet⟩

/-- A sink that reads from a source and from a relay of that source. -/
def shortcut : List Decl :=
  [ { id := ⟨1⟩, name := "in",
      info := { name := "source", kind := .source, outputs := [.fixed .polarity] } },
    { id := ⟨2⟩, name := "relay", input := some "1[1]",
      info := { name := "relay", kind := .processor, outputs := [.fixed .frame]
                inputs := [⟨.fixed .polarity, .exactly 1, false⟩] } },
    { id := ⟨3⟩, name := "out", input := some "1[1] 2[2]",
      info := { name := "sink", kind := .sink, inputs := [⟨.any, .any, false⟩] } } ]

def shortcutModules (id : ModuleId) : StandIn :=
  let info := ((shortcut.find? fun d => d.id == id).map (·.info)).getD
    { name := "none", kind := .sink }
  { spec :=
      { info
        resetAt := [1]
        emissions := if id = ⟨1⟩ then [{ type := .polarity }] else [] } }

theorem shortcut_reset : ∃ plan, compile shortcut 0 = .ok plan ∧
    let e := (ofPlan plan (fun _ => true) shortcutModules).after [.tick {} default]
    ∃ q, LastAsking (AsksFor ⟨1, 1⟩ e default ⟨3⟩) plan.order q ∧
      ResetOnce q (callsOf ⟨3⟩ (e.tick ⟨1, 1⟩ default).1.journal) := by
  have facts : ((compile shortcut 0).toOption.all fun plan =>
      let e := (ofPlan plan (fun _ => true) shortcutModules).after [.tick {} default]
      let source := upTo ⟨1, 1⟩ e default ⟨1⟩
      asks ⟨1, 1⟩ ⟨1⟩ source.1 source.2 && (e.plan.consumers ⟨1⟩).contains ⟨3⟩ &&
        source.1.lifecycle.isRunning ⟨3⟩ &&
        (upTo ⟨1, 1⟩ e default ⟨3⟩).1.lifecycle.nextStep ⟨3⟩ == .run &&
        (callsOf ⟨3⟩ (e.tick ⟨1, 1⟩ default).1.journal).all fun c => c.failure.isNone) = true := by
    cbv
  have accepted : ∃ plan, compile shortcut 0 = .ok plan := ⟨_, by cbv⟩
  obtain ⟨plan, ok⟩ := accepted
  simp only [ok, Except.toOption, Option.all_some, Bool.and_eq_true, List.contains_iff_mem,
    beq_iff_eq, List.all_eq_true, Option.isNone_iff_eq_none] at facts
  obtain ⟨⟨⟨⟨asks, consumer⟩, up⟩, next⟩, fine⟩ := facts
  have initial := ofPlan_initial plan (fun _ => true) shortcutModules
  have delivered := (resets_delivered ok initial [.tick {} default] ⟨1, 1⟩ default).1
  exact ⟨plan, ok, (delivered ⟨3⟩ ⟨1⟩ ⟨asks, consumer⟩).1 up next fun c mem _ => fine c mem⟩

example : ((compile shortcut 0).toOption.map fun plan =>
    let e := (ofPlan plan (fun _ => true) shortcutModules).after [.tick {} default]
    (callsOf ⟨3⟩ (e.tick ⟨1, 1⟩ default).1.journal).map fun c => (c.callback, c.source)) =
    some [(.reset, some ⟨2⟩), (.run, none)] := by
  cbv

end EventFlow

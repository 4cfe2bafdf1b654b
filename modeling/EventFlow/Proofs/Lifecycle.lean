import EventFlow.Lifecycle
import Mathlib.Tactic.ByContra

/-!
What the operations of a lifecycle do to which modules run and which are wanted, and what
`nextStep` promises.
-/

namespace EventFlow.Lifecycle

variable {l : Lifecycle} {id x : ModuleId}

/-! ### Cells -/

def wants (l : Lifecycle) (id : ModuleId) : Bool := (l.cell? id).any (·.wanted)

/-- The module starts as soon as a producer does, also if nobody wants it. -/
def eager (l : Lifecycle) (id : ModuleId) : Bool := (l.cell? id).any (·.runAtStartup)

def producers (l : Lifecycle) (id : ModuleId) : List ModuleId :=
  ((l.cell? id).map (·.producers)).getD []

def wiring (l : Lifecycle) : List (ModuleId × List ModuleId × List ModuleId) :=
  l.cells.map fun c => (c.id, c.producers, c.consumers)

def unscheduled (l : Lifecycle) : Lifecycle :=
  ⟨l.cells.map fun c => { c with configPending := false, reset := none }⟩

theorem isRunning_iff : l.isRunning id = true ↔ ∃ c, l.cell? id = some c ∧ c.status = .running := by
  simp [isRunning, status?]

theorem wants_iff : l.wants id = true ↔ ∃ c, l.cell? id = some c ∧ c.wanted = true := by
  rw [wants, Option.any_eq_true]

theorem cell?_id {c : Cell} (h : l.cell? id = some c) : c.id = id := by
  simpa using List.find?_some h

theorem cell?_map {f : Cell → Cell} (keep : ∀ c, (f c).id = c.id) (l : Lifecycle) (id : ModuleId) :
    cell? ⟨l.cells.map f⟩ id = (l.cell? id).map f := by
  simp only [cell?, List.find?_map, Function.comp_def, keep]

theorem cell?_modify {f : Cell → Cell} (keep : ∀ c, (f c).id = c.id) (l : Lifecycle)
    (ids : List ModuleId) (id : ModuleId) :
    (l.modify ids f).cell? id = (l.cell? id).map fun c => if id ∈ ids then f c else c := by
  rw [modify, cell?_map (fun c => by split <;> simp [keep])]
  cases found : l.cell? id with
  | none => rfl
  | some c => simp [cell?_id found]

theorem cell?_modify_other {f : Cell → Cell} (keep : ∀ c, (f c).id = c.id) (l : Lifecycle)
    (other : x ≠ id) : (l.modify [id] f).cell? x = l.cell? x := by
  rw [cell?_modify keep]
  simp only [List.mem_singleton, if_neg other]
  exact Option.map_id'

theorem cell?_ofPlan (p : Plan) (startup : ModuleId → Bool) (id : ModuleId) :
    (ofPlan p startup).cell? id = if id ∈ p.order then
      some { id, producers := p.producers id, consumers := p.consumers id,
             runAtStartup := startup id, wanted := startup id }
    else none := by
  have found : p.order.find? (· == id) = if id ∈ p.order then some id else none := by
    induction p.order with
    | nil => rfl
    | cons x order ih =>
      by_cases same : x = id
      · simp [same]
      · simp [same, Ne.symm same, ih]
  simp only [cell?, ofPlan, List.find?_map, Function.comp_def, found]
  split <;> rfl

theorem wiring_modify {f : Cell → Cell}
    (keep : ∀ c, ((f c).id, (f c).producers, (f c).consumers) = (c.id, c.producers, c.consumers))
    (l : Lifecycle) (ids : List ModuleId) : (l.modify ids f).wiring = l.wiring := by
  rw [wiring, wiring, modify, List.map_map]
  refine List.map_congr_left fun c _ => ?_
  simp only [Function.comp_apply]
  split
  · exact keep c
  · rfl

theorem unscheduled_modify {f : Cell → Cell}
    (keep : ∀ c, { f c with configPending := false, reset := none } =
      { c with configPending := false, reset := none })
    (l : Lifecycle) (ids : List ModuleId) : (l.modify ids f).unscheduled = l.unscheduled := by
  rw [unscheduled, unscheduled, modify, List.map_map]
  congr 1
  refine List.map_congr_left fun c _ => ?_
  simp only [Function.comp_apply]
  split
  · exact keep c
  · rfl

theorem cell?_unscheduled (l : Lifecycle) (id : ModuleId) : l.unscheduled.cell? id =
    (l.cell? id).map fun c => { c with configPending := false, reset := none } :=
  cell?_map (by intro c; rfl) l id

/-! What is scheduled decides nothing else. -/

theorem isRunning_unscheduled (l : Lifecycle) (id : ModuleId) :
    l.unscheduled.isRunning id = l.isRunning id := by
  simp only [isRunning, status?, cell?_unscheduled, Option.map_map, Function.comp_def]

theorem status?_unscheduled (l : Lifecycle) (id : ModuleId) :
    l.unscheduled.status? id = l.status? id := by
  simp only [status?, cell?_unscheduled, Option.map_map, Function.comp_def]

theorem wants_unscheduled (l : Lifecycle) (id : ModuleId) :
    l.unscheduled.wants id = l.wants id := by
  simp only [wants, cell?_unscheduled]
  cases l.cell? id <;> rfl

theorem consumers_unscheduled (l : Lifecycle) (id : ModuleId) :
    l.unscheduled.consumers id = l.consumers id := by
  simp only [consumers, cell?_unscheduled, Option.map_map, Function.comp_def]

theorem wiring_unscheduled (l : Lifecycle) : l.unscheduled.wiring = l.wiring := by
  simp only [wiring, unscheduled, List.map_map, Function.comp_def]

/-! ### Operations -/

theorem isRunning_modify {f : Cell → Cell} (keep : ∀ c, (f c).id = c.id ∧ (f c).status = c.status)
    (l : Lifecycle) (ids : List ModuleId) (id : ModuleId) :
    (l.modify ids f).isRunning id = l.isRunning id := by
  rw [isRunning, status?, cell?_modify fun c => (keep c).1, Option.map_map]
  simp only [isRunning, status?]
  congr 2
  funext c
  simp only [Function.comp_apply]
  split
  · exact (keep c).2
  · rfl

theorem unscheduled_clearConfig (l : Lifecycle) (id : ModuleId) :
    (l.clearConfig id).unscheduled = l.unscheduled :=
  unscheduled_modify (by intro c; rfl) l [id]

theorem unscheduled_clearReset (l : Lifecycle) (id : ModuleId) :
    (l.clearReset id).unscheduled = l.unscheduled :=
  unscheduled_modify (by intro c; rfl) l [id]

theorem unscheduled_scheduleDownstreamReset (l : Lifecycle) (id : ModuleId) :
    (l.scheduleDownstreamReset id).unscheduled = l.unscheduled :=
  unscheduled_modify (by intro c; split <;> rfl) l (l.consumers id)

theorem wiring_markRunning (l : Lifecycle) (id : ModuleId) :
    (l.markRunning id).wiring = l.wiring :=
  (wiring_modify (by intro c; rfl) _ _).trans (wiring_modify (by intro c; rfl) _ _)

theorem wiring_markStopped (l : Lifecycle) (id : ModuleId) :
    (l.markStopped id).wiring = l.wiring :=
  (wiring_modify (by intro c; rfl) _ _).trans (wiring_modify (by intro c; rfl) _ _)

theorem unscheduled_markStopped (l : Lifecycle) (id : ModuleId) :
    (l.markStopped id).unscheduled = l.unscheduled.markStopped id := by
  rw [markStopped, markStopped, consumers_unscheduled]
  simp only [unscheduled, modify, List.map_map, mk.injEq]
  refine List.map_congr_left fun c _ => ?_
  simp only [Function.comp_apply]
  split <;> split <;> simp_all

theorem cell?_markRunning (l : Lifecycle) (id x : ModuleId) : (l.markRunning id).cell? x =
    (l.cell? x).map fun c =>
      let c := if x = id then { c with status := .running, configPending := false, reset := none }
        else c
      if x ∈ l.consumers id then { c with wanted := c.wanted || c.runAtStartup } else c := by
  rw [markRunning, cell?_modify, cell?_modify, Option.map_map]
  · simp [Function.comp_def]
  · intro c
    rfl
  · intro c
    rfl

theorem cell?_markStopped (l : Lifecycle) (id x : ModuleId) : (l.markStopped id).cell? x =
    (l.cell? x).map fun c =>
      let c := if x = id then { c with status := .stopped, wanted := false } else c
      if x ∈ l.consumers id then { c with wanted := false } else c := by
  rw [markStopped, cell?_modify, cell?_modify, Option.map_map]
  · simp [Function.comp_def]
  · intro c
    rfl
  · intro c
    rfl

theorem isRunning_markRunning_of_ne (h : x ≠ id) :
    (l.markRunning id).isRunning x = l.isRunning x := by
  simp only [isRunning, status?, cell?_markRunning, if_neg h, Option.map_map]
  congr 2
  funext c
  simp only [Function.comp_apply]
  split <;> rfl

theorem isRunning_markRunning (h : l.isRunning x = true) :
    (l.markRunning id).isRunning x = true := by
  by_cases same : x = id
  · obtain ⟨c, found, -⟩ := isRunning_iff.mp h
    refine isRunning_iff.mpr ⟨_, by rw [cell?_markRunning, found, Option.map_some], ?_⟩
    simp only [if_pos same]
    split <;> rfl
  · rwa [isRunning_markRunning_of_ne same]

theorem isRunning_markRunning_self (h : l.has id = true) :
    (l.markRunning id).isRunning id = true := by
  obtain ⟨c, found⟩ := Option.isSome_iff_exists.mp h
  refine isRunning_iff.mpr ⟨_, by rw [cell?_markRunning, found, Option.map_some], ?_⟩
  rw [if_pos rfl]
  split <;> rfl

theorem wants_markRunning_of_not_mem (h : x ∉ l.consumers id) :
    (l.markRunning id).wants x = l.wants x := by
  rw [wants, wants, cell?_markRunning, Option.any_map]
  congr 1
  funext c
  simp only [if_neg h]
  split <;> rfl

theorem wants_markRunning (h : (l.markRunning id).wants x = true) :
    l.wants x = true ∨ x ∈ l.consumers id := by
  by_cases consumer : x ∈ l.consumers id
  · exact Or.inr consumer
  · rw [wants_markRunning_of_not_mem consumer] at h
    exact Or.inl h

theorem isRunning_markStopped : (l.markStopped id).isRunning x = true ↔
    l.isRunning x = true ∧ x ≠ id := by
  simp only [isRunning_iff, cell?_markStopped, Option.map_eq_some_iff]
  constructor
  · rintro ⟨-, ⟨c, found, rfl⟩, running⟩
    by_cases same : x = id
    · simp only [if_pos same] at running
      split at running <;> cases running
    · simp only [if_neg same] at running
      refine ⟨⟨c, found, ?_⟩, same⟩
      split at running <;> exact running
  · rintro ⟨⟨c, found, running⟩, differs⟩
    refine ⟨_, ⟨c, found, rfl⟩, ?_⟩
    simp only [if_neg differs]
    split <;> exact running

theorem wants_markStopped : (l.markStopped id).wants x = true ↔
    l.wants x = true ∧ x ≠ id ∧ x ∉ l.consumers id := by
  simp only [wants_iff, cell?_markStopped, Option.map_eq_some_iff]
  constructor
  · rintro ⟨-, ⟨c, found, rfl⟩, wanted⟩
    by_cases consumer : x ∈ l.consumers id
    · simp [consumer] at wanted
    · by_cases same : x = id
      · simp [same] at wanted
      · rw [if_neg consumer, if_neg same] at wanted
        exact ⟨⟨c, found, wanted⟩, same, consumer⟩
  · rintro ⟨⟨c, found, wanted⟩, differs, other⟩
    exact ⟨_, ⟨c, found, rfl⟩, by simpa [differs, other] using wanted⟩

theorem isRunning_markStopped_of_ne (h : x ≠ id) :
    (l.markStopped id).isRunning x = l.isRunning x := by
  rw [Bool.eq_iff_iff, isRunning_markStopped, and_iff_left h]

theorem isRunning_requestStopAll : l.requestStopAll.isRunning id = l.isRunning id := by
  have cell := cell?_map (f := fun c => { c with wanted := false }) (by intro c; rfl) l id
  simp only [isRunning, status?, requestStopAll, cell, Option.map_map, Function.comp_def]

theorem wants_requestStopAll : l.requestStopAll.wants id = false := by
  have cell := cell?_map (f := fun c => { c with wanted := false }) (by intro c; rfl) l id
  simp only [wants, requestStopAll, cell, Option.any_map]
  cases l.cell? id <;> rfl

theorem wiring_requestStopAll : l.requestStopAll.wiring = l.wiring := by
  simp only [wiring, requestStopAll, List.map_map, Function.comp_def]

/-! ### Who starts with its producers -/

theorem eager_modify {f : Cell → Cell}
    (keep : ∀ c, (f c).id = c.id ∧ (f c).runAtStartup = c.runAtStartup) (l : Lifecycle)
    (ids : List ModuleId) (id : ModuleId) : (l.modify ids f).eager id = l.eager id := by
  rw [eager, cell?_modify fun c => (keep c).1, Option.any_map, eager]
  congr 1
  funext c
  split
  · exact (keep c).2
  · rfl

theorem eager_unscheduled (l : Lifecycle) (id : ModuleId) :
    l.unscheduled.eager id = l.eager id := by
  simp only [eager, cell?_unscheduled]
  cases l.cell? id <;> rfl

theorem eager_markRunning : (l.markRunning id).eager x = l.eager x :=
  (eager_modify (by intro c; exact ⟨rfl, rfl⟩) _ _ x).trans
    (eager_modify (by intro c; exact ⟨rfl, rfl⟩) l [id] x)

theorem eager_markStopped : (l.markStopped id).eager x = l.eager x :=
  (eager_modify (by intro c; exact ⟨rfl, rfl⟩) _ _ x).trans
    (eager_modify (by intro c; exact ⟨rfl, rfl⟩) l [id] x)

theorem wants_markRunning_of_mem (h : x ∈ l.consumers id) :
    (l.markRunning id).wants x = (l.wants x || l.eager x) := by
  rw [wants, wants, eager, cell?_markRunning, Option.any_map]
  cases l.cell? x with
  | none => rfl
  | some c =>
    simp only [Option.any_some, if_pos h]
    split <;> rfl

/-! ### What is pending -/

theorem configPending_modify {f : Cell → Cell}
    (keep : ∀ c, (f c).id = c.id ∧ (f c).configPending = c.configPending) (l : Lifecycle)
    (ids : List ModuleId) (id : ModuleId) :
    (l.modify ids f).configPending id = l.configPending id := by
  rw [configPending, cell?_modify fun c => (keep c).1, Option.any_map, configPending]
  congr 1
  funext c
  split
  · exact (keep c).2
  · rfl

theorem configPending_modify_other {f : Cell → Cell} (keep : ∀ c, (f c).id = c.id)
    (l : Lifecycle) (other : x ≠ id) : (l.modify [id] f).configPending x = l.configPending x := by
  rw [configPending, cell?_modify_other keep l other, configPending]

theorem configPending_clearConfig : (l.clearConfig id).configPending id = false := by
  rw [configPending, clearConfig, cell?_modify (by intro c; rfl), Option.any_map]
  cases l.cell? id <;> simp

theorem configPending_scheduleConfig (h : l.has id = true) :
    (l.scheduleConfig id).configPending id = true := by
  obtain ⟨c, found⟩ := Option.isSome_iff_exists.mp h
  rw [configPending, scheduleConfig, cell?_modify (by intro c; rfl), found]
  simp

theorem configPending_markRunning : (l.markRunning id).configPending id = false := by
  rw [configPending, cell?_markRunning, Option.any_map]
  cases l.cell? id with
  | none => rfl
  | some c =>
    simp only [Option.any_some, if_true]
    split <;> rfl

theorem configPending_markRunning_other (other : x ≠ id) :
    (l.markRunning id).configPending x = l.configPending x :=
  (configPending_modify (by intro c; exact ⟨rfl, rfl⟩) _ _ x).trans
    (configPending_modify_other (by intro c; rfl) l other)

theorem configPending_markStopped : (l.markStopped id).configPending x = l.configPending x :=
  (configPending_modify (by intro c; exact ⟨rfl, rfl⟩) _ _ x).trans
    (configPending_modify (by intro c; exact ⟨rfl, rfl⟩) l [id] x)

/-! ### Which resets are due -/

theorem reset?_modify {f : Cell → Cell} (keep : ∀ c, (f c).id = c.id ∧ (f c).reset = c.reset)
    (l : Lifecycle) (ids : List ModuleId) (id : ModuleId) :
    (l.modify ids f).reset? id = l.reset? id := by
  rw [reset?, cell?_modify fun c => (keep c).1, Option.bind_map, reset?]
  congr 1
  funext c
  simp only [Function.comp_apply]
  split
  · exact (keep c).2
  · rfl

theorem reset?_modify_other {f : Cell → Cell} (keep : ∀ c, (f c).id = c.id) (l : Lifecycle)
    (other : x ≠ id) : (l.modify [id] f).reset? x = l.reset? x := by
  rw [reset?, cell?_modify_other keep l other, reset?]

theorem reset?_clearReset : (l.clearReset id).reset? id = none := by
  rw [reset?, clearReset, cell?_modify (by intro c; rfl), Option.bind_map]
  cases l.cell? id <;> simp

theorem reset?_scheduleReset {source q : ModuleId}
    (h : (l.scheduleReset id source).reset? id = some q) : q = source := by
  rw [reset?, scheduleReset, cell?_modify (by intro c; rfl), Option.bind_map] at h
  obtain ⟨c, -, same⟩ := Option.bind_eq_some_iff.mp h
  simpa using same.symm

theorem reset?_markRunning : (l.markRunning id).reset? id = none := by
  rw [reset?, cell?_markRunning, Option.bind_map]
  cases l.cell? id with
  | none => rfl
  | some c =>
    simp only [Option.bind_some, Function.comp_apply, if_true]
    split <;> rfl

theorem reset?_markRunning_other (other : x ≠ id) : (l.markRunning id).reset? x = l.reset? x :=
  (reset?_modify (by intro c; exact ⟨rfl, rfl⟩) _ _ x).trans
    (reset?_modify_other (by intro c; rfl) l other)

theorem reset?_markStopped : (l.markStopped id).reset? x = l.reset? x :=
  (reset?_modify (by intro c; exact ⟨rfl, rfl⟩) _ _ x).trans
    (reset?_modify (by intro c; exact ⟨rfl, rfl⟩) l [id] x)

theorem reset?_scheduleDownstreamReset (l : Lifecycle) (id x : ModuleId) :
    (l.scheduleDownstreamReset id).reset? x =
      if x ∈ l.consumers id ∧ l.isRunning x = true then some id else l.reset? x := by
  rw [reset?, scheduleDownstreamReset, cell?_modify (by intro c; split <;> rfl), Option.bind_map,
    isRunning, status?, reset?]
  cases l.cell? x with
  | none => simp
  | some c =>
    by_cases consumer : x ∈ l.consumers id <;> by_cases running : c.status = .running <;>
      simp [consumer, running]

/-! ### Steps -/

theorem has_of_nextStep (h : l.nextStep id ≠ .idle) : l.has id = true := by
  rw [has, Option.isSome_iff_ne_none]
  intro absent
  rw [nextStep, absent] at h
  exact h rfl

theorem nextStep_of_unwanted (running : l.isRunning id = true) (unwanted : l.wants id = false) :
    l.nextStep id = .stop := by
  obtain ⟨c, found, status⟩ := isRunning_iff.mp running
  have idle : c.wanted = false := by simpa [wants, found] using unwanted
  simp only [nextStep, found, status, idle]

inductive Due (l : Lifecycle) (id : ModuleId) : Step → Prop where
  | idle : l.isRunning id = false →
    l.wants id = false ∨ (∃ p ∈ l.producers id, l.isRunning p = false) → Due l id .idle
  | start : l.isRunning id = false → l.wants id = true →
    (∀ p ∈ l.producers id, l.isRunning p = true) → Due l id .start
  | stop : l.isRunning id = true → l.wants id = false → Due l id .stop
  | run : l.isRunning id = true → l.wants id = true → Due l id .run

theorem due_nextStep (l : Lifecycle) (id : ModuleId) : Due l id (l.nextStep id) := by
  unfold nextStep
  split
  · rename_i found
    exact .idle (by simp [isRunning, status?, found]) (Or.inl (by simp [wants, found]))
  · rename_i c found
    have running : l.isRunning id = (c.status == .running) := by simp [isRunning, status?, found]
    have wanted : l.wants id = c.wanted := by simp [wants, found]
    have producers : l.producers id = c.producers := by simp [producers, found]
    split
    · rename_i status wish
      exact .run (by simp [running, status]) (wanted.trans wish)
    · rename_i status wish
      exact .stop (by simp [running, status]) (wanted.trans wish)
    · rename_i status wish
      split
      · rename_i all
        have fed : ∀ p ∈ l.producers id, l.isRunning p = true := by simpa [producers] using all
        exact .start (by simp [running, status]) (wanted.trans wish) fed
      · rename_i waiting
        exact .idle (by simp [running, status]) (Or.inr (by simpa [producers] using waiting))
    · rename_i status wish
      exact .idle (by simp [running, status]) (Or.inl (wanted.trans wish))

theorem nextStep_start (h : l.nextStep id = .start) :
    l.isRunning id = false ∧ ∀ p ∈ l.producers id, l.isRunning p = true := by
  have due := h ▸ due_nextStep l id
  cases due with
  | start stopped _ fed => exact ⟨stopped, fed⟩

theorem wants_of_start (h : l.nextStep id = .start) : l.wants id = true := by
  have due := h ▸ due_nextStep l id
  cases due with
  | start _ wanted _ => exact wanted

theorem nextStep_eq_start : l.nextStep id = .start ↔
    l.isRunning id = false ∧ l.wants id = true ∧ ∀ p ∈ l.producers id, l.isRunning p = true := by
  constructor
  · intro next
    exact ⟨(nextStep_start next).1, wants_of_start next, (nextStep_start next).2⟩
  · rintro ⟨stopped, wanted, fed⟩
    have due := due_nextStep l id
    generalize l.nextStep id = step at due ⊢
    cases due with
    | start => rfl
    | idle _ waits =>
      rcases waits with unwanted | ⟨p, feeds, down⟩
      · rw [wanted] at unwanted
        cases unwanted
      · rw [fed p feeds] at down
        cases down
    | stop running _ =>
      rw [stopped] at running
      cases running
    | run running _ =>
      rw [stopped] at running
      cases running

theorem nextStep_stop (h : l.nextStep id = .stop) :
    l.isRunning id = true ∧ l.wants id = false := by
  have due := h ▸ due_nextStep l id
  cases due with
  | stop running unwanted => exact ⟨running, unwanted⟩

theorem nextStep_run (h : l.nextStep id = .run) :
    l.isRunning id = true ∧ l.wants id = true := by
  have due := h ▸ due_nextStep l id
  cases due with
  | run running wanted => exact ⟨running, wanted⟩

theorem nextStep_idle (h : l.nextStep id = .idle) : l.isRunning id = false := by
  have due := h ▸ due_nextStep l id
  cases due with
  | idle stopped _ => exact stopped

theorem waits_of_idle (h : l.nextStep id = .idle) :
    l.wants id = false ∨ ∃ p ∈ l.producers id, l.isRunning p = false := by
  have due := h ▸ due_nextStep l id
  cases due with
  | idle _ waits => exact waits

end EventFlow.Lifecycle

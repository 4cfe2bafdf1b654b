import EventFlow.Proofs.Engine.Safety

/-!
What modules know of their parameters. A history has the changes of parameters and the calls, the
latest first; `Informed` says that every call sees the parameters as they are, and that no module
runs after a change that it has not been told. `Briefed` is the invariant behind it: what is pending
for a running module is what has changed since it was told.
-/

namespace EventFlow

inductive Note where
  | set (id : ModuleId) (key : String) (value : ParamValue)
  | call (c : Call)

def Call.Tells (c : Call) : Prop := c.callback = .init ∨ c.callback = .config

instance (c : Call) : Decidable c.Tells := inferInstanceAs (Decidable (_ ∨ _))

/-- The parameters of a module after a history, from those at the start. -/
def paramsAfter (first : Params) (id : ModuleId) : List Note → Params
  | [] => first
  | .set x key value :: h =>
    if x = id then Table.put key value (paramsAfter first id h) else paramsAfter first id h
  | .call _ :: h => paramsAfter first id h

/-- The parameters in the latest init or config of a module that succeeded. -/
def told? (id : ModuleId) : List Note → Option Params
  | [] => none
  | .set .. :: h => told? id h
  | .call c :: h =>
    if c.caller = id ∧ c.Tells ∧ c.Succeeds then some c.context.params else told? id h

/-- A parameter of the module was set since its latest init or config, however that ended. -/
def changed (id : ModuleId) : List Note → Bool
  | [] => false
  | .set x _ _ :: h => x = id || changed id h
  | .call c :: h => if c.caller = id ∧ c.Tells then false else changed id h

/-- Every call sees the parameters as they are. A module runs on those that it was told last, with
no change since, and it is told only of a change. -/
def Informed (first : ModuleId → Params) : List Note → Prop
  | [] => True
  | .set .. :: h => Informed first h
  | .call c :: h =>
    c.context.params = paramsAfter (first c.caller) c.caller h ∧
    (c.callback = .run → told? c.caller h = some c.context.params ∧ changed c.caller h = false) ∧
    (c.callback = .config → changed c.caller h = true) ∧
    Informed first h

variable {id x : ModuleId} {c : Call} {h : List Note}

theorem told?_quiet (quiet : ¬ (c.caller = id ∧ c.Tells)) : told? id (.call c :: h) = told? id h :=
  if_neg fun ⟨own, tells, _⟩ => quiet ⟨own, tells⟩

theorem changed_quiet (quiet : ¬ (c.caller = id ∧ c.Tells)) :
    changed id (.call c :: h) = changed id h := if_neg quiet

theorem changed_set_other {key : String} {value : ParamValue} (other : x ≠ id) :
    changed id (.set x key value :: h) = changed id h := by
  simp [changed, other]

theorem changed_calls {calls : List Call} (others : ∀ c ∈ calls, c.caller ≠ id) :
    changed id (calls.map .call ++ h) = changed id h := by
  induction calls with
  | nil => rfl
  | cons c calls ih =>
    obtain ⟨other, others⟩ := List.forall_mem_cons.mp others
    exact (changed_quiet fun own => other own.1).trans (ih others)

namespace Engine

variable {M : Type} {plan : Plan} {e e' : Engine M} {m : Member M} {l l' : Lifecycle}
  {first : ModuleId → Params} {past : List Note} {busy : List ModuleId}

def entryOf? (e : Engine M) (id : ModuleId) : Option ModuleEntry := (e.member? id).map (·.entry)

theorem entryOf?_of_members (same : e'.members.map (fun m => (m.entry, m.routes)) =
    e.members.map fun m => (m.entry, m.routes)) (id : ModuleId) :
    e'.entryOf? id = e.entryOf? id := by
  have found := congrArg (Option.map Prod.fst) ((member?_map e' id).trans
    ((congrArg _ same).trans (member?_map e id).symm))
  simpa [entryOf?, Option.map_map, Function.comp_def] using found

theorem entryOf?_modifyMember {f : Member M → Member M}
    (keep : ∀ m, (f m).entry = m.entry ∧ (f m).routes = m.routes) (e : Engine M) (id x : ModuleId) :
    (e.modifyMember id f).entryOf? x = e.entryOf? x :=
  entryOf?_of_members (members_modifyMember keep e id) x

theorem entryOf?_setModule (e : Engine M) (id : ModuleId) (module : M) (x : ModuleId) :
    (e.setModule id module).entryOf? x = e.entryOf? x :=
  entryOf?_modifyMember (by intro m; exact ⟨rfl, rfl⟩) e id x

theorem entryOf?_of_member (found : e.member? id = some m) : e.entryOf? id = some m.entry := by
  rw [entryOf?, found, Option.map_some]

theorem entryOf?_id {entry : ModuleEntry} (found : e.entryOf? id = some entry) : entry.id = id := by
  obtain ⟨m, there, rfl⟩ := Option.map_eq_some_iff.mp found
  exact member?_id there

/-- What a running module knows: a change is pending, or it was told the parameters as they are. -/
structure Knows (first : ModuleId → Params) (h : List Note) (l : Lifecycle) (id : ModuleId) :
    Prop where
  told : changed id h = false → told? id h = some (paramsAfter (first id) id h)
  pending : l.configPending id = changed id h

/-- All modules that run know of their parameters, those that are busy with their turn excepted. -/
structure Briefed (first : ModuleId → Params) (busy : List ModuleId) (h : List Note)
    (e : Engine M) : Prop where
  informed : Informed first h
  params : ∀ id entry, e.entryOf? id = some entry → entry.params = paramsAfter (first id) id h
  knows : ∀ x, x ∉ busy → e.lifecycle.isRunning x = true → Knows first h e.lifecycle x

theorem Briefed.begin (h : Briefed first [] past e) (id : ModuleId) : Briefed first [id] past e :=
  ⟨h.informed, h.params, fun x _ => h.knows x List.not_mem_nil⟩

theorem Briefed.finish (h : Briefed first [id] past e)
    (own : e.lifecycle.isRunning id = true → Knows first past e.lifecycle id) :
    Briefed first [] past e := by
  refine ⟨h.informed, h.params, fun x _ running => ?_⟩
  by_cases same : x = id
  · subst same
    exact own running
  · exact h.knows x (by simpa using same) running

/-! ### Calls -/

structure Called (e : Engine M) (id : ModuleId) (c : Call) (e' : Engine M) : Prop where
  entry : e.entryOf? id = some c.context.entry
  entries : ∀ x, e'.entryOf? x = e.entryOf? x
  running : ∀ x, x ≠ id → e'.lifecycle.isRunning x = e.lifecycle.isRunning x
  pending : ∀ x, x ≠ id → e'.lifecycle.configPending x = e.lifecycle.configPending x
  journal : e'.journal = c :: e.journal

theorem Called.caller (called : Called e id c e') : c.caller = id := entryOf?_id called.entry

theorem Briefed.call (h : Briefed first [id] past e) (called : Called e id c e')
    (run : c.callback = .run → Knows first past e.lifecycle id ∧ changed id past = false)
    (config : c.callback = .config → changed id past = true) :
    Briefed first [id] (.call c :: past) e' := by
  have caller := called.caller
  have params : c.context.params = paramsAfter (first id) id past :=
    h.params id _ called.entry
  refine ⟨⟨caller ▸ params, ?_, caller ▸ config, h.informed⟩, ?_, ?_⟩
  · intro runs
    obtain ⟨knows, same⟩ := run runs
    rw [caller, params]
    exact ⟨knows.told same, same⟩
  · intro x entry found
    exact h.params x entry (called.entries x ▸ found)
  · intro x other running
    have other : x ≠ id := by simpa using other
    have quiet : ¬ (c.caller = x ∧ c.Tells) := fun own => other (own.1.symm.trans caller)
    obtain ⟨told, pending⟩ := h.knows x (by simpa using other) (called.running x other ▸ running)
    refine ⟨?_, ?_⟩
    · rw [changed_quiet quiet, told?_quiet quiet]
      exact told
    · rw [changed_quiet quiet, called.pending x other]
      exact pending

theorem Knows.of_told (h : Briefed first [id] past e) (called : Called e id c e') (tells : c.Tells)
    (fine : c.Succeeds) (clear : e'.lifecycle.configPending id = false) :
    Knows first (.call c :: past) e'.lifecycle id := by
  have caller := called.caller
  have params : c.context.params = paramsAfter (first id) id past := h.params id _ called.entry
  have told : told? id (.call c :: past) = some c.context.params := if_pos ⟨caller, tells, fine⟩
  have unchanged : changed id (.call c :: past) = false := if_pos ⟨caller, tells⟩
  exact ⟨fun _ => told.trans (congrArg some params), clear.trans unchanged.symm⟩

theorem Knows.quiet (h : Knows first past l id) (quiet : ¬ c.Tells)
    (same : l'.configPending id = l.configPending id) :
    Knows first (.call c :: past) l' id := by
  have quiet : ¬ (c.caller = id ∧ c.Tells) := fun own => quiet own.2
  refine ⟨?_, ?_⟩
  · rw [changed_quiet quiet, told?_quiet quiet]
    exact h.told
  · rw [changed_quiet quiet, same]
    exact h.pending

/-! ### Commands -/

theorem Briefed.of_lifecycle (h : Briefed first busy past e) (members : e'.members = e.members)
    (running : ∀ x, e'.lifecycle.isRunning x = e.lifecycle.isRunning x)
    (pending : ∀ x, e'.lifecycle.configPending x = e.lifecycle.configPending x) :
    Briefed first busy past e' := by
  refine ⟨h.informed, fun x entry found => ?_, fun x idle up => ?_⟩
  · have same : e'.entryOf? x = e.entryOf? x := by
      rw [entryOf?, entryOf?, member?, member?, members]
    exact h.params x entry (same ▸ found)
  · obtain ⟨told, same⟩ := h.knows x idle (running x ▸ up)
    exact ⟨told, (pending x).trans same⟩

theorem entryOf?_setParam (e : Engine M) (id : ModuleId) (key : String) (value : ParamValue)
    (x : ModuleId) : (e.setParam id key value).entryOf? x = (e.entryOf? x).map fun entry =>
      if x = id then { entry with params := Table.put key value entry.params } else entry := by
  have keep : ∀ m : Member M, (if m.entry.id = id then
      { m with entry := { m.entry with params := Table.put key value m.entry.params } }
      else m).entry.id = m.entry.id := by
    intro m
    split <;> rfl
  simp only [entryOf?, member?, setParam, Engine.mapLifecycle, modifyMember, List.find?_map,
    Function.comp_def, keep, Option.map_map]
  cases found : e.members.find? fun m => m.entry.id == x with
  | none => rfl
  | some m =>
    have own : m.entry.id = x := member?_id found
    simp only [Option.map_some, own]
    split <;> rfl

theorem Briefed.set (h : Briefed first [] past e) (id : ModuleId) (key : String)
    (value : ParamValue) :
    Briefed first [] (.set id key value :: past) (e.setParam id key value) := by
  have running (x : ModuleId) : (e.setParam id key value).lifecycle.isRunning x =
      e.lifecycle.isRunning x := Lifecycle.isRunning_modify (by intro c; exact ⟨rfl, rfl⟩) _ [id] x
  refine ⟨h.informed, fun x entry found => ?_, fun x _ up => ?_⟩
  · rw [entryOf?_setParam] at found
    obtain ⟨before, there, rfl⟩ := Option.map_eq_some_iff.mp found
    have params := h.params x before there
    by_cases same : x = id
    · subst same
      simp [paramsAfter, params]
    · simp [paramsAfter, params, same, Ne.symm same]
  · rw [running] at up
    obtain ⟨told, pending⟩ := h.knows x List.not_mem_nil up
    by_cases same : x = id
    · subst same
      obtain ⟨c, found, -⟩ := Lifecycle.isRunning_iff.mp up
      have has : e.lifecycle.has x = true := by rw [Lifecycle.has, found, Option.isSome_some]
      have due : changed x (.set x key value :: past) = true := by simp [changed]
      refine ⟨fun unchanged => ?_, (Lifecycle.configPending_scheduleConfig has).trans due.symm⟩
      rw [due] at unchanged
      cases unchanged
    · have other : (e.setParam id key value).lifecycle.configPending x =
          e.lifecycle.configPending x :=
        Lifecycle.configPending_modify_other (by intro c; rfl) _ same
      refine ⟨?_, ?_⟩
      · rw [changed_set_other (Ne.symm same), paramsAfter, if_neg (Ne.symm same)]
        exact told
      · rw [changed_set_other (Ne.symm same), other]
        exact pending

theorem Briefed.absent (h : Briefed first [] past e) (absent : e.entryOf? id = none)
    (down : ¬ e.lifecycle.isRunning id = true) (key : String) (value : ParamValue) :
    Briefed first [] (.set id key value :: past) e := by
  refine ⟨h.informed, fun x entry found => ?_, fun x idle up => ?_⟩
  · have other : id ≠ x := by
      rintro rfl
      rw [absent] at found
      cases found
    rw [paramsAfter, if_neg other]
    exact h.params x entry found
  · have other : id ≠ x := by
      rintro rfl
      exact down up
    obtain ⟨told, pending⟩ := h.knows x idle up
    refine ⟨?_, ?_⟩
    · rw [changed_set_other other, paramsAfter, if_neg other]
      exact told
    · rw [changed_set_other other]
      exact pending

/-! ### Turns -/

def story (past : List Note) (e : Engine M) : List Note := e.journal.map .call ++ past

theorem Called.story (called : Called e id c e') (past : List Note) :
    e'.story past = .call c :: e.story past := by
  rw [Engine.story, called.journal]
  rfl

structure Abreast (first : ModuleId → Params) (past : List Note) (id : ModuleId) (e : Engine M) :
    Prop where
  briefed : Briefed first [] (e.story past) e
  unchanged : e.lifecycle.isRunning id = true → changed id (e.story past) = false

structure Told (first : ModuleId → Params) (past : List Note) (id : ModuleId) (t : Turn M) :
    Prop where
  briefed : Briefed first [id] (t.engine.story past) t.engine
  knows : t.failure = none → Knows first (t.engine.story past) t.engine.lifecycle id ∧
    changed id (t.engine.story past) = false

def Aside (e : Engine M) (id : ModuleId) (e' : Engine M) : Prop :=
  e' = e ∨ ∃ c, Called e id c e' ∧ ¬ c.Tells ∧
    e'.lifecycle.configPending id = e.lifecycle.configPending id

theorem recorded_aside (module : M) (slots : Slots) (p : Prop) [Decidable p]
    (entry : e.entryOf? id = some c.context.entry) (quiet : ¬ c.Tells) :
    let recorded := { e.setModule id module with slots }.record c
    Aside e id
      (if p then recorded.mapLifecycle (·.scheduleDownstreamReset id) else recorded) := by
  intro recorded
  have entries : ∀ x, recorded.entryOf? x = e.entryOf? x := entryOf?_setModule e id module
  right
  split
  · refine ⟨c, ⟨entry, entries, fun x _ => ?_, fun x _ => ?_, rfl⟩, quiet, ?_⟩
    · exact Lifecycle.isRunning_modify (by intro c; split <;> exact ⟨rfl, rfl⟩) _ _ x
    · exact Lifecycle.configPending_modify (by intro c; split <;> exact ⟨rfl, rfl⟩) _ _ x
    · exact Lifecycle.configPending_modify (by intro c; split <;> exact ⟨rfl, rfl⟩) _ _ id
  · exact ⟨c, ⟨entry, entries, fun _ _ => rfl, fun _ _ => rfl, rfl⟩, quiet, rfl⟩

/-- The rest of a turn, in which a module that knows of all changes may run. -/
theorem Told.next {t : Turn M} (told : Told first past id t)
    {f : Member M → Engine M → Signals → Turn M}
    (aside : ∀ {e : Engine M} {m} s, e.member? id = some m → Aside e id (f m e s).engine) :
    Told first past id (t.next (forMember id f)) := by
  unfold Turn.next
  split
  · exact told
  · rename_i ok
    obtain ⟨knows, unchanged⟩ := told.knows (by simpa using ok)
    unfold forMember
    split
    · rename_i m found
      rcases aside t.signals found with same | ⟨c, called, quiet, pending⟩
      · refine ⟨?_, fun _ => ?_⟩
        · rw [same]
          exact told.briefed
        · rw [same]
          exact ⟨knows, unchanged⟩
      · have calm : ¬ (c.caller = id ∧ c.Tells) := fun own => quiet own.2
        refine ⟨?_, fun _ => ?_⟩
        · rw [called.story]
          exact told.briefed.call called (fun _ => ⟨knows, unchanged⟩)
            fun config => absurd (Or.inr config) quiet
        · rw [called.story, changed_quiet calm]
          exact ⟨knows.quiet quiet pending, unchanged⟩
    · exact ⟨told.briefed, fun _ => ⟨knows, unchanged⟩⟩

variable [Behaviour M]

theorem start_abreast (now : Moment) (s : Signals) (found : e.member? id = some m)
    (stopped : e.lifecycle.isRunning id = false) (h : Briefed first [] (e.story past) e) :
    Abreast first past id (start now m e s).1 := by
  obtain rfl := member?_id found
  unfold start
  dsimp only
  split
  · rename_i fine
    generalize started : Engine.mapLifecycle _ _ = e'
    have called : ∃ c, Called e m.entry.id c e' ∧ c.callback = .init ∧ c.Succeeds := by
      subst started
      refine ⟨_, ⟨entryOf?_of_member found, fun x => ?_, ?_, ?_, rfl⟩, rfl,
        Outcome.failure?_eq_none.mp fine, by simp⟩
      · exact (entryOf?_modifyMember (by intro m; exact ⟨rfl, rfl⟩) _ _ x).trans
          (entryOf?_setModule e _ _ x)
      · exact fun x other => Lifecycle.isRunning_markRunning_of_ne other
      · exact fun x other => Lifecycle.configPending_markRunning_other other
    obtain ⟨c, called, init, fine⟩ := called
    have clear : e'.lifecycle.configPending m.entry.id = false := by
      subst started
      exact Lifecycle.configPending_markRunning
    have tells : c.Tells := Or.inl init
    have knows := Knows.of_told (h.begin _) called tells fine clear
    have briefed := (h.begin _).call called (by simp [init]) (by simp [init])
    refine ⟨?_, fun _ => ?_⟩
    · rw [called.story]
      exact briefed.finish fun _ => knows
    · rw [called.story, ← knows.pending, clear]
  · generalize failed : Engine.modifyMember _ _ _ = e'
    have called : ∃ c, Called e m.entry.id c e' ∧ c.callback = .init := by
      subst failed
      refine ⟨_, ⟨entryOf?_of_member found, fun x => ?_, fun _ _ => rfl, fun _ _ => rfl, rfl⟩, rfl⟩
      exact (entryOf?_modifyMember (by intro m; exact ⟨rfl, rfl⟩) _ _ x).trans
        (entryOf?_setModule e _ _ x)
    obtain ⟨c, called, init⟩ := called
    have down : ¬ e'.lifecycle.isRunning m.entry.id = true := by
      subst failed
      exact Bool.eq_false_iff.mp stopped
    have briefed := (h.begin _).call called (by simp [init]) (by simp [init])
    refine ⟨?_, fun running => absurd running down⟩
    rw [called.story]
    exact briefed.finish fun running => absurd running down

theorem stop_abreast (now : Moment) (s : Signals) (found : e.member? id = some m)
    (h : Briefed first [id] (e.story past) e) : Abreast first past id (stop now m e s).1 := by
  obtain rfl := member?_id found
  have called : ∃ c, Called e m.entry.id c (stop now m e s).1 ∧ c.callback = .exit := by
    refine ⟨_, ⟨entryOf?_of_member found, entryOf?_setModule e _ _, ?_, ?_, rfl⟩, rfl⟩
    · exact fun x other => Lifecycle.isRunning_markStopped_of_ne other
    · exact fun x _ => Lifecycle.configPending_markStopped
  have down : ¬ (stop now m e s).1.lifecycle.isRunning m.entry.id = true := fun running =>
    (Lifecycle.isRunning_markStopped.mp running).2 rfl
  obtain ⟨c, called, exit⟩ := called
  have briefed := h.call called (by simp [exit]) (by simp [exit])
  refine ⟨?_, fun running => absurd running down⟩
  rw [called.story]
  exact briefed.finish fun running => absurd running down

theorem configTurn_told (now : Moment) (s : Signals) (found : e.member? id = some m)
    (h : Briefed first [id] (e.story past) e)
    (knows : Knows first (e.story past) e.lifecycle id) :
    Told first past id (configTurn now m e s) := by
  obtain rfl := member?_id found
  unfold configTurn
  split
  · rename_i pending
    generalize turn : Turn.mk _ _ _ = t
    have called : ∃ c, Called e m.entry.id c t.engine ∧ c.callback = .config ∧
        (t.failure = none → c.Succeeds) := by
      subst turn
      refine ⟨_, ⟨entryOf?_of_member found, entryOf?_setModule e _ _, ?_, ?_, rfl⟩, rfl,
        fun fine => ⟨Outcome.failure?_eq_none.mp (Option.map_eq_none_iff.mp fine), by simp⟩⟩
      · exact fun x _ => Lifecycle.isRunning_modify (by intro c; exact ⟨rfl, rfl⟩) _ _ x
      · exact fun x other => Lifecycle.configPending_modify_other (by intro c; rfl) _ other
    obtain ⟨c, called, config, fine⟩ := called
    have clear : t.engine.lifecycle.configPending m.entry.id = false := by
      subst turn
      exact Lifecycle.configPending_clearConfig
    have due : changed m.entry.id (e.story past) = true := knows.pending ▸ pending
    refine ⟨?_, fun ok => ?_⟩
    · rw [called.story]
      exact h.call called (by simp [config]) fun _ => due
    · have knows := Knows.of_told h called (Or.inr config) (fine ok) clear
      rw [called.story]
      exact ⟨knows, knows.pending.symm.trans clear⟩
  · rename_i settled
    have unchanged : changed m.entry.id (e.story past) = false := by
      rw [← knows.pending]
      simpa using settled
    exact ⟨h, fun _ => ⟨knows, unchanged⟩⟩

theorem runTurn_aside (now : Moment) (s : Signals) (found : e.member? id = some m) :
    Aside e id (runTurn now m e s).engine := by
  obtain rfl := member?_id found
  unfold runTurn
  dsimp only
  split
  · exact Or.inl rfl
  · exact recorded_aside _ _ _ (entryOf?_of_member found) (by simp [Call.Tells])

theorem resetTurn_aside (now : Moment) (s : Signals) (found : e.member? id = some m) :
    Aside e id (resetTurn now m e s).engine := by
  obtain rfl := member?_id found
  unfold resetTurn
  split
  · exact Or.inl rfl
  · right
    refine ⟨_, ⟨entryOf?_of_member found, entryOf?_setModule e _ _, ?_, ?_, rfl⟩, ?_, ?_⟩
    · exact fun x _ => Lifecycle.isRunning_modify (by intro c; exact ⟨rfl, rfl⟩) _ _ x
    · exact fun x _ => Lifecycle.configPending_modify (by intro c; exact ⟨rfl, rfl⟩) _ _ x
    · simp [Call.Tells]
    · exact Lifecycle.configPending_modify (by intro c; exact ⟨rfl, rfl⟩) _ _ _

theorem run_abreast (now : Moment) (s : Signals) (found : e.member? id = some m)
    (running : e.lifecycle.isRunning id = true) (h : Briefed first [] (e.story past) e) :
    Abreast first past id (run now id e s).1 := by
  have knows := h.knows id List.not_mem_nil running
  have config : Told first past id (forMember id (configTurn now) e s) := by
    simp only [forMember, found]
    exact configTurn_told now s found (h.begin id) knows
  have told : Told first past id (callbacks now id e s) :=
    (config.next fun s found => runTurn_aside now s found).next
      fun s found => resetTurn_aside now s found
  obtain ⟨calls, part, -⟩ := callbacks_part now e s found
  obtain ⟨m', again, -⟩ := part.framed.member? found
  unfold run
  dsimp only
  generalize callbacks now id e s = t at told again
  cases failure : t.failure with
  | some error =>
    simp only [again]
    exact stop_abreast now _ again told.briefed
  | none =>
    obtain ⟨knows, unchanged⟩ := told.knows failure
    exact ⟨told.briefed.finish fun _ => knows, fun _ => unchanged⟩

theorem step_abreast (now : Moment) (s : Signals) (found : e.member? id = some m)
    (h : Briefed first [] (e.story past) e) : Abreast first past id (step now e s id).1 := by
  simp only [step, found]
  have found : (e.fillCopies m.routes).member? id = some m := found
  have h : Briefed first [] ((e.fillCopies m.routes).story past) (e.fillCopies m.routes) :=
    ⟨h.informed, h.params, h.knows⟩
  generalize e.fillCopies m.routes = e at found h
  split
  · rename_i next
    have stopped := Lifecycle.nextStep_idle next
    exact ⟨h, fun running => by simp [stopped] at running⟩
  · rename_i next
    exact start_abreast now s found (Lifecycle.nextStep_start next).1 h
  · exact stop_abreast now s found (h.begin id)
  · rename_i next
    exact run_abreast now s found (Lifecycle.nextStep_run next).1 h

/-! ### Ticks -/

/-- In the middle of a tick: who runs and has had its turn knows of all changes. -/
structure Briefing (first : ModuleId → Params) (past : List Note) (rest : List ModuleId)
    (e : Engine M) : Prop where
  briefed : Briefed first [] (e.story past) e
  unchanged : ∀ x, x ∉ rest → e.lifecycle.isRunning x = true → changed x (e.story past) = false

theorem Briefing.next {rest : List ModuleId} (now : Moment) (s : Signals) {routes : Routes}
    {calls : List Call} (found : e.member? id = some m)
    (stepped : Stepped e id routes (step now e s id).1 calls)
    (h : Briefing first past (id :: rest) e) : Briefing first past rest (step now e s id).1 := by
  obtain ⟨briefed, own⟩ := step_abreast now s found h.briefed
  refine ⟨briefed, fun x visited running => ?_⟩
  by_cases same : x = id
  · subst same
    exact own running
  · have others : ∀ c ∈ calls, c.caller ≠ x := fun c mem own =>
      same (own.symm.trans (stepped.made c mem).caller)
    have after : (step now e s id).1.story past = calls.map .call ++ e.story past := by
      rw [story, stepped.journal, List.map_append, List.append_assoc]
      rfl
    rw [after, changed_calls others]
    exact h.unchanged x (List.not_mem_cons_of_ne_of_not_mem same visited)
      (stepped.isRunning_other same ▸ running)

theorem tick_briefing (now : Moment) (s : Signals) (sequenced : plan.Sequenced)
    (fits : Fits plan e) (h : Briefed first [] past e) :
    Briefing first past [] (e.tick now s).1 := by
  have start : Briefing first past plan.order { e with journal := [] } := by
    refine ⟨⟨h.informed, h.params, h.knows⟩, fun x absent running => ?_⟩
    exact absurd (fits.mem_order running) absent
  obtain ⟨last, ⟨briefed, unchanged⟩, -, same⟩ := tick_induction now s sequenced fits start
    fun _ _ _ _ s _ _ _ _ h found stepped => h.next now s found stepped
  rw [same]
  exact ⟨⟨briefed.informed, briefed.params, briefed.knows⟩, unchanged⟩

end Engine
end EventFlow

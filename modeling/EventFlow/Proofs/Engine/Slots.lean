import EventFlow.Proofs.Engine.Layout

/-!
What becomes of single slots: when copies are filled, when a run leaves its inputs, and when packets
are placed. `Ticked` is a tick as far as its slots and calls go.
-/

namespace EventFlow.Engine

variable {slots : Slots} {s : Slot}

theorem set_self (slots : Slots) (s : Slot) (p : Option Packet) : slots.set s p s = p := if_pos rfl

theorem set_other {s' : Slot} (h : s ≠ s') (p : Option Packet) : slots.set s' p s = slots s :=
  if_neg h

/-! ### Copies -/

section
variable {inputs : List InputRoute}

theorem filled_other (h : ∀ r ∈ inputs, r.copyFrom ≠ none → r.slot ≠ s) :
    filled inputs slots s = slots s := by
  induction inputs generalizing slots with
  | nil => rfl
  | cons r inputs ih =>
    obtain ⟨head, tail⟩ := List.forall_mem_cons.mp h
    rw [filled, List.foldl_cons]
    refine (ih tail).trans ?_
    cases copied : r.copyFrom with
    | none => rfl
    | some s' => exact set_other (head (by simp [copied])).symm _

/-- Copies do not disturb each other when none is made from another or into the same slot. -/
theorem filled_copy (apart : (inputs.map (·.slot)).Nodup) {r : InputRoute} (mem : r ∈ inputs)
    (copied : r.copyFrom = some s) (outside : ∀ r ∈ inputs, r.copyFrom ≠ none → r.slot ≠ s) :
    filled inputs slots r.slot = slots s := by
  induction inputs generalizing slots with
  | nil => cases mem
  | cons a inputs ih =>
    rw [List.map_cons, List.nodup_cons] at apart
    obtain ⟨head, tail⟩ := List.forall_mem_cons.mp outside
    rw [filled, List.foldl_cons]
    rcases List.mem_cons.mp mem with rfl | later
    · refine (filled_other fun r' hr' _ same => ?_).trans ?_
      · exact apart.1 (same ▸ List.mem_map_of_mem hr')
      · simp only [copied]
        exact set_self _ _ _
    · refine (ih apart.2 later tail).trans ?_
      cases from_ : a.copyFrom with
      | none => rfl
      | some s' => exact set_other (head (by simp [from_])).symm _

end

/-! ### Inputs -/

def arrived (slots : Slots) (inputs : List InputRoute) : List (InputRoute × Packet) :=
  inputs.filterMap fun r => (slots r.slot).map fun packet => (r, packet)

def toInput (a : InputRoute × Packet) : Input := { packet := a.2, writable := a.1.writable }

theorem mem_arrived {inputs : List InputRoute} {a : InputRoute × Packet} :
    a ∈ arrived slots inputs ↔ a.1 ∈ inputs ∧ slots a.1.slot = some a.2 := by
  simp only [arrived, List.mem_filterMap, Option.map_eq_some_iff]
  constructor
  · rintro ⟨r, mem, packet, there, rfl⟩
    exact ⟨mem, there⟩
  · rintro ⟨mem, there⟩
    exact ⟨a.1, mem, a.2, there, rfl⟩

theorem arrived_sublist (slots : Slots) (inputs : List InputRoute) :
    ((arrived slots inputs).map (·.1)).Sublist inputs := by
  induction inputs with
  | nil => exact .slnil
  | cons r inputs ih =>
    rw [arrived, List.filterMap_cons]
    cases slots r.slot with
    | none => exact ih.cons r
    | some packet => exact ih.cons_cons r

theorem present_eq (slots : Slots) (routes : Routes) : present slots routes =
    (arrived slots routes.inputs).map fun a => (a.1.slot, toInput a) := by
  simp only [present, arrived, List.map_filterMap, Option.map_map, Function.comp_def, toInput]

theorem putAll_eq {packets : List (Slot × Packet)} (apart : (packets.map (·.1)).Nodup) :
    putAll packets slots s = (packets.lookup s).or (slots s) := by
  induction packets generalizing slots with
  | nil => rfl
  | cons p packets ih =>
    rw [List.map_cons, List.nodup_cons] at apart
    rw [putAll, List.foldl_cons]
    refine (ih apart.2).trans ?_
    by_cases same : s = p.1
    · subst same
      have fresh : packets.lookup p.1 = none := by
        refine List.lookup_eq_none_iff.mpr fun q hq => bne_iff_ne.mpr ?_
        exact fun same => apart.1 (same ▸ List.mem_map_of_mem hq)
      rw [fresh, Option.none_or, set_self, List.lookup_cons_self, Option.some_or]
    · rw [set_other same, List.lookup_cons, beq_eq_false_iff_ne.mpr same]

theorem lookup_zip_none {α β κ : Type} [DecidableEq κ] {l : List α} {g : α → κ} {k : κ}
    (h : ∀ a ∈ l, g a ≠ k) (left : List β) : ((l.map g).zip left).lookup k = none := by
  refine List.lookup_eq_none_iff.mpr fun p hp => bne_iff_ne.mpr ?_
  obtain ⟨a, mem, same⟩ := List.mem_map.mp (List.of_mem_zip hp).1
  exact fun eq => h a mem (same.trans eq.symm)

theorem length_settle (given raw : List Input) :
    (PacketIo.settle given raw).length = given.length := by
  fun_induction PacketIo.settle given raw with
  | case1 => rfl
  | case2 g given ih => rw [List.length_cons, List.length_cons, ih]
  | case3 g given l raw ih => rw [List.length_cons, List.length_cons, ih]

/-- What a run leaves of one input is found under any key that tells the inputs apart, and is what
was given when the input is read-only. -/
theorem lookup_settle {α κ κ' : Type} [DecidableEq κ] [DecidableEq κ'] {l : List α} {f : α → Input}
    {g : α → κ} {g' : α → κ'} (apart : (l.map g).Nodup) (apart' : (l.map g').Nodup)
    (raw : List Input) {a : α} (mem : a ∈ l) :
    ∃ p, ((l.map g).zip (PacketIo.settle (l.map f) raw)).lookup (g a) = some p ∧
      ((l.map g').zip (PacketIo.settle (l.map f) raw)).lookup (g' a) = some p ∧
      ((f a).writable = false → p = (f a).packet) := by
  induction l generalizing raw with
  | nil => cases mem
  | cons b l ih =>
    rw [List.map_cons, List.nodup_cons] at apart apart'
    have settled : ∃ p raw', PacketIo.settle ((b :: l).map f) raw =
        p :: PacketIo.settle (l.map f) raw' ∧ ((f b).writable = false → p = (f b).packet) := by
      cases raw with
      | nil => exact ⟨_, [], rfl, fun _ => rfl⟩
      | cons i raw => exact ⟨_, raw, rfl, fun fixed => by simp [fixed]⟩
    obtain ⟨p, raw', settled, fixed⟩ := settled
    rw [settled, List.map_cons, List.map_cons, List.zip_cons_cons, List.zip_cons_cons]
    rcases List.mem_cons.mp mem with rfl | later
    · exact ⟨p, List.lookup_cons_self, List.lookup_cons_self, fixed⟩
    · have differs : g a ≠ g b := fun same => apart.1 (same ▸ List.mem_map_of_mem later)
      have differs' : g' a ≠ g' b := fun same => apart'.1 (same ▸ List.mem_map_of_mem later)
      rw [List.lookup_cons, List.lookup_cons, beq_eq_false_iff_ne.mpr differs,
        beq_eq_false_iff_ne.mpr differs']
      exact ih apart.2 apart'.2 raw' later

/-! ### Outputs -/

theorem placement_slot {routes : Routes} {t : EventType} (h : routes.placement t = .slot s) :
    (t, some s) ∈ routes.outputs := by
  unfold Routes.placement at h
  split at h
  · rename_i t' s' found
    cases h
    have type : t' = t := by simpa using List.find?_some found
    exact type ▸ List.mem_of_find?_eq_some found
  · cases h
  · cases h

theorem placement_of_mem {routes : Routes} {t : EventType}
    (types : (routes.outputs.map (·.1)).Nodup) (mem : (t, some s) ∈ routes.outputs) :
    routes.placement t = .slot s := by
  have found : routes.outputs.find? (fun o => o.1 == t) = some (t, some s) := by
    generalize routes.outputs = outputs at types mem
    induction outputs with
    | nil => cases mem
    | cons o outputs ih =>
      rw [List.map_cons, List.nodup_cons] at types
      rcases List.mem_cons.mp mem with rfl | later
      · exact List.find?_cons_of_pos (by simp)
      · rw [List.find?_cons_of_neg, ih types.2 later]
        intro same
        have type : o.1 = t := by simpa using same
        exact types.1 (type ▸ List.mem_map_of_mem later)
  rw [Routes.placement, found]

theorem placeAll_other {routes : Routes} (h : ∀ o ∈ routes.outputs, o.2 ≠ some s)
    (packets : List Packet) : placeAll routes packets slots s = slots s := by
  induction packets generalizing slots with
  | nil => rfl
  | cons p packets ih =>
    rw [placeAll, List.foldl_cons]
    refine ih.trans ?_
    cases placed : routes.placement p.type with
    | slot s' =>
      refine set_other (fun same => ?_) _
      exact h _ (placement_slot placed) (by rw [same])
    | unused => rfl
    | undeclared => rfl

theorem placeAll_output {routes : Routes} (types : (routes.outputs.map (·.1)).Nodup)
    (apart : ∀ a ∈ routes.outputs, ∀ b ∈ routes.outputs, a.2 = some s → b.2 = some s → a = b)
    {o : EventType × Option Slot} (mem : o ∈ routes.outputs) (slot : o.2 = some s)
    (packets : List Packet) : placeAll routes packets slots s =
      (packets.filter fun p => p.type = o.1).getLast?.or (slots s) := by
  induction packets generalizing slots with
  | nil => rfl
  | cons p packets ih =>
    rw [placeAll, List.foldl_cons]
    refine ih.trans ?_
    by_cases own : p.type = o.1
    · have placed : routes.placement p.type = .slot s := by
        refine placement_of_mem types ?_
        rwa [own, ← slot]
      rw [List.filter_cons_of_pos (by simpa using own), List.getLast?_cons]
      simp only [placed, set_self]
      cases (packets.filter fun p => p.type = o.1).getLast? <;> rfl
    · rw [List.filter_cons_of_neg (by simpa using own)]
      congr 1
      cases placed : routes.placement p.type with
      | slot s' =>
        refine set_other (fun same => own ?_) _
        rw [apart o mem _ (placement_slot placed) slot (by rw [same])]
      | unused => rfl
      | undeclared => rfl

/-! ### Ticks -/

def runOf? (calls : List Call) (id : ModuleId) : Option Call :=
  calls.find? fun c => c.callback = .run ∧ c.caller = id

theorem runOf?_append (later calls : List Call) (id : ModuleId) :
    runOf? (later ++ calls) id = (runOf? later id).or (runOf? calls id) :=
  List.find?_append

theorem runOf?_eq_none {calls : List Call} {id : ModuleId}
    (h : ∀ c ∈ calls, c.callback = .run → c.caller ≠ id) : runOf? calls id = none :=
  List.find?_eq_none.mpr fun c mem => by simpa using h c mem

theorem RunsOnce.run_cases {before after : Slots} {routes : Routes} {calls : List Call}
    {id : ModuleId} (h : RunsOnce before routes calls after) (own : ∀ c ∈ calls, c.caller = id) :
    (after = before ∧ runOf? calls id = none ∧ ∀ c ∈ calls, c.callback ≠ .run) ∨
    ∃ c, Ran before routes c after ∧ runOf? calls id = some c ∧
      ∀ d ∈ calls, d.callback = .run → d = c := by
  rcases h with ⟨same, calm⟩ | ⟨c, ran, pre, post, rfl, others⟩
  · exact Or.inl ⟨same, runOf?_eq_none fun c mem run => absurd run (calm c mem), calm⟩
  · obtain ⟨first, last⟩ := List.forall_mem_append.mp others
    have none : runOf? pre id = none := runOf?_eq_none fun d mem run => absurd run (first d mem)
    refine Or.inr ⟨c, ran, ?_, fun d mem run => ?_⟩
    · rw [runOf?_append, none, Option.none_or]
      exact List.find?_cons_of_pos (by simp [ran.run, own c (by simp)])
    · rcases List.mem_append.mp mem with before | here
      · exact absurd run (first d before)
      · exact (List.mem_cons.mp here).resolve_right fun after => last d after run

/-- What turns in some order do to the slots, with the calls that they make (the latest first). -/
inductive Ticked : List (ModuleId × Routes) → Slots → List Call → Slots → Prop where
  | nil (slots : Slots) : Ticked [] slots [] slots
  | cons {id : ModuleId} {routes : Routes} {rest : List (ModuleId × Routes)}
    {before between after : Slots} {calls later : List Call} :
    RunsOnce (filled routes.inputs before) routes calls between → (∀ c ∈ calls, c.caller = id) →
    Ticked rest between later after → Ticked ((id, routes) :: rest) before (later ++ calls) after

theorem Ticked.caller {turns : List (ModuleId × Routes)} {before after : Slots} {calls : List Call}
    (h : Ticked turns before calls after) : ∀ c ∈ calls, c.caller ∈ turns.map (·.1) := by
  induction h with
  | nil => simp
  | cons _ own _ ih =>
    refine List.forall_mem_append.mpr ⟨fun c mem => List.mem_cons_of_mem _ (ih c mem), ?_⟩
    intro c mem
    rw [own c mem]
    exact List.mem_cons_self

section
variable {M : Type} [Behaviour M] {plan : Plan} {e : Engine M}

theorem steps_ticked (now : Moment) (sequenced : plan.Sequenced)
    {done rest : List (ModuleId × Routes)} (split : plan.order.zip plan.routes = done ++ rest)
    (seated : Seated plan e) (s : Signals) :
    ∃ calls, (steps now (rest.map (·.1)) e s).1.journal = calls ++ e.journal ∧
      Ticked rest e.slots calls (steps now (rest.map (·.1)) e s).1.slots := by
  induction rest generalizing done e s with
  | nil => exact ⟨[], rfl, .nil _⟩
  | cons turn rest ih =>
    obtain ⟨id, routes⟩ := turn
    obtain ⟨m, found, rfl⟩ := seated.member_at sequenced split
    obtain ⟨calls, stepped⟩ := step_stepped now e s found
    have split' := split.trans (List.append_cons done (id, m.routes) rest)
    obtain ⟨later, journal, ticked⟩ := ih split' (stepped.seated seated) (step now e s id).2
    refine ⟨later ++ calls, ?_, ?_⟩
    · rw [List.map_cons, steps, journal, stepped.journal, List.append_assoc]
    · rw [List.map_cons, steps]
      exact .cons stepped.runs (fun c mem => (stepped.made c mem).caller) ticked

theorem tick_ticked (now : Moment) (s : Signals) (sequenced : plan.Sequenced)
    (seated : Seated plan e) :
    ∃ after, Ticked (plan.order.zip plan.routes) e.slots (e.tick now s).1.journal after := by
  obtain rfl := seated.same
  have fresh : Seated e.plan { e with journal := [] } := ⟨rfl, seated.members⟩
  have whole : e.plan.order.zip e.plan.routes = [] ++ e.plan.order.zip e.plan.routes := rfl
  obtain ⟨calls, journal, ticked⟩ := steps_ticked now sequenced whole fresh s
  rw [List.map_fst_zip (Nat.le_of_eq sequenced.routes.symm), List.append_nil] at journal
  exact ⟨_, journal ▸ ticked⟩

end

end EventFlow.Engine

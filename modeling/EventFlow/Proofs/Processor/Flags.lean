import Mathlib
import EventFlow.Present
import EventFlow.Processor.ScriptFilter
import EventFlow.Proofs.Processor.Filtered

/-!
What the filters do to the packets that they share with other modules: nothing but clear flags, each
of which a counter has counted. A script that fails leaves everything behind the event it failed on.
-/

namespace EventFlow

/-! ### Flags -/

structure Event.Sifted (e e' : Event) : Prop where
  timestamp : e'.timestamp = e.timestamp
  x : e'.x = e.x
  y : e'.y = e.y
  value : e'.value = e.value
  valid : e'.valid = true → e.valid = true

structure Packet.Sifted (p p' : Packet) : Prop where
  source : p'.source = p.source
  type : p'.type = p.type
  events : List.Forall₂ Event.Sifted p.events p'.events

structure Input.Sifted (i i' : Input) : Prop where
  writable : i'.writable = i.writable
  packet : i.packet.Sifted i'.packet
  readOnly : i.writable = false → i' = i

structure PacketIo.Sifted (io io' : PacketIo) : Prop where
  inputs : List.Forall₂ Input.Sifted io.inputs io'.inputs
  outputs : io'.outputs = io.outputs

def Event.lost (es es' : List Event) : Nat := (es.zip es').countP fun p => p.1.valid && !p.2.valid

def Input.events (is : List Input) : List Event := is.flatMap (·.packet.events)

namespace Event

variable {e : Event} {es es' rest rest' : List Event}

theorem sifted_self (e : Event) : e.Sifted e := ⟨rfl, rfl, rfl, rfl, id⟩

instance : Std.Refl Event.Sifted := ⟨sifted_self⟩

theorem sifted_invalidate (e : Event) : e.Sifted e.invalidate :=
  ⟨rfl, rfl, rfl, rfl, fun valid => absurd valid Bool.false_ne_true⟩

theorem lost_append (same : es.length = es'.length) :
    lost (es ++ rest) (es' ++ rest') = lost es es' + lost rest rest' := by
  unfold lost
  rw [List.zip_append same, List.countP_append]

theorem lost_cons (e e' : Event) (es es' : List Event) :
    lost (e :: es) (e' :: es') = lost [e] [e'] + lost es es' := by
  show lost ([e] ++ es) ([e'] ++ es') = _
  exact lost_append rfl

theorem lost_self (es : List Event) : lost es es = 0 := by
  induction es with
  | nil => rfl
  | cons e es ih =>
    have own : lost [e] [e] = 0 := by simp [lost]
    rw [lost_cons, own, ih]

theorem lost_invalidate (valid : e.valid = true) : lost [e] [e.invalidate] = 1 := by
  simp [lost, valid, invalidate]

end Event

theorem Packet.sifted_self (p : Packet) : p.Sifted p :=
  ⟨rfl, rfl, List.forall₂_refl _⟩

theorem Input.sifted_self (i : Input) : i.Sifted i := ⟨rfl, i.packet.sifted_self, fun _ => rfl⟩

instance : Std.Refl Input.Sifted := ⟨Input.sifted_self⟩

/-! ### Changes of events -/

section attempt

variable {σ ε : Type} {count : σ → Nat} {f : σ → Event → σ × Except ε Event}

/-- A change of single events that clears flags and counts them. -/
structure Sifts (count : σ → Nat) (f : σ → Event → σ × Except ε Event) : Prop where
  event : ∀ s e e', (f s e).2 = .ok e' → e.Sifted e' ∧ count (f s e).1 = count s + Event.lost [e] [e']
  failure : ∀ s e error, (f s e).2 = .error error → count (f s e).1 = count s

theorem Sifts.attempt (h : Sifts count f) (s : σ) (es : List Event) :
    List.Forall₂ Event.Sifted es (Event.attempt f s es).2.1 ∧
      count (Event.attempt f s es).1 = count s + Event.lost es (Event.attempt f s es).2.1 := by
  induction es generalizing s with
  | nil => exact ⟨.nil, rfl⟩
  | cons e es ih =>
    have event := h.event s e
    have failure := h.failure s e
    unfold Event.attempt
    split
    · rename_i s' error fails
      rw [fails] at failure
      -- The rest stays as it is, the event that failed with it, and has lost nothing.
      refine ⟨List.forall₂_refl _, ?_⟩
      rw [Event.lost_self]
      exact failure error rfl
    · rename_i s' e' changes
      rw [changes] at event
      obtain ⟨sifted, counted⟩ := event e' rfl
      obtain ⟨others, countedOthers⟩ := ih s'
      refine ⟨.cons sifted others, ?_⟩
      show count (Event.attempt f s' es).1 =
        count s + Event.lost (e :: es) (e' :: (Event.attempt f s' es).2.1)
      rw [Event.lost_cons, countedOthers, counted, Nat.add_assoc]

theorem Input.sifted_events (i : Input) (writable : i.writable = true) {es : List Event}
    (sifted : List.Forall₂ Event.Sifted i.packet.events es) :
    i.Sifted { i with packet := { i.packet with events := es } } :=
  ⟨rfl, ⟨rfl, rfl, sifted⟩, fun readOnly => absurd (readOnly.symm.trans writable) Bool.false_ne_true⟩

theorem Input.lost_events (i i' : Input) (is is' : List Input)
    (same : i.packet.events.length = i'.packet.events.length) :
    Event.lost (Input.events (i :: is)) (Input.events (i' :: is')) =
      Event.lost i.packet.events i'.packet.events +
        Event.lost (Input.events is) (Input.events is') := by
  unfold Input.events
  rw [List.flatMap_cons, List.flatMap_cons, Event.lost_append same]

theorem Sifts.attempt_inputs (h : Sifts count f) (s : σ) (is : List Input) :
    List.Forall₂ Input.Sifted is (PacketIo.attempt f s is).2.1 ∧
      count (PacketIo.attempt f s is).1 =
        count s + Event.lost (Input.events is) (Input.events (PacketIo.attempt f s is).2.1) := by
  induction is generalizing s with
  | nil => exact ⟨.nil, rfl⟩
  | cons i is ih =>
    obtain ⟨sifted, counted⟩ := h.attempt s i.packet.events
    unfold PacketIo.attempt
    split
    · rename_i writable
      split
      · rename_i s' es error fails
        rw [fails] at sifted counted
        refine ⟨.cons (i.sifted_events writable sifted) (List.forall₂_refl _), ?_⟩
        rw [Input.lost_events _ _ _ _ sifted.length_eq, Event.lost_self]
        exact counted
      · rename_i s' es passes
        rw [passes] at sifted counted
        obtain ⟨others, countedOthers⟩ := ih s'
        refine ⟨.cons (i.sifted_events writable sifted) others, ?_⟩
        show count (PacketIo.attempt f s' is).1 = _
        rw [Input.lost_events _ _ _ _ sifted.length_eq, countedOthers, show count s' = _ from counted,
          Nat.add_assoc]
    · obtain ⟨others, countedOthers⟩ := ih s
      refine ⟨.cons i.sifted_self others, ?_⟩
      show count (PacketIo.attempt f s is).1 = _
      rw [Input.lost_events _ _ _ _ rfl, countedOthers, Event.lost_self, Nat.zero_add]

end attempt

/-! ### Runs -/

section runs

variable {σ : Type} {count : σ → Nat} {run : σ → PacketIo → σ × PacketIo}

def PacketIo.runs (run : σ → PacketIo → σ × PacketIo) : σ → List PacketIo → σ × List PacketIo
  | s, [] => (s, [])
  | s, io :: ios => ((runs run (run s io).1 ios).1, (run s io).2 :: (runs run (run s io).1 ios).2)

def PacketIo.lost (io io' : PacketIo) : Nat :=
  Event.lost (Input.events io.inputs) (Input.events io'.inputs)

theorem PacketIo.sifted_self (io : PacketIo) : io.Sifted io :=
  ⟨List.forall₂_refl _, rfl⟩

theorem PacketIo.lost_self (io : PacketIo) : io.lost io = 0 := Event.lost_self _

def Counting (count : σ → Nat) (run : σ → PacketIo → σ × PacketIo) : Prop :=
  ∀ s io, io.Sifted (run s io).2 ∧ count (run s io).1 = count s + io.lost (run s io).2

theorem Counting.runs (h : Counting count run) (s : σ) (ios : List PacketIo) :
    List.Forall₂ PacketIo.Sifted ios (PacketIo.runs run s ios).2 ∧
      count (PacketIo.runs run s ios).1 =
        count s + (List.zipWith PacketIo.lost ios (PacketIo.runs run s ios).2).sum := by
  induction ios generalizing s with
  | nil => exact ⟨.nil, rfl⟩
  | cons io ios ih =>
    obtain ⟨sifted, counted⟩ := h s io
    obtain ⟨others, countedOthers⟩ := ih (run s io).1
    unfold PacketIo.runs
    refine ⟨.cons sifted others, ?_⟩
    rw [List.zipWith_cons_cons, List.sum_cons, ← Nat.add_assoc, ← counted]
    exact countedOthers

end runs

namespace NoiseFilter

variable [Host]

def dropped (f : NoiseFilter) : Nat := f.background + f.refractory + f.outOfRange

theorem enter_dropped {f f' : NoiseFilter} {s : NoiseFilterSettings} {e : Event}
    {before : Option PixelEvent} (entered : f.enter s e = .ok (f', before)) :
    dropped f' = dropped f := by
  obtain ⟨i, -, -, rfl⟩ := enter_ok entered
  rfl

theorem sifts_filterEvent (s : NoiseFilterSettings) : Sifts dropped (filterEvent s) := by
  constructor
  case failure =>
    intro f e error fails
    have step := filtered s f e
    generalize filterEvent s f e = r at step fails ⊢
    cases step with
    | unentered => rfl
    | unjudged _ _ entered => exact enter_dropped entered
    | _ => cases fails
  case event =>
    intro f e e' passes
    have step := filtered s f e
    generalize filterEvent s f e = r at step passes ⊢
    cases step with
    | ignored =>
      cases passes
      exact ⟨e.sifted_self, by rw [Event.lost_self]; rfl⟩
    | outside valid =>
      cases passes
      refine ⟨e.sifted_invalidate, ?_⟩
      rw [Event.lost_invalidate valid]
      rfl
    | kept _ _ entered =>
      cases passes
      exact ⟨e.sifted_self, by rw [Event.lost_self, enter_dropped entered]; rfl⟩
    | early valid _ entered | unsupported valid _ entered =>
      cases passes
      refine ⟨e.sifted_invalidate, ?_⟩
      rw [Event.lost_invalidate valid, ← enter_dropped entered]
      unfold dropped
      dsimp only
      omega
    | _ => cases passes

def ran (f : NoiseFilter) (io : PacketIo) : NoiseFilter × PacketIo := ((f.run io).1, (f.run io).2.1)

theorem counting_ran : Counting dropped ran := by
  intro f io
  unfold ran run
  split
  · exact ⟨io.sifted_self, by rw [io.lost_self]; rfl⟩
  · rename_i s set
    obtain ⟨sifted, counted⟩ := (sifts_filterEvent s).attempt_inputs f io.inputs
    exact ⟨⟨sifted, rfl⟩, counted⟩

theorem init_dropped {f f' : NoiseFilter} {p : Params} (ok : f.init p = (f', .ok)) :
    dropped f' = 0 := by
  unfold init at ok
  split at ok
  · cases ok
    rfl
  · rename_i other _
    cases ok
    exact (other rfl).elim

end NoiseFilter

/-! ### Verdicts -/

/-- Emptying a scope leaves nothing of what was in it. -/
def ScriptEngine.Clears (E : ScriptEngine) : Prop := ∀ scope, E.clear scope = E.empty

namespace Predicate

variable [Host]

def verdictAt (p : Predicate) (moment : Nat) (e : Event) : Except PredicateError Bool :=
  (p.ask moment e Host.scripts.empty).1

/-- The engine answers a predicate by its script and its variables alone. -/
def Steady (p : Predicate) : Prop :=
  ∀ moment scope, (Host.scripts.eval moment p.ast scope).1 = (Host.scripts.eval 0 p.ast scope).1

/-- No variable that an earlier event left has a say. -/
theorem ask_verdict (clears : Host.scripts.Clears) (p : Predicate) (moment : Nat) (e : Event)
    (scope : Host.scripts.Scope) : (p.ask moment e scope).1 = p.verdictAt moment e := by
  unfold verdictAt ask
  rw [clears, clears]

theorem Steady.verdictAt {p : Predicate} (steady : p.Steady) (moment : Nat) (e : Event) :
    p.verdictAt moment e = p.holds e := by
  unfold Predicate.verdictAt holds ask
  exact congrArg verdict (steady moment _)

inductive Judged (p : Predicate) : (n : Nat) → List Event → List Event → Prop
  | nil {n : Nat} : Judged p n [] []
  | skipped {n : Nat} {e : Event} {es es' : List Event} (invalid : e.valid = false)
      (others : Judged p n es es') : Judged p n (e :: es) (e :: es')
  | asked {n : Nat} {e : Event} {es es' : List Event} {b : Bool} (valid : e.valid = true)
      (verdict : p.verdictAt n e = .ok b) (others : Judged p (n + 1) es es') :
      Judged p n (e :: es) ((if b then e else e.invalidate) :: es')

/-- What becomes of events: all that are valid have their verdicts, or those before the first one on
which the predicate fails. -/
inductive Passed (p : Predicate) (n : Nat) : List Event → List Event × Option PredicateError → Prop
  | all {es es' : List Event} (judged : Judged p n es es') : Passed p n es (es', none)
  | broken {es es' rest : List Event} {e : Event} {error : PredicateError}
      (judged : Judged p n es es') (valid : e.valid = true)
      (fails : p.verdictAt (n + es.countP (·.valid)) e = .error error) :
      Passed p n (es ++ e :: rest) (es' ++ e :: rest, some error)

theorem Passed.skip {p : Predicate} {n : Nat} {e : Event} {es : List Event}
    {r : List Event × Option PredicateError} (invalid : e.valid = false) (h : Passed p n es r) :
    Passed p n (e :: es) (e :: r.1, r.2) := by
  cases h with
  | all judged => exact .all (.skipped invalid judged)
  | broken judged valid fails =>
    refine .broken (.skipped invalid judged) valid ?_
    rwa [List.countP_cons_of_neg (by simp [invalid])]

theorem Passed.ask {p : Predicate} {n : Nat} {e : Event} {es : List Event} {b : Bool}
    {r : List Event × Option PredicateError} (valid : e.valid = true) (verdict : p.verdictAt n e = .ok b)
    (h : Passed p (n + 1) es r) :
    Passed p n (e :: es) ((if b then e else e.invalidate) :: r.1, r.2) := by
  cases h with
  | all judged => exact .all (.asked valid verdict judged)
  | @broken es es' rest e' error judged valid' fails =>
    refine .broken (.asked valid verdict judged) valid' ?_
    have moment : n + 1 + es.countP (·.valid) = n + (e :: es).countP (·.valid) := by
      have one : (e :: es).countP (·.valid) = es.countP (·.valid) + 1 :=
        List.countP_cons_of_pos valid
      omega
    rwa [← moment]

end Predicate

namespace ScriptFilter

variable [Host]

theorem sift_invalid {p : Predicate} {e : Event} (invalid : e.valid = false) (f : ScriptFilter) :
    sift p f e = (f, .ok e) := by
  unfold sift
  rw [invalid]
  rfl

theorem sift_valid {p : Predicate} {e : Event} (valid : e.valid = true) (f : ScriptFilter) :
    sift p f e =
      let f' := { f with scope := (p.ask f.asked e f.scope).2, asked := f.asked + 1 }
      match (p.ask f.asked e f.scope).1 with
      | .error error => (f', .error error)
      | .ok true => (f', .ok e)
      | .ok false => ({ f' with rejected := f.rejected + 1 }, .ok e.invalidate) := by
  unfold sift
  rw [valid]
  rfl

theorem sifts_sift (p : Predicate) : Sifts rejected (sift p) := by
  constructor
  case failure =>
    intro f e error fails
    cases valid : e.valid with
    | false => rw [sift_invalid valid]
    | true =>
      rw [sift_valid valid] at fails ⊢
      dsimp only at fails ⊢
      split at fails
      · rfl
      · cases fails
      · cases fails
  case event =>
    intro f e e' passes
    cases valid : e.valid with
    | false =>
      rw [sift_invalid valid] at passes ⊢
      cases passes
      exact ⟨e.sifted_self, by rw [Event.lost_self]; rfl⟩
    | true =>
      rw [sift_valid valid] at passes ⊢
      dsimp only at passes ⊢
      split at passes
      · cases passes
      · cases passes
        exact ⟨e.sifted_self, by rw [Event.lost_self]; rfl⟩
      · cases passes
        exact ⟨e.sifted_invalidate, by rw [Event.lost_invalidate valid]⟩

def ran (f : ScriptFilter) (io : PacketIo) : ScriptFilter × PacketIo := ((f.run io).1, (f.run io).2.1)

theorem counting_ran : Counting rejected ran := by
  intro f io
  unfold ran run
  split
  · exact ⟨io.sifted_self, by rw [io.lost_self]; rfl⟩
  · rename_i p set
    obtain ⟨sifted, counted⟩ := (sifts_sift p).attempt_inputs f io.inputs
    dsimp only
    split
    · exact ⟨⟨sifted, rfl⟩, counted⟩
    · exact ⟨⟨sifted, rfl⟩, counted⟩

theorem attempt_passed (clears : Host.scripts.Clears) (p : Predicate) (f : ScriptFilter)
    (es : List Event) : p.Passed f.asked es (Event.attempt (sift p) f es).2 := by
  induction es generalizing f with
  | nil => exact .all .nil
  | cons e es ih =>
    cases valid : e.valid with
    | false =>
      rw [Event.attempt_cons_ok (sift_invalid valid f)]
      exact (ih f).skip valid
    | true =>
      have step := sift_valid (p := p) valid f
      rw [p.ask_verdict clears] at step
      cases verdict : p.verdictAt f.asked e with
      | error error =>
        rw [verdict] at step
        rw [Event.attempt_cons_error step]
        exact .broken .nil valid verdict
      | ok b =>
        rw [verdict] at step
        cases b with
        | true =>
          rw [Event.attempt_cons_ok step]
          exact (ih { f with scope := (p.ask f.asked e f.scope).2, asked := f.asked + 1 }).ask
            valid verdict
        | false =>
          rw [Event.attempt_cons_ok step]
          exact (ih { f with
            scope := (p.ask f.asked e f.scope).2
            asked := f.asked + 1
            rejected := f.rejected + 1 }).ask valid verdict

def answer : Option PredicateError → Except ModuleError Unit
  | none => .ok ()
  | some error => .error (scriptError error)

theorem run_passed (clears : Host.scripts.Clears) {f : ScriptFilter} {p : Predicate}
    (set : f.predicate = some p) (io : PacketIo) :
    ∃ events error, p.Passed f.asked (Input.changeable io.inputs) (events, error) ∧
      Input.changeable (f.run io).2.1.inputs = events ∧ (f.run io).2.2 = answer error := by
  obtain ⟨-, events, error⟩ := PacketIo.attempt_changeable (sift p) f io.inputs
  refine ⟨_, _, attempt_passed clears p f (Input.changeable io.inputs), ?_⟩
  rw [← events, ← error]
  unfold run
  rw [set]
  dsimp only
  split
  · rename_i passes
    rw [passes]
    exact ⟨rfl, rfl⟩
  · rename_i error fails
    rw [fails]
    exact ⟨rfl, rfl⟩

theorem init_rejected {f f' : ScriptFilter} {p : Params} (ok : f.init p = (f', .ok ())) :
    f'.rejected = 0 := by
  unfold init config at ok
  dsimp only at ok
  split at ok
  · cases ok
    rfl
  · split at ok
    · cases ok
    · cases ok
      rfl

end ScriptFilter

/-! ### Main result -/

/-- Whatever the settings and the predicate, a run of a filter does nothing to its packets but clear
flags in writable ones, and its counters grow by their number, from zero after an init. A script that
fails on an event leaves that one and all that come after it. If the engine empties scopes, what a
script says of an event depends on no other one, and if it also answers this script by its variables
alone, then on nothing but the event. -/
theorem filters_only_clear [Host] {f f' : NoiseFilter} {g g' : ScriptFilter} {p q : Params}
    (noise : f.init p = (f', .ok)) (script : g.init q = (g', .ok ())) (ios : List PacketIo) :
    (let r := PacketIo.runs NoiseFilter.ran f' ios
     List.Forall₂ PacketIo.Sifted ios r.2 ∧
        r.1.background + r.1.refractory + r.1.outOfRange = (List.zipWith PacketIo.lost ios r.2).sum) ∧
    (let r := PacketIo.runs ScriptFilter.ran g' ios
     List.Forall₂ PacketIo.Sifted ios r.2 ∧
        r.1.rejected = (List.zipWith PacketIo.lost ios r.2).sum) ∧
    Counting NoiseFilter.dropped NoiseFilter.ran ∧
    Counting ScriptFilter.rejected ScriptFilter.ran ∧
    (Host.scripts.Clears →
      (∀ (h : ScriptFilter) predicate io, h.predicate = some predicate →
        ∃ events error, predicate.Passed h.asked (Input.changeable io.inputs) (events, error) ∧
          Input.changeable (h.run io).2.1.inputs = events ∧
          (h.run io).2.2 = ScriptFilter.answer error) ∧
      ∀ (predicate : Predicate) moment e scope,
        (predicate.ask moment e scope).1 = predicate.verdictAt moment e ∧
        (predicate.Steady → predicate.verdictAt moment e = predicate.holds e)) := by
  refine ⟨?_, ?_, NoiseFilter.counting_ran, ScriptFilter.counting_ran, fun clears =>
    ⟨fun h predicate io set => ScriptFilter.run_passed clears set io,
      fun predicate moment e scope => ⟨predicate.ask_verdict clears moment e scope,
        fun steady => steady.verdictAt moment e⟩⟩⟩
  · obtain ⟨sifted, counted⟩ := NoiseFilter.counting_ran.runs f' ios
    rw [NoiseFilter.init_dropped noise, Nat.zero_add] at counted
    exact ⟨sifted, counted⟩
  · obtain ⟨sifted, counted⟩ := ScriptFilter.counting_ran.runs g' ios
    rw [ScriptFilter.init_rejected script, Nat.zero_add] at counted
    exact ⟨sifted, counted⟩

/-- A packet that both may change, and one that neither may. The script refuses the second event. -/
theorem two_packets_only_cleared :
    let p : Params := [("height", .int 1), ("width", .int 3)]
    let q : Params := [("predicate", .text "x > 1")]
    let packet : Packet := ⟨⟨1⟩, .polarity, [⟨5, 2, 0, 1, true⟩, ⟨7, 0, 0, 1, true⟩]⟩
    let io : PacketIo := { inputs := [⟨packet, true⟩, ⟨packet, false⟩] }
    let f := (({} : NoiseFilter).init p).1
    let g := (({} : ScriptFilter).init q).1
    (({} : NoiseFilter).init p).2 = .ok ∧ (({} : ScriptFilter).init q).2 = .ok () ∧
      List.Forall₂ PacketIo.Sifted [io] (PacketIo.runs NoiseFilter.ran f [io]).2 ∧
      List.Forall₂ PacketIo.Sifted [io] (PacketIo.runs ScriptFilter.ran g [io]).2 ∧
      Host.scripts.Clears ∧
      ∃ predicate events error, g.predicate = some predicate ∧ predicate.Steady ∧
        predicate.Passed g.asked packet.events (events, error) ∧
        events.map (·.valid) = [true, false] ∧ predicate.verdictAt 9 (packet.events.headD default) =
          predicate.holds (packet.events.headD default) := by
  intro p q packet io f g
  have noise : (({} : NoiseFilter).init p).2 = .ok := by decide +kernel
  have script : (({} : ScriptFilter).init q).2 = .ok () := by decide +kernel
  have clears : Host.scripts.Clears := fun _ => rfl
  obtain ⟨filtered, sifted, -, -, verdicts⟩ :=
    filters_only_clear (Prod.ext rfl noise) (Prod.ext rfl script) [io]
  obtain ⟨judged, alone⟩ := verdicts clears
  obtain ⟨predicate, set⟩ := Option.isSome_iff_exists.mp (show g.predicate.isSome by decide +kernel)
  have steady : predicate.Steady := fun _ _ => rfl
  obtain ⟨events, error, passed, rfl, -⟩ := judged g predicate io set
  exact ⟨noise, script, filtered.1, sifted.1, clears, predicate, _, error, set, steady, passed,
    by decide +kernel, (alone predicate 9 _ g.scope).2 steady⟩

end EventFlow

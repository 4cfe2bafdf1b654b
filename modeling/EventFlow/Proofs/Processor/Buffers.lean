import EventFlow.Library
import EventFlow.Proofs.Engine.Handling
import EventFlow.Proofs.Processor.History
import EventFlow.Proofs.Processor.Windows

/-!
The tables of the modules that keep one entry for each pixel. Whatever callbacks a module has been
given, a table that is in use has the size that the host has computed for its array. Where the pixels
of the array can be counted this is their number, so that no place is looked up that the table does not
have. A host that lets the product wrap gives a larger array a table that is too short.
-/

namespace EventFlow

/-- What may break off a run over an array of so many pixels. -/
def Fault.Excused [Host] (pixels : Nat) (fault : Fault) : Prop :=
  fault.IsOverflow ∨ ¬ Word.Countable pixels ∧ ∃ n i, fault = .outside n i

section host

variable [Host]

theorem Fault.Excused.isOverflow {pixels : Nat} {fault : Fault} (h : fault.Excused pixels)
    (countable : Word.Countable pixels) : fault.IsOverflow :=
  h.resolve_right fun outside => outside.1 countable

theorem Fault.Excused.no_division {pixels : Nat} {fault : Fault} (h : fault.Excused pixels) :
    fault ≠ .divisionByZero ∧ fault ≠ .remainderByZero := by
  obtain ⟨o, rfl⟩ | ⟨-, n, i, rfl⟩ := h
  · exact ⟨nofun, nofun⟩
  · exact ⟨nofun, nofun⟩

/-! ### The pixels of the noise filter -/

namespace NoiseFilterSettings

variable {s : NoiseFilterSettings} {e : Event} {x y i n : Nat} {fault : Fault}
  {last : Option PixelEvent}

theorem place_error (h : s.place x y = .error fault) : fault.IsOverflow := by
  obtain fails | ⟨row, -, fails⟩ := bind_error h
  · exact Word.unsigned_error fails
  · exact Word.unsigned_error fails

theorem place_lt (size : s.size = .ok n) (countable : Word.Countable (s.width * s.height))
    (inside : s.Inside x y) (place : s.place x y = .ok i) : i < n := by
  obtain ⟨counted, rfl⟩ := countable.unsigned size
  rw [s.place_of_inside inside counted] at place
  cases place
  exact s.index_lt inside

theorem supports_error (h : s.supports e last = .error fault) : fault.IsOverflow := by
  cases last with
  | none => cases h
  | some p =>
    obtain fails | ⟨age, -, ok⟩ := bind_error h
    · exact Word.signed_error fails
    · cases ok

theorem tooSoon_error (h : s.tooSoon e last = .error fault) : fault.IsOverflow := by
  cases last with
  | none => cases h
  | some p =>
    by_cases silent : 0 < s.refractory
    · rw [tooSoon, if_pos silent] at h
      obtain fails | ⟨age, -, ok⟩ := bind_error h
      · exact Word.signed_error fails
      · cases ok
    · rw [tooSoon, if_neg silent] at h
      cases h

end NoiseFilterSettings

namespace NoiseFilter

variable {f f' : NoiseFilter} {s : NoiseFilterSettings} {p : Params} {e : Event} {fault : Fault}

def Sized (f : NoiseFilter) : Prop := ∀ s, f.settings = some s → s.size = .ok f.pixels.size

def Framed (f f' : NoiseFilter) : Prop :=
  f'.pixels.size = f.pixels.size ∧ f'.settings = f.settings

theorem Framed.sized (h : f.Framed f') (sized : f.Sized) : f'.Sized := fun s set => by
  rw [h.1]
  exact sized s (h.2 ▸ set)

theorem framed_enter {before : Option PixelEvent} (entered : f.enter s e = .ok (f', before)) :
    f.Framed f' := by
  obtain ⟨i, -, -, rfl⟩ := enter_ok entered
  exact ⟨Array.size_setIfInBounds .., rfl⟩

theorem filterEvent_framed (s : NoiseFilterSettings) (f : NoiseFilter) (e : Event) :
    f.Framed (filterEvent s f e).1 := by
  have all := filtered s f e
  generalize filterEvent s f e = r at all ⊢
  cases all with
  | ignored _ => exact ⟨rfl, rfl⟩
  | outside _ _ => exact ⟨rfl, rfl⟩
  | unentered _ _ _ => exact ⟨rfl, rfl⟩
  | unjudged _ _ entered _ => exact framed_enter entered
  | kept _ _ entered _ => exact framed_enter entered
  | early _ _ entered _ =>
    obtain ⟨size, settings⟩ := framed_enter entered
    exact ⟨size, settings⟩
  | unsupported _ _ entered _ =>
    obtain ⟨size, settings⟩ := framed_enter entered
    exact ⟨size, settings⟩

/-- A lookup of a pixel inside the array fails only if its place could not be computed, or if the table
is too short for the array. -/
theorem lookup_error {q : Nat × Nat} (size : s.size = .ok f.pixels.size) (inside : s.Inside q.1 q.2)
    (h : (s.place q.1 q.2 >>= f.last) = .error fault) : fault.Excused (s.width * s.height) := by
  obtain fails | ⟨i, place, fails⟩ := bind_error h
  · exact Or.inl (NoiseFilterSettings.place_error fails)
  · refine Or.inr ⟨fun countable => ?_, ?_⟩
    · have there := NoiseFilterSettings.place_lt size countable inside place
      simp [NoiseFilter.last, there] at fails
    · unfold NoiseFilter.last at fails
      split at fails
      · cases fails
      · cases fails
        exact ⟨_, _, rfl⟩

theorem enter_error (size : s.size = .ok f.pixels.size) (inside : s.Inside e.x e.y)
    (h : f.enter s e = .error fault) : fault.Excused (s.width * s.height) := by
  refine lookup_error (q := (e.x, e.y)) size inside ?_
  obtain fails | ⟨i, place, fails⟩ := bind_error h
  · simp only [fails]
    rfl
  · obtain fails | ⟨before, -, ok⟩ := bind_error fails
    · simp only [place]
      exact fails
    · cases ok

theorem support_error {qs : List (Nat × Nat)} {n : Nat} (size : s.size = .ok f.pixels.size)
    (inside : ∀ q ∈ qs, s.Inside q.1 q.2) (h : f.support s e qs n = .error fault) :
    fault.Excused (s.width * s.height) := by
  induction qs generalizing n with
  | nil => cases h
  | cons q qs ih =>
    obtain ⟨near, others⟩ := List.forall_mem_cons.mp inside
    obtain fails | ⟨i, place, rest⟩ := bind_error h
    · exact Or.inl (NoiseFilterSettings.place_error fails)
    obtain fails | ⟨last, -, rest⟩ := bind_error rest
    · refine lookup_error size near ?_
      rw [place]
      exact fails
    obtain fails | ⟨supported, -, rest⟩ := bind_error rest
    · exact Or.inl (NoiseFilterSettings.supports_error fails)
    · exact ih others rest

theorem verdict_error {before : Option PixelEvent} (size : s.size = .ok f.pixels.size)
    (h : f.verdict s e before = .error fault) : fault.Excused (s.width * s.height) := by
  obtain fails | ⟨soon, -, rest⟩ := bind_error h
  · exact Or.inl (NoiseFilterSettings.tooSoon_error fails)
  cases soon with
  | true => cases rest
  | false =>
    obtain fails | ⟨count, -, ok⟩ := bind_error rest
    · refine support_error size (fun q mem => ?_) fails
      obtain ⟨inside, -⟩ := Finset.mem_filter.mp (s.mem_neighbours.mp mem)
      simpa using inside
    · cases ok

theorem filterEvent_error (size : s.size = .ok f.pixels.size)
    (h : (filterEvent s f e).2 = .error fault) : fault.Excused (s.width * s.height) := by
  have all := filtered s f e
  generalize filterEvent s f e = r at all h
  cases all with
  | unentered _ inside fails =>
    cases h
    exact enter_error size inside fails
  | unjudged _ _ entered fails =>
    cases h
    refine verdict_error ?_ fails
    rw [(framed_enter entered).1]
    exact size
  | _ => cases h

theorem run_frame (h : f.Sized) (io : PacketIo) :
    f.Framed (f.run io).1 ∧ ∀ s, f.settings = some s →
      ∀ fault ∈ (f.run io).2.2, fault.Excused (s.width * s.height) := by
  unfold NoiseFilter.run
  cases set : f.settings with
  | none => exact ⟨⟨rfl, rfl⟩, nofun⟩
  | some s =>
    have step (g : NoiseFilter) (e : Event) (framed : f.Framed g) :
        f.Framed (filterEvent s g e).1 ∧
          ∀ fault, (filterEvent s g e).2 = .error fault → fault.Excused (s.width * s.height) := by
      obtain ⟨size, settings⟩ := filterEvent_framed s g e
      refine ⟨⟨size.trans framed.1, settings.trans framed.2⟩, fun fault fails => ?_⟩
      refine filterEvent_error ?_ fails
      rw [framed.1]
      exact h s set
    obtain ⟨framed, excused⟩ := PacketIo.attempt_preserves step ⟨rfl, rfl⟩ io.inputs
    refine ⟨framed, fun s' same => ?_⟩
    cases same
    exact excused

theorem config_unchanged (fails : (f.config p).2 ≠ .ok) : (f.config p).1 = f := by
  rcases f.config_cases p with ⟨_, -, eq⟩ | ⟨old, s, -, -, -, -, eq⟩ | ⟨s, size, -, -, -, eq⟩
  · rw [eq]
  · exact absurd (congrArg Prod.snd eq) fails
  · exact absurd (congrArg Prod.snd eq) fails

theorem Sized.config (h : f.Sized) (p : Params) : (f.config p).1.Sized := by
  rcases f.config_cases p with ⟨_, -, eq⟩ | ⟨old, s, -, set, width, height, eq⟩ |
    ⟨s, size, -, -, counted, eq⟩
  · rwa [eq]
  · rw [eq]
    rintro _ ⟨⟩
    have size := h old set
    rwa [NoiseFilterSettings.size, width, height] at size
  · rw [eq]
    rintro _ ⟨⟩
    simpa using counted

theorem Sized.forget (h : f.Sized) : f.forget.Sized :=
  Framed.sized ⟨Array.size_replicate, rfl⟩ h

theorem sized_init (f : NoiseFilter) (p : Params) : (f.init p).1.Sized := by
  -- The settings go before anything is read, so a failure leaves none to compare a table with.
  have unset : ({ f with settings := none } : NoiseFilter).Sized := by
    rintro _ ⟨⟩
  have sized := unset.config p
  unfold init
  split
  · rename_i f' passes
    rw [passes] at sized
    exact sized.forget
  · rename_i f' outcome _ fails
    rw [fails] at sized
    exact sized

theorem sized_exit (f : NoiseFilter) : f.exit.Sized := by
  rintro _ ⟨⟩

end NoiseFilter

/-! ### The sums of the accumulator -/

namespace Accumulator

variable {a b : Accumulator} {p : Params} {e : Event} {fault : Fault}

structure Sized (a : Accumulator) : Prop where
  size : Word.unsigned .multiply (a.width * a.height) = .ok a.counts.size
  width : 0 < a.width
  frameTime : 0 < a.frameTime

structure Framed (a b : Accumulator) : Prop where
  size : b.counts.size = a.counts.size
  width : b.width = a.width
  height : b.height = a.height
  frameTime : b.frameTime = a.frameTime

omit [Host] in
theorem Framed.refl (a : Accumulator) : a.Framed a := ⟨rfl, rfl, rfl, rfl⟩

omit [Host] in
theorem Framed.trans {c : Accumulator} (h : a.Framed b) (h' : b.Framed c) : a.Framed c :=
  ⟨h'.size.trans h.size, h'.width.trans h.width, h'.height.trans h.height,
    h'.frameTime.trans h.frameTime⟩

theorem Framed.sized (h : a.Framed b) (sized : a.Sized) : b.Sized := by
  refine ⟨?_, h.width ▸ sized.width, h.frameTime ▸ sized.frameTime⟩
  rw [h.size, h.width, h.height]
  exact sized.size

theorem config_cases (a : Accumulator) (p : Params) :
    (∃ outcome, outcome ≠ .ok ∧ a.config p = (a, outcome)) ∨
    ∃ b frameTime signed, (a.config p) = ({ b with frameTime, signed }, .ok) ∧ 0 < frameTime ∧
      0 < b.width ∧
      (b = a ∨ Word.unsigned .multiply (b.width * b.height) = .ok b.counts.size) := by
  unfold config
  dsimp only
  by_cases positive : Params.int p "frame_us" 33000 ≤ 0
  · exact Or.inl ⟨.failed _, by simp, if_pos positive⟩
  by_cases sized : Params.int p "width" 240 ≤ 0 ∨ Params.int p "height" 180 ≤ 0
  · exact Or.inl ⟨.failed _, by simp, by rw [if_neg positive, if_pos sized]⟩
  rw [if_neg positive, if_neg sized]
  have wide : 0 < (Params.int p "width" 240).toNat := by omega
  generalize (Params.int p "width" 240).toNat = width at wide ⊢
  generalize (Params.int p "height" 180).toNat = height
  have long := Int.not_le.mp positive
  unfold resize
  by_cases same : width = a.width ∧ height = a.height
  · rw [if_pos same]
    exact Or.inr ⟨a, _, _, rfl, long, same.1 ▸ wide, Or.inl rfl⟩
  · rw [if_neg same]
    cases counted : Word.unsigned .multiply (width * height) with
    | error fault => exact Or.inl ⟨.ofFault fault, by simp [Outcome.ofFault], rfl⟩
    | ok size =>
      dsimp only
      by_cases fits : Host.reserves size 4 = true
      · rw [if_pos fits]
        exact Or.inr ⟨_, _, _, rfl, long, wide, Or.inr (by simpa using counted)⟩
      · rw [if_neg fits]
        exact Or.inl ⟨.failed _, by simp, rfl⟩

theorem config_unchanged (fails : (a.config p).2 ≠ .ok) : (a.config p).1 = a := by
  rcases a.config_cases p with ⟨_, -, eq⟩ | ⟨b, _, _, eq, -⟩
  · rw [eq]
  · exact absurd (congrArg Prod.snd eq) fails

theorem sized_config_ok (ok : (a.config p).2 = .ok) (known : a.Sized ∨ a.width = 0) :
    (a.config p).1.Sized := by
  rcases a.config_cases p with ⟨_, fails, eq⟩ | ⟨b, _, _, eq, long, wide, rfl | size⟩
  · exact absurd ((congrArg Prod.snd eq).symm.trans ok) fails
  · rw [eq]
    obtain sized | none := known
    · exact ⟨sized.size, wide, long⟩
    · exact absurd none wide.ne'
  · rw [eq]
    exact ⟨size, wide, long⟩

theorem Sized.config (h : a.Sized) (p : Params) : (a.config p).1.Sized := by
  by_cases ok : (a.config p).2 = .ok
  · exact sized_config_ok ok (Or.inl h)
  · rw [config_unchanged ok]
    exact h

-- An init starts from a width of zero: whatever table a failure left, no size that is accepted keeps it.
theorem sized_init (ok : (a.init p).2 = .ok) : (a.init p).1.Sized :=
  sized_config_ok ok (Or.inr rfl)

omit [Host] in
theorem flush_framed {stop : Int} {frame : List Event} (flushed : a.flush stop = .ok (b, frame)) :
    a.Framed b := by
  obtain ⟨events, -, ok⟩ := bind_ok flushed
  cases ok
  exact ⟨Array.size_replicate, rfl, rfl, rfl⟩

omit [Host] in
theorem flush_total (wide : 0 < a.width) (stop : Int) : a.flush stop ≠ .error fault := by
  rw [flush, frameEvents_eq wide]
  simp

theorem passed_error (long : 0 < a.frameTime) {start : Int} (h : a.passed start e = .error fault) :
    fault.IsOverflow := by
  obtain fails | ⟨stop, -, rest⟩ := bind_error h
  · exact Word.signed_error fails
  split at rest
  · obtain fails | ⟨elapsed, -, rest⟩ := bind_error rest
    · exact Word.signed_error fails
    obtain fails | ⟨windows, -, ok⟩ := bind_error rest
    · exact Word.quotient_error long.ne' fails
    · cases ok
  · cases rest

theorem later_error {start windows : Int} (h : a.later start windows = .error fault) :
    fault.IsOverflow := by
  obtain fails | ⟨time, -, fails⟩ := bind_error h
  · exact Word.signed_error fails
  · exact Word.signed_error fails

theorem Sized.turn (h : a.Sized) (start : Int) (e : Event) :
    a.Framed (a.turn start e).1 ∧ ∀ fault, (a.turn start e).2 = .error fault → fault.IsOverflow := by
  unfold Accumulator.turn
  cases passed : a.passed start e with
  | error fault =>
    refine ⟨.refl a, fun fault' same => ?_⟩
    cases same
    exact passed_error h.frameTime passed
  | ok r =>
    cases r with
    | none => exact ⟨.refl a, nofun⟩
    | some r =>
      obtain ⟨stop, windows⟩ := r
      dsimp only
      cases flushed : a.flush stop with
      | error fault => exact absurd flushed (flush_total h.width stop)
      | ok r =>
        obtain ⟨b, frame⟩ := r
        have framed := flush_framed flushed
        dsimp only
        cases next : b.later start windows with
        | error fault =>
          refine ⟨framed, fun fault' same => ?_⟩
          cases same
          exact later_error next
        | ok _ => exact ⟨⟨framed.size, framed.width, framed.height, framed.frameTime⟩, nofun⟩

theorem add_framed (ok : a.add e = .ok b) : a.Framed b := by
  unfold add at ok
  split at ok
  · obtain ⟨row, -, ok⟩ := bind_ok ok
    obtain ⟨i, -, ok⟩ := bind_ok ok
    dsimp only at ok
    split at ok
    · cases ok
      exact ⟨Array.size_modify, rfl, rfl, rfl⟩
    · cases ok
  · cases ok
    exact .refl a

theorem Sized.place_lt (h : a.Sized) (countable : Word.Countable (a.width * a.height)) {row i : Nat}
    (inside : e.x < a.width ∧ e.y < a.height)
    (start : Word.unsigned .multiply (e.y * a.width) = .ok row)
    (place : Word.unsigned .add (row + e.x) = .ok i) : i < a.counts.size := by
  obtain ⟨counted, size⟩ := countable.unsigned h.size
  have last : e.y * a.width + e.x < a.width * a.height := by
    rw [Nat.mul_comm e.y, Nat.mul_comm a.width a.height]
    exact Nat.mul_add_lt_mul_of_lt_of_lt inside.2 inside.1
  have before : e.y * a.width < Word.limit := (Nat.le_add_right ..).trans_lt (last.trans counted)
  rw [Word.unsigned_of_lt before] at start
  cases start
  rw [Word.unsigned_of_lt (last.trans counted)] at place
  cases place
  rwa [size]

theorem Sized.add_error (h : a.Sized) (fails : a.add e = .error fault) :
    fault.Excused (a.width * a.height) := by
  unfold add at fails
  split at fails
  · rename_i inside
    obtain fails | ⟨row, start, rest⟩ := bind_error fails
    · exact Or.inl (Word.unsigned_error fails)
    obtain fails | ⟨i, place, rest⟩ := bind_error rest
    · exact Or.inl (Word.unsigned_error fails)
    dsimp only at rest
    split at rest
    · cases rest
    · rename_i beyond
      cases rest
      exact Or.inr ⟨fun countable => beyond (h.place_lt countable inside start place), _, _, rfl⟩
  · cases fails

theorem Sized.take (h : a.Sized) (e : Event) :
    a.Framed (a.take e).1 ∧
      ∀ fault, (a.take e).2 = .error fault → fault.Excused (a.width * a.height) := by
  let started : Accumulator := { a with frameStart := some (a.frameStart.getD e.timestamp) }
  have opened : a.Framed started := ⟨rfl, rfl, rfl, rfl⟩
  obtain ⟨turned, overflow⟩ := (opened.sized h).turn (a.frameStart.getD e.timestamp) e
  unfold Accumulator.take
  dsimp only
  rcases eq : started.turn (a.frameStart.getD e.timestamp) e with ⟨b, ⟨fault⟩ | ⟨frame⟩⟩
  · rw [eq] at turned overflow
    exact ⟨opened.trans turned, fun _ same => Except.error.inj same ▸ Or.inl (overflow fault rfl)⟩
  · rw [eq] at turned
    have framed := opened.trans turned
    dsimp only
    cases added : b.add e with
    | error fault =>
      refine ⟨framed, fun _ same => Except.error.inj same ▸ ?_⟩
      rw [← framed.width, ← framed.height]
      exact (framed.sized h).add_error added
    | ok c => exact ⟨framed.trans (add_framed added), nofun⟩

theorem Sized.takeAll (h : a.Sized) (es : List Event) :
    a.Framed (a.takeAll es).1 ∧
      ∀ fault, (a.takeAll es).2 = .error fault → fault.Excused (a.width * a.height) := by
  induction es generalizing a with
  | nil => exact ⟨.refl a, nofun⟩
  | cons e es ih =>
    obtain ⟨framed, excused⟩ := h.take e
    unfold Accumulator.takeAll
    rcases taken : a.take e with ⟨b, ⟨fault⟩ | ⟨frame⟩⟩
    · rw [taken] at framed excused
      exact ⟨framed, excused⟩
    · rw [taken] at framed
      obtain ⟨framed', excused'⟩ := ih (framed.sized h)
      rw [framed.width, framed.height] at excused'
      refine ⟨framed.trans framed', fun fault fails => excused' fault ?_⟩
      dsimp only at fails
      cases rest : (b.takeAll es).2 with
      | error fault' =>
        rw [rest] at fails
        exact congrArg _ (Except.error.inj fails)
      | ok frames =>
        rw [rest] at fails
        cases fails

theorem Sized.run (h : a.Sized) (id : ModuleId) (io : PacketIo) :
    a.Framed (a.run id io).1 ∧ ∀ fault ∈ (a.run id io).2.2, fault.Excused (a.width * a.height) := by
  obtain ⟨framed, excused⟩ := h.takeAll (io.packets.flatMap (·.valid))
  unfold Accumulator.run
  split
  · rename_i b fault taken
    rw [taken] at framed excused
    exact ⟨framed, fun _ same => Option.some.inj same ▸ excused fault rfl⟩
  · rename_i b taken
    rw [taken] at framed
    exact ⟨framed, nofun⟩
  · rename_i b events _ taken
    rw [taken] at framed
    exact ⟨framed, nofun⟩

theorem Sized.reset (h : a.Sized) : a.reset.Sized :=
  Framed.sized ⟨Array.size_replicate, rfl, rfl, rfl⟩ h

end Accumulator

/-! ### Modules -/

omit [Host] in
theorem Generator.config_unchanged {g : Generator} {p : Params} {now : Nat}
    (fails : (g.config p now).2 ≠ .ok ()) : (g.config p now).1 = g := by
  unfold config at fails ⊢
  cases params : GeneratorSettings.ofParams p with
  | error e => rfl
  | ok s =>
    rw [params] at fails
    dsimp only at fails
    split at fails
    · exact absurd rfl fails
    · exact absurd rfl fails

theorem ScriptFilter.config_unchanged {f : ScriptFilter} {p : Params}
    (fails : (f.config p).2 ≠ .ok ()) : (f.config p).1 = f := by
  unfold config at fails ⊢
  dsimp only at fails ⊢
  split
  · rfl
  · rename_i other
    rw [if_neg other] at fails
    split
    · rfl
    · rename_i compiled
      rw [compiled] at fails
      exact absurd rfl fails

omit [Host] in
theorem Statistics.config_unchanged {t : Statistics} {p : Params}
    (fails : (t.config p).2 ≠ .ok ()) : (t.config p).1 = t := by
  unfold config at fails ⊢
  dsimp only at fails ⊢
  split
  · rfl
  · rename_i positive
    rw [if_neg positive] at fails
    exact absurd rfl fails

omit [Host] in
theorem Outcome.ofExcept_ok {r : Except ModuleError Unit} : Outcome.ofExcept r = .ok ↔ r = .ok () := by
  cases r with
  | error e => simp [Outcome.ofExcept]
  | ok _ => simp [Outcome.ofExcept]

namespace LibraryModule

/-- The tables of a module that may be used in its present state have their sizes. -/
def Sized : Bool → LibraryModule → Prop
  | _, .noiseFilter f => f.Sized
  | true, .accumulator a => a.Sized
  | _, _ => True

theorem sized_create (kind : Library) (capacity : Nat) : Sized false (kind.create capacity) := by
  cases kind with
  | noiseFilter => rintro _ ⟨⟩
  | _ => trivial

theorem sized_of_handled {kind : Library} {capacity : Nat} {running : Bool} {m : LibraryModule}
    (h : Handled (kind.create capacity) running m) : Sized running m := by
  induction h with
  | new => exact sized_create kind capacity
  | @started m h c s ok ih =>
    cases m with
    | noiseFilter f => exact f.sized_init c.params
    | accumulator a => exact Accumulator.sized_init ok
    | _ => trivial
  | @refused m h c s failed ih =>
    cases m with
    | noiseFilter f => exact f.sized_init c.params
    -- Size and table of an accumulator may disagree here, but it takes another init to use them.
    | _ => trivial
  | @config m h c s ih =>
    cases m with
    | noiseFilter f => exact NoiseFilter.Sized.config ih c.params
    | accumulator a => exact Accumulator.Sized.config ih c.params
    | _ => trivial
  | @run m h c io s ih =>
    cases m with
    | noiseFilter f => exact (NoiseFilter.run_frame ih io).1.sized ih
    | accumulator a => exact (Accumulator.Sized.run ih c.id io).1.sized ih
    | _ => trivial
  | @reset m h c source s ih =>
    cases m with
    | noiseFilter f => exact NoiseFilter.Sized.forget ih
    | accumulator a => exact Accumulator.Sized.reset ih
    | _ => trivial
  | @exit m h c s ih =>
    cases m with
    | noiseFilter f => exact f.sized_exit
    | _ => trivial

theorem config_unchanged {m : LibraryModule} {c : Context} {s : Signals}
    (fails : (m.config c s).outcome ≠ .ok) : (m.config c s).module = m := by
  cases m with
  | noiseFilter f => exact congrArg noiseFilter (NoiseFilter.config_unchanged fails)
  | accumulator a => exact congrArg accumulator (Accumulator.config_unchanged fails)
  | generator g =>
    exact congrArg generator (Generator.config_unchanged (mt Outcome.ofExcept_ok.mpr fails))
  | scriptFilter f =>
    exact congrArg scriptFilter (ScriptFilter.config_unchanged (mt Outcome.ofExcept_ok.mpr fails))
  | statistics t =>
    exact congrArg statistics (Statistics.config_unchanged (mt Outcome.ofExcept_ok.mpr fails))
  | forwarder f => exact absurd rfl fails

/-! ### Main results -/

/-- Whatever callbacks a module has been given, in the order that the lifecycle allows, the table of a
noise filter with settings and that of a running accumulator have the size that the host has computed
for the array. If its pixels can be counted, that is one entry for each of them, and a run breaks off
at overflows only. No run divides by zero, and a config that does not succeed changes nothing. -/
theorem tables_fit {kind : Library} {capacity : Nat} {running : Bool} {m : LibraryModule}
    (handled : Handled (kind.create capacity) running m) :
    (∀ f s, m = .noiseFilter f → f.settings = some s →
      s.size = .ok f.pixels.size ∧
      (Word.Countable (s.width * s.height) →
        f.pixels.size = s.width * s.height ∧ ∀ io, ∀ fault ∈ (f.run io).2.2, fault.IsOverflow) ∧
      ∀ io, ∀ fault ∈ (f.run io).2.2, fault ≠ .divisionByZero ∧ fault ≠ .remainderByZero) ∧
    (∀ a, m = .accumulator a → running = true →
      0 < a.width ∧ Word.unsigned .multiply (a.width * a.height) = .ok a.counts.size ∧
      (Word.Countable (a.width * a.height) →
        a.counts.size = a.width * a.height ∧
          ∀ id io, ∀ fault ∈ (a.run id io).2.2, fault.IsOverflow) ∧
      ∀ id io, ∀ fault ∈ (a.run id io).2.2, fault ≠ .divisionByZero ∧ fault ≠ .remainderByZero) ∧
    ∀ c s, (m.config c s).outcome ≠ .ok → (m.config c s).module = m := by
  have sized := sized_of_handled handled
  refine ⟨?_, ?_, fun c s => config_unchanged⟩
  · rintro f s rfl set
    have sized : f.Sized := sized
    have excused (io : PacketIo) := (NoiseFilter.run_frame sized io).2 s set
    refine ⟨sized s set, fun countable => ⟨(countable.unsigned (sized s set)).2,
      fun io fault fails => ?_⟩, fun io fault fails => (excused io fault fails).no_division⟩
    exact (excused io fault fails).isOverflow countable
  · rintro a rfl rfl
    have sized : a.Sized := sized
    have excused (id : ModuleId) (io : PacketIo) := (sized.run id io).2
    refine ⟨sized.width, sized.size, fun countable => ⟨(countable.unsigned sized.size).2,
      fun id io fault fails => ?_⟩, fun id io fault fails => (excused id io fault fails).no_division⟩
    exact (excused id io fault fails).isOverflow countable

/-- The modules of an engine, after whatever has happened to it, and when all have been stopped. -/
theorem engine_tables_fit {plan : Plan} {startup : ModuleId → Bool} {e : Engine LibraryModule}
    {kinds : ModuleId → Library} {capacity : Nat} (initial : Engine.Initial plan startup e)
    (fresh : ∀ p ∈ e.modules, p.2 = (kinds p.1).create capacity) (events : List Engine.Event) :
    (∀ p ∈ (e.after events).modules, Sized ((e.after events).lifecycle.isRunning p.1) p.2) ∧
      ∀ now s, let stopped := (Engine.stopAll now (e.after events) s).1
        ∀ p ∈ stopped.modules, Sized (stopped.lifecycle.isRunning p.1) p.2 := by
  have inHand := (initial.inHand (fun id => (kinds id).create capacity) fresh).after events
  refine ⟨fun p mem => sized_of_handled (inHand p mem), fun now s p mem => ?_⟩
  exact sized_of_handled (inHand.stopAll now s p mem)

end LibraryModule

end host

/-! ### Two arrays -/

/-- The host of a build that does not check its products. -/
abbrev Host.wrapping : Host := { Host.present with overflow := .wraps }

namespace LibraryModule

def sizing (height width : Int) : Context where
  entry := { id := ⟨1⟩, name := "array", params := [("height", .int height), ("width", .int width)] }

/-- The parameters give a row of three pixels, and then one of no length. -/
theorem short_row_fits :
    let started := (Library.accumulator.create 1).init (sizing 1 3) default
    started.outcome = .ok ∧ Handled (Library.accumulator.create 1) true started.module ∧
      (∃ a, started.module = .accumulator a ∧ Word.Countable (a.width * a.height) ∧
        a.counts.size = 3) ∧
      (started.module.config (sizing 1 0) default).outcome ≠ .ok ∧
      (started.module.config (sizing 1 0) default).module = started.module := by
  intro started
  have ok : started.outcome = .ok := by decide +kernel
  have handled : Handled (Library.accumulator.create 1) true started.module :=
    .started .new (sizing 1 3) default ok
  have fails : (started.module.config (sizing 1 0) default).outcome ≠ .ok := by decide +kernel
  obtain ⟨-, sums, unchanged⟩ := tables_fit handled
  obtain ⟨-, -, fits, -⟩ := sums _ rfl rfl
  have countable : Word.Countable (3 * 1) := .inl rfl
  exact ⟨ok, handled, ⟨_, rfl, countable, (fits countable).1⟩, fails,
    unchanged (sizing 1 0) default fails⟩

/-- Where products wrap, that of 2^33 columns and 2^31 rows is zero: an init succeeds with an empty
table, and the first event breaks off the run at a place that the table does not have. -/
theorem vast_array_misfits :
    letI : Host := .wrapping
    let started := (Library.noiseFilter.create 1).init (sizing 2147483648 8589934592) default
    let packet : Packet :=
      { source := ⟨2⟩, type := .polarity, events := [⟨0, 0, 0, 1, true⟩] }
    started.outcome = .ok ∧ Handled (Library.noiseFilter.create 1) true started.module ∧
      ∃ f s, started.module = .noiseFilter f ∧ f.settings = some s ∧
        f.pixels.size ≠ s.width * s.height ∧
        (f.run { inputs := [{ packet, writable := true }] }).2.2 = some (.outside 0 0) := by
  let _ : Host := .wrapping
  intro started packet
  have ok : started.outcome = .ok := by decide +kernel
  exact ⟨ok, .started .new (sizing 2147483648 8589934592) default ok, _, _, rfl, rfl,
    by decide +kernel, by decide +kernel⟩

end LibraryModule
end EventFlow

import EventFlow.Present
import EventFlow.Proofs.Processor.Filtered
import EventFlow.Proofs.Processor.Neighbours

/-!
The noise filter by its history. The filter keeps one entry for each pixel and overwrites it; what
becomes of an event is what the events that have come before say, however they were divided among
packets and runs, and whatever settings were in force when they came. This holds as long as the times
between events have 64 bits.
-/

namespace EventFlow.NoiseFilter
open scoped Finset

variable {f f' : NoiseFilter} {s : NoiseFilterSettings} {e : Event} {es seen : List Event}
  {x y : Nat}

/-! ### What the history says -/

/-- The latest event of a pixel; of the events that were seen, the latest comes first. -/
def prev (seen : List Event) (x y : Nat) : Option Event := seen.find? fun e => e.x = x ∧ e.y = y

abbrev Counts (s : NoiseFilterSettings) (e : Event) : Prop := e.valid = true ∧ s.Inside e.x e.y

def note (s : NoiseFilterSettings) (seen : List Event) (e : Event) : List Event :=
  if Counts s e then e :: seen else seen

abbrev Rested (s : NoiseFilterSettings) (seen : List Event) (e : Event) : Prop :=
  ¬ (0 < s.refractory ∧ ∃ p ∈ prev seen e.x e.y, e.timestamp - p.timestamp < s.refractory)

abbrev Supported (s : NoiseFilterSettings) (seen : List Event) (e : Event) (q : Nat × Nat) : Prop :=
  ∃ p ∈ prev seen q.1 q.2,
    e.timestamp - p.timestamp ≤ s.window ∧ (s.checkPolarity = true → p.polarity = e.polarity)

/-- An event that counts stays valid if its pixel has rested and enough pixels around support it. -/
structure Kept (s : NoiseFilterSettings) (seen : List Event) (e : Event) : Prop where
  rested : Rested s seen e
  supported : s.supportMin ≤ #{q ∈ s.around e.x e.y | Supported s seen e q}

instance (s : NoiseFilterSettings) (seen : List Event) (e : Event) : Decidable (Kept s seen e) :=
  decidable_of_iff (_ ∧ _) ⟨fun ⟨rested, supported⟩ => ⟨rested, supported⟩, fun ⟨r, p⟩ => ⟨r, p⟩⟩

def judge (s : NoiseFilterSettings) (seen : List Event) (e : Event) : Event :=
  if e.valid = false then e
  else if s.Inside e.x e.y ∧ Kept s seen e then e
  else e.invalidate

def judged (s : NoiseFilterSettings) : List Event → List Event → List Event
  | _, [] => []
  | seen, e :: es => judge s seen e :: judged s (note s seen e) es

theorem judged_append (s : NoiseFilterSettings) (seen es es' : List Event) :
    judged s seen (es ++ es') = judged s seen es ++ judged s (es.foldl (note s) seen) es' := by
  induction es generalizing seen with
  | nil => rfl
  | cons e es ih => rw [List.cons_append, judged, judged, ih, List.foldl_cons, List.cons_append]

/-! ### What is computed -/

/-- The times between an event and those that it is compared with have 64 bits. -/
structure Computable (s : NoiseFilterSettings) (seen : List Event) (e : Event) : Prop where
  own : 0 < s.refractory → ∀ p ∈ prev seen e.x e.y, Word.Signed (e.timestamp - p.timestamp)
  others : Rested s seen e → ∀ q ∈ s.around e.x e.y, ∀ p ∈ prev seen q.1 q.2,
    Word.Signed (e.timestamp - p.timestamp)

instance (s : NoiseFilterSettings) (seen : List Event) (e : Event) :
    Decidable (Computable s seen e) :=
  decidable_of_iff (_ ∧ _) ⟨fun ⟨own, others⟩ => ⟨own, others⟩, fun ⟨o, p⟩ => ⟨o, p⟩⟩

theorem Computable.first (s : NoiseFilterSettings) (e : Event) : Computable s [] e where
  own _ _ none := by cases none
  others _ _ _ _ none := by cases none

def Computed (s : NoiseFilterSettings) : List Event → List Event → Prop
  | _, [] => True
  | seen, e :: es => (Counts s e → Computable s seen e) ∧ Computed s (note s seen e) es

theorem Computed.append {es' : List Event} (h : Computed s seen (es ++ es')) :
    Computed s seen es ∧ Computed s (es.foldl (note s) seen) es' := by
  induction es generalizing seen with
  | nil => exact ⟨trivial, h⟩
  | cons e es ih =>
    obtain ⟨first, others⟩ := h
    exact ⟨⟨first, (ih others).1⟩, (ih others).2⟩

/-! ### One event -/

/-- The table holds for every pixel the latest of the events seen. -/
structure Remembers (f : NoiseFilter) (s : NoiseFilterSettings) (seen : List Event) : Prop where
  size : f.pixels.size = s.width * s.height
  counted : s.width * s.height < Word.limit
  last : ∀ x y, s.Inside x y →
    f.last (s.index x y) = .ok ((prev seen x y).map fun p => ⟨p.timestamp, p.polarity⟩)

theorem Remembers.of_pixels (h : Remembers f s seen) (same : f'.pixels = f.pixels) :
    Remembers f' s seen :=
  ⟨same ▸ h.size, h.counted, fun x y inside => by
    rw [NoiseFilter.last, same]
    exact h.last x y inside⟩

theorem prev_cons_self (e : Event) (seen : List Event) : prev (e :: seen) e.x e.y = some e := by
  simp [prev]

theorem prev_cons_other (other : ¬ (e.x = x ∧ e.y = y)) : prev (e :: seen) x y = prev seen x y := by
  rw [prev, List.find?_cons_of_neg (by simpa using other), prev]

theorem last_remember_self {i : Nat} (inBounds : i < f.pixels.size)
    (proper : e.timestamp ≠ never) :
    (f.remember i e).last i = .ok (some ⟨e.timestamp, e.polarity⟩) := by
  simp [NoiseFilter.last, remember, proper, inBounds]

theorem last_remember_other {i j : Nat} (other : i ≠ j) : (f.remember i e).last j = f.last j := by
  simp [NoiseFilter.last, remember, other]

theorem Remembers.remember (h : Remembers f s seen) (inside : s.Inside e.x e.y)
    (proper : e.timestamp ≠ never) :
    Remembers (f.remember (s.index e.x e.y) e) s (e :: seen) := by
  refine ⟨by simpa [NoiseFilter.remember] using h.size, h.counted, fun x y inside' => ?_⟩
  by_cases same : e.x = x ∧ e.y = y
  · obtain ⟨rfl, rfl⟩ := same
    rw [prev_cons_self, last_remember_self (h.size ▸ s.index_lt inside) proper]
    rfl
  · have other : s.index e.x e.y ≠ s.index x y := fun eq =>
      same ((s.index_inj inside.1 inside'.1).mp eq)
    rw [prev_cons_other same, last_remember_other other]
    exact h.last x y inside'

section host

variable [Host]

theorem Remembers.enter (h : Remembers f s seen) (inside : s.Inside e.x e.y) :
    f.enter s e = .ok (f.remember (s.index e.x e.y) e,
      (prev seen e.x e.y).map fun p => ⟨p.timestamp, p.polarity⟩) := by
  rw [NoiseFilter.enter, s.place_of_inside inside h.counted]
  simp only [bind, Except.bind, h.last e.x e.y inside]
  rfl

theorem tooSoon_eq (computable : Computable s seen e) {last : Option Event}
    (before : prev seen e.x e.y = last) :
    s.tooSoon e (last.map fun p => ⟨p.timestamp, p.polarity⟩) = .ok (decide ¬ Rested s seen e) := by
  cases last with
  | none => simp [NoiseFilterSettings.tooSoon, Rested, before]
  | some p =>
    by_cases silent : 0 < s.refractory
    · have fits := computable.own silent p before
      simp only [NoiseFilterSettings.tooSoon, Option.map_some, if_pos silent,
        Word.signed_of_fits fits]
      simp [Rested, before, silent, bind, Except.bind, pure, Except.pure]
    · simp [NoiseFilterSettings.tooSoon, Rested, before, silent]

theorem supports_eq {q : Nat × Nat} {last : Option Event} (before : prev seen q.1 q.2 = last)
    (fits : ∀ p ∈ last, Word.Signed (e.timestamp - p.timestamp)) :
    s.supports e (last.map fun p => ⟨p.timestamp, p.polarity⟩) =
      .ok (decide (Supported s seen e q)) := by
  cases last with
  | none => simp [NoiseFilterSettings.supports, Supported, before]
  | some p =>
    simp only [NoiseFilterSettings.supports, Option.map_some, Word.signed_of_fits (fits p rfl)]
    refine congrArg Except.ok (Bool.eq_iff_iff.mpr ?_)
    simp only [decide_eq_true_eq, Supported, before]
    cases s.checkPolarity <;> simp

theorem Remembers.support (h : Remembers f s (e :: seen)) {qs : List (Nat × Nat)}
    (around : ∀ q ∈ qs, q ∈ s.around e.x e.y)
    (fits : ∀ q ∈ s.around e.x e.y, ∀ p ∈ prev seen q.1 q.2,
      Word.Signed (e.timestamp - p.timestamp)) (n : Nat) :
    f.support s e qs n = .ok (n + qs.countP fun q => decide (Supported s seen e q)) := by
  induction qs generalizing n with
  | nil => rfl
  | cons q qs ih =>
    obtain ⟨near, others⟩ := List.forall_mem_cons.mp around
    obtain ⟨inside, other, -⟩ := Finset.mem_filter.mp near
    have inside : s.Inside q.1 q.2 := by simpa using inside
    have elsewhere : ¬ (e.x = q.1 ∧ e.y = q.2) := fun ⟨column, row⟩ =>
      other (Prod.ext column.symm row.symm)
    have last := h.last q.1 q.2 inside
    rw [prev_cons_other elsewhere] at last
    rw [NoiseFilter.support, s.place_of_inside inside h.counted]
    simp only [bind, Except.bind, last, supports_eq rfl (fits q near), ih others]
    by_cases supported : Supported s seen e q
    · rw [List.countP_cons_of_pos (by simpa using supported), if_pos (by simpa using supported)]
      congr 1
      omega
    · rw [List.countP_cons_of_neg (by simpa using supported), if_neg (by simpa using supported)]

theorem Remembers.verdict (h : Remembers f s (e :: seen)) (computable : Computable s seen e) :
    f.verdict s e ((prev seen e.x e.y).map fun p => ⟨p.timestamp, p.polarity⟩) =
      .ok (if ¬ Rested s seen e then .early else if Kept s seen e then .kept else .unsupported) := by
  rw [NoiseFilter.verdict, tooSoon_eq computable rfl]
  by_cases rested : Rested s seen e
  · have around : ∀ q ∈ s.neighbours e.x e.y, q ∈ s.around e.x e.y :=
      fun q mem => s.mem_neighbours.mp mem
    have count := h.support around (computable.others rested) 0
    rw [Nat.zero_add, s.countP_neighbours] at count
    rw [decide_eq_false (not_not.mpr rested), if_neg (not_not.mpr rested)]
    simp only [bind, Except.bind, count, pure, Except.pure]
    by_cases kept : Kept s seen e
    · rw [if_neg (Nat.not_lt.mpr kept.supported), if_pos kept]
    · rw [if_pos (Nat.lt_of_not_le fun enough => kept ⟨rested, enough⟩), if_neg kept]
  · rw [decide_eq_true rested, if_pos rested]
    rfl

/-- The code in the terms of the history: which counter grows says why an event was dropped. -/
theorem filterEvent_eq (h : Remembers f s seen) (proper : e.timestamp ≠ never)
    (computable : Computable s seen e) (counts : Counts s e) :
    ∃ f', Remembers f' s (e :: seen) ∧ f'.settings = f.settings ∧ f'.refractory = f.refractory ∧
      filterEvent s f e =
        if ¬ Rested s seen e then ({ f' with refractory := f.refractory + 1 }, .ok e.invalidate)
        else if Kept s seen e then (f', .ok e)
        else ({ f' with background := f'.background + 1 }, .ok e.invalidate) := by
  obtain ⟨valid, inside⟩ := counts
  have outside : ¬ (s.width ≤ e.x ∨ s.height ≤ e.y) := by omega
  have after := h.remember inside proper
  refine ⟨f.remember (s.index e.x e.y) e, after, rfl, rfl, ?_⟩
  rw [filterEvent, if_neg (by simp [valid]), if_neg outside, h.enter inside]
  simp only [after.verdict computable]
  by_cases rested : Rested s seen e
  · rw [if_neg (not_not.mpr rested), if_neg (not_not.mpr rested)]
    by_cases kept : Kept s seen e
    · rw [if_pos kept, if_pos kept]
    · rw [if_neg kept, if_neg kept]
  · rw [if_pos rested, if_pos rested]
    rfl

theorem filterEvent_judged (h : Remembers f s seen) (proper : e.timestamp ≠ never)
    (computable : Counts s e → Computable s seen e) :
    ∃ f', filterEvent s f e = (f', .ok (judge s seen e)) ∧ Remembers f' s (note s seen e) ∧
      f'.settings = f.settings := by
  cases valid : e.valid with
  | false =>
    have ignored : filterEvent s f e = (f, .ok e) := by rw [filterEvent, if_pos (by simp [valid])]
    have unnoted : note s seen e = seen :=
      if_neg fun counts => Bool.false_ne_true (valid.symm.trans counts.1)
    rw [ignored, unnoted, judge, if_pos valid]
    exact ⟨f, rfl, h, rfl⟩
  | true =>
    have came : ¬ e.valid = false := by simp [valid]
    by_cases inside : s.Inside e.x e.y
    · have counts : Counts s e := ⟨valid, inside⟩
      obtain ⟨f', after, same, -, eq⟩ := filterEvent_eq h proper (computable counts) counts
      have noted : note s seen e = e :: seen := if_pos counts
      rw [eq, noted, judge, if_neg came]
      by_cases kept : Kept s seen e
      · rw [if_neg (not_not.mpr kept.rested), if_pos kept, if_pos ⟨inside, kept⟩]
        exact ⟨f', rfl, after, same⟩
      · have dropped : ¬ (s.Inside e.x e.y ∧ Kept s seen e) := fun both => kept both.2
        rw [if_neg kept, if_neg dropped]
        split
        · exact ⟨_, rfl, after.of_pixels rfl, same⟩
        · exact ⟨_, rfl, after.of_pixels rfl, same⟩
    · have unnoted : note s seen e = seen := if_neg fun counts => inside counts.2
      have foreign : ¬ (s.Inside e.x e.y ∧ Kept s seen e) := fun both => inside both.1
      have outside : s.width ≤ e.x ∨ s.height ≤ e.y := by omega
      rw [unnoted, judge, if_neg came, if_neg foreign, filterEvent, if_neg (by simp [valid]),
        if_pos outside]
      exact ⟨_, rfl, h.of_pixels rfl, rfl⟩

/-! ### Packets and runs -/

theorem attempt_judged (h : Remembers f s seen) (proper : ∀ e ∈ es, e.timestamp ≠ never)
    (computed : Computed s seen es) :
    ∃ f', Event.attempt (filterEvent s) f es = (f', judged s seen es, none) ∧
      Remembers f' s (es.foldl (note s) seen) ∧ f'.settings = f.settings := by
  induction es generalizing f seen with
  | nil => exact ⟨f, rfl, h, rfl⟩
  | cons e es ih =>
    obtain ⟨first, others⟩ := List.forall_mem_cons.mp proper
    obtain ⟨f', verdict, after, settings⟩ := filterEvent_judged h first computed.1
    obtain ⟨f'', verdicts, last, settings'⟩ := ih after others computed.2
    refine ⟨f'', ?_, last, settings'.trans settings⟩
    rw [Event.attempt_cons_ok verdict, verdicts]
    rfl

def sizesOf (inputs : List Input) : List Nat := inputs.map (·.packet.events.length)

theorem run_judged {io : PacketIo} (h : Remembers f s seen) (set : f.settings = some s)
    (proper : ∀ e ∈ Input.changeable io.inputs, e.timestamp ≠ never)
    (computed : Computed s seen (Input.changeable io.inputs)) :
    (f.run io).2.2 = none ∧
      Input.changeable (f.run io).2.1.inputs = judged s seen (Input.changeable io.inputs) ∧
      sizesOf (f.run io).2.1.inputs = sizesOf io.inputs ∧
      Remembers (f.run io).1 s ((Input.changeable io.inputs).foldl (note s) seen) ∧
      (f.run io).1.settings = some s := by
  obtain ⟨f', done, after, settings⟩ := attempt_judged h proper computed
  obtain ⟨state, events, fault⟩ := PacketIo.attempt_changeable (filterEvent s) f io.inputs
  rw [done] at state events fault
  simp only [run, set, state, events, fault]
  exact ⟨trivial, trivial, PacketIo.sizes_attempt _ f io.inputs, after, settings.trans set⟩

def runAll (f : NoiseFilter) : List PacketIo → NoiseFilter × List (List Input × Option Fault)
  | [] => (f, [])
  | io :: ios => ((f.run io).1.runAll ios).map id (((f.run io).2.1.inputs, (f.run io).2.2) :: ·)

def arriving (ios : List PacketIo) : List Event := ios.flatMap fun io => Input.changeable io.inputs

def left (answers : List (List Input × Option Fault)) : List Event :=
  answers.flatMap fun r => Input.changeable r.1

theorem runAll_judged {ios : List PacketIo} (h : Remembers f s seen) (set : f.settings = some s)
    (proper : ∀ e ∈ arriving ios, e.timestamp ≠ never) (computed : Computed s seen (arriving ios)) :
    (∀ r ∈ (f.runAll ios).2, r.2 = none) ∧
      left (f.runAll ios).2 = judged s seen (arriving ios) ∧
      (f.runAll ios).2.map (fun r => sizesOf r.1) = ios.map fun io => sizesOf io.inputs := by
  induction ios generalizing f seen with
  | nil => exact ⟨by simp [runAll], rfl, rfl⟩
  | cons io ios ih =>
    have split : arriving (io :: ios) = Input.changeable io.inputs ++ arriving ios :=
      List.flatMap_cons
    rw [split] at proper computed ⊢
    obtain ⟨computed, others⟩ := computed.append
    obtain ⟨goes, events, sizes, after, set'⟩ := run_judged h set
      (fun e mem => proper e (List.mem_append_left _ mem)) computed
    obtain ⟨go, events', sizes'⟩ := ih after set'
      (fun e mem => proper e (List.mem_append_right _ mem)) others
    refine ⟨List.forall_mem_cons.mpr ⟨goes, go⟩, ?_, ?_⟩
    · rw [judged_append, ← events, ← events']
      exact List.flatMap_cons
    · exact congrArg₂ List.cons sizes sizes'

/-! ### All calls -/

inductive Call where
  | init (p : Params)
  | config (p : Params)
  | reset
  | exit
  | run (io : PacketIo)

def after (f : NoiseFilter) : Call → NoiseFilter
  | .init p => (f.init p).1
  | .config p => (f.config p).1
  | .reset => f.forget
  | .exit => f.exit
  | .run io => (f.run io).1

def shape (f : NoiseFilter) : Option (Nat × Nat) := f.settings.map fun s => (s.width, s.height)

/-- The events to remember after a call: none after an init, a reset, or a config that changes the
size of the array, and after a run its own as well. -/
def hear (f : NoiseFilter) (seen : List Event) : Call → List Event
  | .config p => if (f.config p).1.shape = f.shape then seen else []
  | .run io =>
    match f.settings with
    | some s => (Input.changeable io.inputs).foldl (note s) seen
    | none => seen
  | _ => []

def hearing (r : NoiseFilter × List Event) (c : Call) : NoiseFilter × List Event :=
  (r.1.after c, r.1.hear r.2 c)

def told : List Call → NoiseFilter × List Event := List.foldl hearing ({}, [])

/-- No event has the timestamp that stands for none. -/
def Call.Proper : Call → Prop
  | run io => ∀ e ∈ Input.changeable io.inputs, e.timestamp ≠ never
  | _ => True

def CountableParams (p : Params) : Prop :=
  ∀ s, NoiseFilterSettings.ofParams p = .ok s → Word.Countable (s.width * s.height)

def Call.Computed (r : NoiseFilter × List Event) : Call → Prop
  | init p => CountableParams p
  | config p => CountableParams p
  | run io => ∀ s, r.1.settings = some s → NoiseFilter.Computed s r.2 (Input.changeable io.inputs)
  | _ => True

def ComputedCalls : NoiseFilter × List Event → List Call → Prop
  | _, [] => True
  | r, c :: calls => c.Computed r ∧ ComputedCalls (hearing r c) calls

omit [Host] in
theorem remembers_blank (sized : f.pixels = Array.replicate (s.width * s.height) none)
    (counted : s.width * s.height < Word.limit) : Remembers f s [] := by
  refine ⟨by simp [sized], counted, fun x y inside => ?_⟩
  simp [NoiseFilter.last, sized, s.index_lt inside, prev]

theorem config_cases (f : NoiseFilter) (p : Params) :
    (∃ outcome, outcome ≠ .ok ∧ f.config p = (f, outcome)) ∨
    (∃ old s, NoiseFilterSettings.ofParams p = .ok s ∧ f.settings = some old ∧
      old.width = s.width ∧ old.height = s.height ∧
      f.config p = ({ f with settings := some s }, .ok)) ∨
    ∃ s size, NoiseFilterSettings.ofParams p = .ok s ∧ f.shape ≠ some (s.width, s.height) ∧
      s.size = .ok size ∧
      f.config p = ({ f with settings := some s, pixels := Array.replicate size none }, .ok) := by
  unfold config
  cases read : NoiseFilterSettings.ofParams p with
  | error e => exact Or.inl ⟨_, by simp, rfl⟩
  | ok s =>
    simp only [apply]
    cases counted : s.size with
    | error fault => exact Or.inl ⟨.ofFault fault, by simp [Outcome.ofFault], rfl⟩
    | ok size =>
      simp only
      by_cases same : f.settings.any (fun old => old.width = s.width ∧ old.height = s.height) = true
      · obtain ⟨old, set, sizes⟩ := (Option.any_eq_true ..).mp same
        obtain ⟨width, height⟩ := of_decide_eq_true sizes
        exact Or.inr (Or.inl ⟨old, s, rfl, set, width, height, by rw [if_pos same]⟩)
      · by_cases fits : Host.reserves size 16 = true
        · refine Or.inr (Or.inr ⟨s, size, rfl, fun unchanged => same ?_, counted,
            by rw [if_neg same, if_pos fits]⟩)
          obtain ⟨old, set, sizes⟩ := Option.map_eq_some_iff.mp unchanged
          simpa [set] using sizes
        · exact Or.inl ⟨.failed _, by simp, by rw [if_neg same, if_neg fits]⟩

omit [Host] in
def Aware (f : NoiseFilter) (seen : List Event) : Prop :=
  ∀ s, f.settings = some s → Remembers f s seen

omit [Host] in
theorem Aware.blank (h : Aware f seen) : Aware f.forget [] := by
  intro s set
  obtain ⟨size, counted, -⟩ := h s set
  exact remembers_blank (by rw [forget, size]) counted

theorem remembers_sized {p : Params} {size : Nat} (countable : CountableParams p)
    (read : NoiseFilterSettings.ofParams p = .ok s) (counted : s.size = .ok size)
    (sized : f.pixels = Array.replicate size none) : Remembers f s [] := by
  obtain ⟨small, rfl⟩ := (countable s read).unsigned counted
  exact remembers_blank sized small

theorem Aware.config (h : Aware f seen) {p : Params} (countable : CountableParams p) :
    Aware (f.config p).1 (f.hear seen (.config p)) := by
  rcases f.config_cases p with ⟨_, -, eq⟩ | ⟨old, s, -, set, width, height, eq⟩ |
    ⟨s, size, read, resized, counted, eq⟩
  · simpa only [hear, eq, if_true] using h
  · have same : (f.config p).1.shape = f.shape := by simp [eq, shape, set, width, height]
    rw [hear, if_pos same, eq]
    rintro s' ⟨⟩
    obtain ⟨size, counted, last⟩ := h old set
    refine ⟨?_, ?_, fun x y inside => ?_⟩
    · rw [size, width, height]
    · rwa [width, height] at counted
    · have place := last x y ⟨width ▸ inside.1, height ▸ inside.2⟩
      rwa [NoiseFilterSettings.index, width] at place
  · have changed : (f.config p).1.shape ≠ f.shape := by
      rw [eq]
      exact resized.symm
    rw [hear, if_neg changed, eq]
    rintro s' ⟨⟩
    exact remembers_sized countable read counted rfl

theorem aware_init (f : NoiseFilter) {p : Params} (countable : CountableParams p) :
    Aware (f.init p).1 [] := by
  unfold init
  rcases config_cases { f with settings := none } p with ⟨outcome, fails, eq⟩ |
    ⟨old, s, -, set, -⟩ | ⟨s, size, read, -, counted, eq⟩
  · rw [eq]
    cases outcome with
    | ok => exact absurd rfl fails
    | failed e => rintro s ⟨⟩
    | panicked t => rintro s ⟨⟩
  · cases set
  · rw [eq]
    rintro s' ⟨⟩
    exact remembers_sized countable read counted (by simp [forget])

theorem Aware.after (h : Aware f seen) {c : Call} (proper : c.Proper)
    (computed : c.Computed (f, seen)) : Aware (f.after c) (f.hear seen c) := by
  cases c with
  | init p => exact aware_init f computed
  | config p => exact h.config computed
  | reset => exact h.blank
  | exit =>
    rintro s ⟨⟩
  | run io =>
    rw [hear]
    cases set : f.settings with
    | none =>
      intro s set'
      simp [NoiseFilter.after, run, set] at set'
    | some s =>
      obtain ⟨-, -, -, after, settings⟩ := run_judged (h s set) set proper (computed s set)
      intro s' set'
      obtain rfl := Option.some.inj (settings.symm.trans set')
      exact after

theorem Aware.hearing {calls : List Call} (h : Aware f seen) (proper : ∀ c ∈ calls, c.Proper)
    (computed : ComputedCalls (f, seen) calls) :
    Aware (calls.foldl NoiseFilter.hearing (f, seen)).1
      (calls.foldl NoiseFilter.hearing (f, seen)).2 := by
  induction calls generalizing f seen with
  | nil => exact h
  | cons c calls ih =>
    obtain ⟨first, others⟩ := List.forall_mem_cons.mp proper
    exact ih (h.after first computed.1) others computed.2

theorem told_aware {calls : List Call} (proper : ∀ c ∈ calls, c.Proper)
    (computed : ComputedCalls ({}, []) calls) : Aware (told calls).1 (told calls).2 := by
  have new : Aware {} [] := by rintro s ⟨⟩
  exact new.hearing proper computed

/-! ### Main results -/

/-- Whatever a filter has been asked before, events that arrive in any number of runs are left as the
history says: a valid one outside the array becomes invalid, and one inside stays valid exactly if
its pixel has rested and enough pixels around support it. Another division of the same events among
packets and runs makes no difference. -/
theorem filters_by_history {calls : List Call} {ios : List PacketIo}
    (proper : ∀ c ∈ calls, c.Proper) (proper' : ∀ e ∈ arriving ios, e.timestamp ≠ never)
    (computed : ComputedCalls ({}, []) calls) (set : (told calls).1.settings = some s)
    (computed' : Computed s (told calls).2 (arriving ios)) :
    (∀ r ∈ ((told calls).1.runAll ios).2, r.2 = none) ∧
    left ((told calls).1.runAll ios).2 = judged s (told calls).2 (arriving ios) ∧
    ((told calls).1.runAll ios).2.map (fun r => sizesOf r.1) =
      (ios.map fun io => sizesOf io.inputs) ∧
    ∀ ios', arriving ios' = arriving ios →
      left ((told calls).1.runAll ios').2 = left ((told calls).1.runAll ios).2 := by
  have remembers := told_aware proper computed s set
  obtain ⟨goes, events, sizes⟩ := runAll_judged remembers set proper' computed'
  refine ⟨goes, events, sizes, fun ios' same => ?_⟩
  obtain ⟨-, events', -⟩ := runAll_judged remembers set (same ▸ proper') (same ▸ computed')
  rw [events, events', same]

instance Computed.decidable (s : NoiseFilterSettings) :
    (seen es : List Event) → Decidable (Computed s seen es)
  | _, [] => inferInstanceAs (Decidable True)
  | seen, e :: es =>
    have := Computed.decidable s (note s seen e) es
    inferInstanceAs (Decidable (_ ∧ _))

def narrow (window : Int) : Params :=
  [("height", .int 1), ("refractory_us", .int 50), ("width", .int 3), ("window_us", .int window)]

def runOf (packets : List (List Event)) : PacketIo where
  inputs := packets.map fun events =>
    { packet := { source := ⟨1⟩, type := .polarity, events }, writable := true }

end host

def narrowCalls : List Call :=
  [.init (narrow 100), .run (runOf [[⟨100, 0, 0, 1, true⟩]]), .config (narrow 5000)]

def narrowRuns : List PacketIo :=
  [runOf [[⟨3000, 1, 0, 1, true⟩], [⟨3040, 1, 0, 0, true⟩]], runOf [[⟨3050, 1, 1, 1, true⟩]]]

/-- An event still supports its neighbour when the window has been made longer after it came. The
event after that one comes too soon, and the last one lies outside. -/
theorem narrow_filters :
    (∀ c ∈ narrowCalls, c.Proper) ∧ (∀ e ∈ arriving narrowRuns, e.timestamp ≠ never) ∧
    ComputedCalls ({}, []) narrowCalls ∧
    (told narrowCalls).1.settings = some ⟨5000, 1, 50, false, 3, 1⟩ ∧
    Computed ⟨5000, 1, 50, false, 3, 1⟩ (told narrowCalls).2 (arriving narrowRuns) ∧
    (left ((told narrowCalls).1.runAll narrowRuns).2).map (·.valid) = [true, false, false] := by
  have proper : ∀ c ∈ narrowCalls, c.Proper := by
    simp [narrowCalls, Call.Proper, Input.changeable, runOf, never]
  have proper' : ∀ e ∈ arriving narrowRuns, e.timestamp ≠ never := by decide +kernel
  have computed : ComputedCalls ({}, []) narrowCalls :=
    ⟨fun _ _ => .inl rfl, fun s _ => ⟨fun _ => .first s _, trivial⟩, fun _ _ => .inl rfl, trivial⟩
  have set : (told narrowCalls).1.settings = some ⟨5000, 1, 50, false, 3, 1⟩ := by decide +kernel
  have computed' : Computed ⟨5000, 1, 50, false, 3, 1⟩ (told narrowCalls).2 (arriving narrowRuns) := by
    decide +kernel
  refine ⟨proper, proper', computed, set, computed', ?_⟩
  rw [(filters_by_history proper proper' computed set computed').2.1]
  decide +kernel

/-! ### Which way the filter looks -/

theorem mem_of_prev {p : Event} (latest : p ∈ prev seen x y) : p ∈ seen :=
  List.mem_of_find?_eq_some latest

theorem Kept.support {near : Event → Prop} [DecidablePred near] (kept : Kept s seen e)
    (close : ∀ p ∈ seen, e.timestamp - p.timestamp ≤ s.window → near p) :
    s.supportMin ≤ #{q ∈ s.around e.x e.y | ∃ p ∈ prev seen q.1 q.2, near p} := by
  refine kept.supported.trans (Finset.card_le_card (Finset.monotone_filter_right _ ?_))
  rintro q - ⟨p, latest, within, -⟩
  exact ⟨p, latest, close p (mem_of_prev latest) within⟩

section host

variable [Host]

theorem filterEvent_reason (h : Remembers f s seen) (proper : e.timestamp ≠ never)
    (computable : Computable s seen e) (counts : Counts s e) :
    (∃ e', (filterEvent s f e).2 = .ok e' ∧ (e'.valid = true → Kept s seen e)) ∧
      ((filterEvent s f e).1.refractory ≠ f.refractory →
        ∃ p ∈ prev seen e.x e.y, e.timestamp - p.timestamp < s.refractory) := by
  obtain ⟨f', -, -, same, eq⟩ := filterEvent_eq h proper computable counts
  rw [eq]
  by_cases rested : Rested s seen e
  · rw [if_neg (not_not.mpr rested)]
    split
    · rename_i kept
      exact ⟨⟨e, rfl, fun _ => kept⟩, fun grown => absurd same grown⟩
    · exact ⟨⟨_, rfl, fun valid => absurd valid Bool.false_ne_true⟩, fun grown => absurd same grown⟩
  · rw [if_pos rested]
    exact ⟨⟨_, rfl, fun valid => absurd valid Bool.false_ne_true⟩, fun _ => (not_not.mp rested).2⟩

/-- A kept event has enough pixels around whose last event is no further back than the window, and an
event dropped as too soon has one of its own pixel that is closer than the silence. These may also be
later than the event; they are not if the event is as late as all that have come before it. -/
theorem looks_back_unless_overtaken {calls : List Call} {pre : List Event}
    (proper : ∀ c ∈ calls, c.Proper) (proper' : ∀ p ∈ e :: pre, p.timestamp ≠ never)
    (computed : ComputedCalls ({}, []) calls) (set : (told calls).1.settings = some s)
    (computed' : Computed s (told calls).2 (pre ++ [e])) (counts : Counts s e) :
    let f := (Event.attempt (filterEvent s) (told calls).1 pre).1
    let seen := pre.foldl (note s) (told calls).2
    let r := filterEvent s f e
    ∃ e', r.2 = .ok e' ∧
    (e'.valid = true → s.supportMin ≤ #{q ∈ s.around e.x e.y |
      ∃ p ∈ prev seen q.1 q.2, e.timestamp - s.window ≤ p.timestamp}) ∧
    (r.1.refractory ≠ f.refractory →
      ∃ p ∈ prev seen e.x e.y, e.timestamp - s.refractory < p.timestamp) ∧
    ((∀ p ∈ seen, p.timestamp ≤ e.timestamp) →
      (e'.valid = true → s.supportMin ≤ #{q ∈ s.around e.x e.y | ∃ p ∈ prev seen q.1 q.2,
        e.timestamp - s.window ≤ p.timestamp ∧ p.timestamp ≤ e.timestamp}) ∧
      (r.1.refractory ≠ f.refractory → ∃ p ∈ prev seen e.x e.y,
        e.timestamp - s.refractory < p.timestamp ∧ p.timestamp ≤ e.timestamp)) := by
  intro f seen r
  obtain ⟨own, others⟩ := List.forall_mem_cons.mp proper'
  obtain ⟨before, last⟩ := computed'.append
  obtain ⟨f', done, remembers, -⟩ :=
    attempt_judged (told_aware proper computed s set) others before
  have remembers : Remembers f s seen := by
    rw [show f = f' from congrArg Prod.fst done]
    exact remembers
  obtain ⟨⟨e', answer, kept⟩, soon⟩ := filterEvent_reason remembers own (last.1 counts) counts
  refine ⟨e', answer, fun valid => (kept valid).support fun p _ within => by omega, fun grown => ?_,
    fun last => ⟨fun valid => (kept valid).support fun p mem within => ?_, fun grown => ?_⟩⟩
  · obtain ⟨p, latest, within⟩ := soon grown
    exact ⟨p, latest, by omega⟩
  · exact ⟨by omega, last p mem⟩
  · obtain ⟨p, latest, within⟩ := soon grown
    exact ⟨p, latest, by omega, last p (mem_of_prev latest)⟩

end host

/-- Two streams that overlap in time: the second one starts before the event of the first. -/
def overlapping : List Event := [⟨1000, 1, 0, 1, true⟩, ⟨100, 0, 0, 1, true⟩, ⟨90, 0, 0, 1, true⟩]

def overlappingRun : PacketIo := runOf [overlapping.take 1, overlapping.drop 1]

/-- In order, the second event follows its neighbour closely enough, and the third comes too soon. -/
theorem narrow_looks_back :
    let s : NoiseFilterSettings := ⟨2000, 1, 50, false, 3, 1⟩
    let e : Event := ⟨130, 0, 0, 1, true⟩
    let pre : List Event := [⟨100, 1, 0, 1, true⟩, ⟨110, 0, 0, 1, true⟩]
    (∀ c ∈ [Call.init (narrow 2000)], c.Proper) ∧ (∀ p ∈ e :: pre, p.timestamp ≠ never) ∧
    ComputedCalls ({}, []) [.init (narrow 2000)] ∧
    (told [.init (narrow 2000)]).1.settings = some s ∧
    Computed s (told [.init (narrow 2000)]).2 (pre ++ [e]) ∧ Counts s e ∧
    ∃ p ∈ prev [⟨110, 0, 0, 1, true⟩, ⟨100, 1, 0, 1, true⟩] 0 0,
      e.timestamp - s.refractory < p.timestamp ∧ p.timestamp ≤ e.timestamp := by
  intro s e pre
  have proper : ∀ c ∈ [Call.init (narrow 2000)], c.Proper := by simp [Call.Proper]
  have proper' : ∀ p ∈ e :: pre, p.timestamp ≠ never := by decide
  have computed : ComputedCalls ({}, []) [.init (narrow 2000)] := ⟨fun _ _ => .inl rfl, trivial⟩
  have set : (told [.init (narrow 2000)]).1.settings = some s := by decide +kernel
  have computed' : Computed s (told [.init (narrow 2000)]).2 (pre ++ [e]) := by decide +kernel
  have counts : Counts s e := by decide
  refine ⟨proper, proper', computed, set, computed', counts, ?_⟩
  obtain ⟨_, -, -, -, ordered⟩ :=
    looks_back_unless_overtaken proper proper' computed set computed' counts
  exact (ordered (by decide +kernel)).2 (by decide +kernel)

/-- An event is kept because of a neighbour that fires 900 microseconds after it, and the next one is
dropped as too soon after an event of its pixel that is later than itself. -/
theorem overlapping_misjudged :
    let f := (told [.init (narrow 2000)]).1
    ∃ s, f.settings = some s ∧ Input.changeable overlappingRun.inputs = overlapping ∧
      (Input.changeable (f.run overlappingRun).2.1.inputs).map (·.valid) = [false, true, false] ∧
      (f.run overlappingRun).1.refractory = 1 ∧
      #{q ∈ s.around 0 0 | ∃ p ∈ prev ((overlapping.take 1).foldl (note s) []) q.1 q.2,
        100 - s.window ≤ p.timestamp ∧ p.timestamp ≤ 100} < s.supportMin ∧
      ¬ ∃ p ∈ prev ((overlapping.take 2).foldl (note s) []) 0 0,
        90 - s.refractory < p.timestamp ∧ p.timestamp ≤ 90 :=
  ⟨⟨2000, 1, 50, false, 3, 1⟩, by decide +kernel⟩

end EventFlow.NoiseFilter

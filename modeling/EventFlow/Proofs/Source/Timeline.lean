import Mathlib
import EventFlow.Library
import EventFlow.Proofs.Engine.Handling

/-!
The timeline of a generator. Its batches follow one another without a gap, and the events of a batch
stand in equal steps inside the time of the batch. Words of 64 bits hold all that is computed on the
way, for the settings that are accepted.
-/

namespace EventFlow

/-! ### Draws -/

namespace Random

theorem half_lt (r : Random) : r.half.1 < halfSize := by
  show _ % halfSize < halfSize
  exact Nat.mod_lt _ (by decide)

theorem below_lt (r : Random) {n : Nat} (positive : 0 < n) : (r.below n).1 < n := by
  fun_induction below r n with
  | case1 r again ih => exact ih
  | case2 r taken =>
    apply Nat.div_lt_of_lt_mul
    exact Nat.mul_lt_mul_of_pos_right r.half_lt positive

end Random

namespace GeneratorSettings

variable {p : Params} {s : GeneratorSettings} {r : Random} {e : Event} {number count start : Nat}

/-! ### Settings -/

structure Accepted (p : Params) (s : GeneratorSettings) : Prop where
  rate : (s.rate : Int) = Params.int p "rate_hz" 10000
  batchTime : (s.batchTime : Int) = Params.int p "batch_us" 10000
  width : (s.width : Int) = Params.int p "width" 240
  height : (s.height : Int) = Params.int p "height" 180
  seed : s.seed = Params.int p "seed" 1
  ticks : 0 < s.batchTime
  wide : 0 < s.width ∧ s.width < 65536
  high : 0 < s.height ∧ s.height < 65536
  counted : s.rate * s.batchTime < Word.limit
  few : s.rate * s.batchTime / 1000000 ≤ batchLimit

theorem fits_iff : s.fits = true ↔
    s.rate * s.batchTime < Word.limit ∧ s.rate * s.batchTime / 1000000 ≤ batchLimit := by
  unfold fits Word.checkedMul
  split
  · rename_i counted
    simp [counted]
  · rename_i overflow
    simp [overflow]

theorem ofParams_ok (accepted : ofParams p = .ok s) : Accepted p s := by
  unfold ofParams batchTimeLimit at accepted
  dsimp only at accepted
  split at accepted
  · cases accepted
  split at accepted
  · cases accepted
  split at accepted
  · cases accepted
  split at accepted
  · cases accepted
  split at accepted
  · cases accepted
  rename_i rate batchTime width height fits
  cases accepted
  obtain ⟨counted, few⟩ := fits_iff.mp (by simpa using fits)
  constructor
  case counted => exact counted
  case few => exact few
  case seed => rfl
  all_goals dsimp only; omega

/-- Neither the cut of the product nor the cap on the count ever matters. -/
theorem Accepted.eventsPerBatch_eq (h : Accepted p s) :
    s.eventsPerBatch = s.rate * s.batchTime / 1000000 := by
  have whole : Word.saturatingMul s.rate s.batchTime = s.rate * s.batchTime :=
    Nat.min_eq_left (Nat.le_sub_one_of_lt h.counted)
  rw [eventsPerBatch, whole, Nat.min_eq_left h.few]

/-! ### One batch -/

theorem length_events (s : GeneratorSettings) (number count start : Nat) (r : Random) :
    (s.events number count start r).1.length = count := by
  induction count generalizing start r with
  | zero => rfl
  | succ count ih => rw [events, List.length_cons, ih]

theorem timestamps_events (s : GeneratorSettings) (number count start : Nat) (r : Random) :
    (s.events number count start r).1.map (·.timestamp) =
      (List.range' start count).map fun place =>
        ((number * s.batchTime + s.step * place : Nat) : Int) := by
  induction count generalizing start r with
  | zero => rfl
  | succ count ih =>
    rw [List.range'_succ, List.map_cons, events, List.map_cons, ih]
    rfl

/-- The pixel lies in the array, and the value is a polarity. -/
structure Proper (s : GeneratorSettings) (e : Event) : Prop where
  x : e.x < s.width
  y : e.y < s.height
  value : e.value = 0 ∨ e.value = 1

theorem proper_ofPolarity {t : Int} {x y : Nat} (column : x < s.width) (row : y < s.height)
    (on : Bool) : s.Proper (Event.ofPolarity t x y on) := by
  refine ⟨column, row, ?_⟩
  cases on
  · exact Or.inl rfl
  · exact Or.inr rfl

theorem Accepted.proper_event (h : Accepted p s) (number place : Nat) (r : Random) :
    s.Proper (s.event number place r).1 :=
  proper_ofPolarity (Random.below_lt _ h.wide.1) (Random.below_lt _ h.high.1) _

theorem Accepted.proper_events (h : Accepted p s)
    (mem : e ∈ (s.events number count start r).1) : s.Proper e := by
  induction count generalizing start r with
  | zero => cases mem
  | succ count ih =>
    rw [events] at mem
    rcases List.mem_cons.mp mem with rfl | mem
    · exact h.proper_event number start r
    · exact ih mem

theorem Accepted.step_mul_lt (h : Accepted p s) {place : Nat} (inside : place < s.eventsPerBatch) :
    s.step * place < s.batchTime := by
  have whole : s.step * s.eventsPerBatch ≤ s.batchTime := Nat.div_mul_le_self _ _
  -- With more events than ticks the step is zero, and the product says nothing about the place.
  rcases Nat.eq_zero_or_pos s.step with none | some
  · rw [none, Nat.zero_mul]
    exact h.ticks
  · exact (Nat.mul_lt_mul_of_pos_left inside some).trans_le whole

def batch (s : GeneratorSettings) (number : Nat) (r : Random) : List Event × Random :=
  s.events number s.eventsPerBatch 0 r

/-- The batch with a number, as it must be. -/
structure OnTime (s : GeneratorSettings) (number : Nat) (batch : List Event) : Prop where
  count : batch.length = s.eventsPerBatch
  ascending : batch.Pairwise (·.timestamp ≤ ·.timestamp)
  inside : ∀ e ∈ batch, ((number * s.batchTime : Nat) : Int) ≤ e.timestamp ∧
    e.timestamp < ((number + 1) * s.batchTime : Nat)
  proper : ∀ e ∈ batch, s.Proper e

theorem Accepted.onTime (h : Accepted p s) (number : Nat) (r : Random) :
    s.OnTime number (s.batch number r).1 := by
  have times := timestamps_events s number s.eventsPerBatch 0 r
  unfold batch
  constructor
  case count => apply length_events
  case proper => exact fun e mem => h.proper_events mem
  case ascending =>
    -- The events themselves are drawn at random; only their timestamps follow from the places.
    rw [← List.pairwise_map (R := (· ≤ ·)), times, List.pairwise_map]
    apply (List.pairwise_lt_range' (s := 0) (n := s.eventsPerBatch)).imp
    intro earlier later before
    have := Nat.mul_le_mul_left s.step before.le
    omega
  case inside =>
    intro e mem
    have time := List.mem_map_of_mem (f := (·.timestamp)) mem
    rw [times] at time
    obtain ⟨place, there, same⟩ := List.mem_map.mp time
    have early : place < s.eventsPerBatch := by simpa using there
    have near := h.step_mul_lt early
    have next : (number + 1) * s.batchTime = number * s.batchTime + s.batchTime :=
      Nat.succ_mul _ _
    omega

/-! ### The timeline -/

def batches (s : GeneratorSettings) :
    (first count : Nat) → Random → List (List Event) × Random
  | _, 0, r => ([], r)
  | first, count + 1, r =>
    let batch := s.batch first r
    let rest := s.batches (first + 1) count batch.2
    (batch.1 :: rest.1, rest.2)

theorem length_batches (s : GeneratorSettings) (first count : Nat) (r : Random) :
    (s.batches first count r).1.length = count := by
  induction count generalizing first r with
  | zero => rfl
  | succ count ih => rw [batches, List.length_cons, ih]

theorem batches_succ (s : GeneratorSettings) (first count : Nat) (r : Random) :
    s.batches first (count + 1) r =
      ((s.batches first count r).1 ++ [(s.batch (first + count) (s.batches first count r).2).1],
        (s.batch (first + count) (s.batches first count r).2).2) := by
  induction count generalizing first r with
  | zero => rfl
  | succ count ih =>
    have unrolled (n : Nat) : s.batches first (n + 1) r =
        ((s.batch first r).1 :: (s.batches (first + 1) n (s.batch first r).2).1,
          (s.batches (first + 1) n (s.batch first r).2).2) := rfl
    have number : first + 1 + count = first + (count + 1) := by omega
    rw [unrolled (count + 1), unrolled count, ih, number]
    rfl

theorem Accepted.onTime_batches (h : Accepted p s) {first : Nat} {b : List Event}
    (there : (s.batches first count r).1[number]? = some b) : s.OnTime (first + number) b := by
  induction count generalizing first number r with
  | zero => cases there
  | succ count ih =>
    rw [batches] at there
    cases number with
    | zero =>
      cases there
      exact h.onTime first r
    | succ number =>
      rw [← Nat.add_assoc, Nat.add_right_comm]
      exact ih there

theorem Accepted.ascending_batches (h : Accepted p s) (first count : Nat) (r : Random) :
    (s.batches first count r).1.flatten.Pairwise (·.timestamp ≤ ·.timestamp) := by
  have onTime {number : Nat} (inside : number < (s.batches first count r).1.length) :=
    h.onTime_batches (List.getElem?_eq_getElem inside)
  rw [List.pairwise_flatten]
  constructor
  · intro b mem
    obtain ⟨number, inside, rfl⟩ := List.mem_iff_getElem.mp mem
    exact (onTime inside).ascending
  · rw [List.pairwise_iff_getElem]
    intro i j atI atJ before e inI e' inJ
    have ends := ((onTime atI).inside e inI).2
    have begins := ((onTime atJ).inside e' inJ).1
    have order : (first + i + 1) * s.batchTime ≤ (first + j) * s.batchTime :=
      Nat.mul_le_mul_right _ (by omega)
    omega

end GeneratorSettings

/-! ### The worker -/

namespace GeneratorWorker

variable {w : GeneratorWorker} {capacity : Nat} {listening : Bool}

/-- The batches of the timeline that are behind it. -/
def past (w : GeneratorWorker) : List (List Event) × Random :=
  w.settings.batches 0 w.batches (Random.ofSeed w.settings.seed)

/-- It stands where the timeline does, and its queue has lost batches at most. -/
structure Follows (w : GeneratorWorker) : Prop where
  accepted : ∃ p, GeneratorSettings.Accepted p w.settings
  random : w.random = w.past.2
  queue : w.queue.Sublist w.past.1

theorem past_succ (h : w.random = w.past.2) :
    w.settings.batches 0 (w.batches + 1) (Random.ofSeed w.settings.seed) =
      (w.past.1 ++ [(w.settings.batch w.batches w.random).1],
        (w.settings.batch w.batches w.random).2) := by
  rw [GeneratorSettings.batches_succ, Nat.zero_add, h]
  rfl

theorem produce_cases (capacity : Nat) (listening : Bool) (w : GeneratorWorker) :
    w.produce capacity listening = w ∨
    ∃ queue ended, w.produce capacity listening =
        { w with random := (w.settings.batch w.batches w.random).2, batches := w.batches + 1,
                 queue, ended } ∧
      (queue = w.queue ∨ queue = w.queue ++ [(w.settings.batch w.batches w.random).1]) := by
  unfold produce
  split
  · exact Or.inl rfl
  · dsimp only
    split
    · exact Or.inr ⟨_, _, rfl, Or.inl rfl⟩
    · exact Or.inr ⟨_, _, rfl, Or.inr rfl⟩

theorem Follows.produce (h : w.Follows) (capacity : Nat) (listening : Bool) :
    (w.produce capacity listening).Follows := by
  obtain same | ⟨queue, ended, next, queued⟩ := produce_cases capacity listening w
  · rw [same]
    exact h
  · have grown := past_succ h.random
    rw [next]
    constructor
    case accepted => exact h.accepted
    case random =>
      unfold past
      rw [grown]
    case queue =>
      unfold past
      rw [grown]
      rcases queued with rfl | rfl
      · exact h.queue.trans (List.sublist_append_left _ _)
      · exact h.queue.append_right _

theorem Follows.drained (h : w.Follows) : { w with queue := [] }.Follows :=
  ⟨h.accepted, h.random, List.nil_sublist _⟩

theorem Follows.advance (h : w.Follows) (capacity : Nat) (listening : Bool) (now : Nat) :
    (w.advance capacity listening now).Follows := by
  unfold GeneratorWorker.advance
  induction List.range (w.due now) generalizing w with
  | nil => exact h
  | cons _ due ih => exact ih (h.produce capacity listening)

theorem Follows.queued (h : w.Follows) :
    w.queue.flatten.Pairwise (·.timestamp ≤ ·.timestamp) ∧
      ∀ e ∈ w.queue.flatten, w.settings.Proper e := by
  obtain ⟨p, accepted⟩ := h.accepted
  constructor
  · exact (accepted.ascending_batches 0 w.batches _).sublist h.queue.flatten
  · intro e mem
    obtain ⟨b, queued, inside⟩ := List.mem_flatten.mp mem
    obtain ⟨number, there⟩ := List.mem_iff_getElem?.mp (h.queue.subset queued)
    exact (accepted.onTime_batches there).proper e inside

/-- While there is room and somebody listens, it queues the timeline itself. -/
theorem iterate_produce (s : GeneratorSettings) (started : Nat) {capacity k : Nat}
    (room : k ≤ capacity) :
    let timeline := s.batches 0 k (Random.ofSeed s.seed)
    (GeneratorWorker.produce capacity true)^[k]
        { settings := s, started, random := Random.ofSeed s.seed } =
      { settings := s, started, random := timeline.2, batches := k, queue := timeline.1 } := by
  induction k with
  | zero => rfl
  | succ k ih =>
    have room' : ¬ capacity ≤ (s.batches 0 k (Random.ofSeed s.seed)).1.length := by
      rw [GeneratorSettings.length_batches]
      omega
    dsimp only at ih ⊢
    rw [Function.iterate_succ_apply', ih (by omega), GeneratorSettings.batches_succ, Nat.zero_add]
    unfold GeneratorWorker.produce
    dsimp only
    rw [if_neg Bool.false_ne_true, if_neg room']
    rfl

end GeneratorWorker

/-! ### The module -/

namespace Generator

variable {g : Generator} {p : Params} {now : Nat} {listening : Bool}

def Follows (g : Generator) : Prop := ∀ w ∈ g.worker, w.Follows

theorem follows_spawn {s : GeneratorSettings} (accepted : GeneratorSettings.Accepted p s)
    (g : Generator) (now : Nat) : (g.spawn s now).Follows := by
  intro w mem
  cases mem
  exact ⟨⟨p, accepted⟩, rfl, List.nil_sublist _⟩

theorem Follows.advance (h : g.Follows) (now : Nat) (listening : Bool) :
    (g.advance now listening).Follows := by
  intro w mem
  obtain ⟨w, there, rfl⟩ := Option.map_eq_some_iff.mp mem
  exact (h w there).advance _ _ _

theorem Follows.init (h : g.Follows) (p : Params) (now : Nat) : (g.init p now).1.Follows := by
  unfold Generator.init
  split
  · exact h
  · rename_i accepted
    exact follows_spawn (GeneratorSettings.ofParams_ok accepted) _ now

theorem Follows.config (h : g.Follows) (p : Params) (now : Nat) : (g.config p now).1.Follows := by
  unfold Generator.config
  split
  · exact h
  · rename_i accepted
    split
    · exact h
    · exact follows_spawn (GeneratorSettings.ofParams_ok accepted) _ now

theorem follows_exit (g : Generator) : g.exit.Follows := by
  intro w mem
  cases mem

theorem Follows.reset (h : g.Follows) (now : Nat) (listening : Bool) :
    (g.reset now listening).Follows := by
  have there := h.advance now listening
  unfold Generator.reset
  dsimp only
  split
  · exact there
  · rename_i w some
    intro w' mem
    cases mem
    exact (there w some).drained

theorem Follows.run (h : g.Follows) (id : ModuleId) (now : Nat) (listening : Bool) (io : PacketIo) :
    (g.run id now listening io).1.Follows ∧
      ((g.run id now listening io).2.1 = io ∨
        ∃ w ∈ (g.advance now listening).worker, (g.run id now listening io).2.1 =
          io.emit { source := id, type := .polarity, events := w.queue.flatten }) := by
  have there := h.advance now listening
  unfold Generator.run
  dsimp only
  split
  · exact ⟨there, Or.inl rfl⟩
  · rename_i w working
    split
    · exact ⟨follows_exit _, Or.inl rfl⟩
    · have drained := (there w working).drained
      split
      · refine ⟨?_, Or.inl rfl⟩
        intro w' mem
        cases mem
        exact drained
      · refine ⟨?_, Or.inr ⟨w, working, rfl⟩⟩
        intro w' mem
        cases mem
        exact drained

end Generator

section host

variable [Host]

namespace LibraryModule

def Follows : LibraryModule → Prop
  | generator g => g.Follows
  | _ => True

theorem follows_of_handled {kind : Library} {capacity : Nat} {running : Bool} {m : LibraryModule}
    (h : Handled (kind.create capacity) running m) : m.Follows := by
  induction h with
  | new =>
    cases kind with
    | generator => exact (Generator.ofCapacity capacity).follows_exit
    | _ => trivial
  | @started m h c s ok ih | @refused m h c s failed ih =>
    cases m with
    | generator g => exact Generator.Follows.init ih c.params c.time
    | _ => trivial
  | @config m h c s ih =>
    cases m with
    | generator g => exact Generator.Follows.config ih c.params c.time
    | _ => trivial
  | @run m h c io s ih =>
    cases m with
    | generator g => exact (Generator.Follows.run ih c.id c.time c.listening io).1
    | _ => trivial
  | @reset m h c source s ih =>
    cases m with
    | generator g => exact Generator.Follows.reset ih c.time c.listening
    | _ => trivial
  | @exit m h c s ih =>
    cases m with
    | generator g => exact g.follows_exit
    | _ => trivial

end LibraryModule

theorem Generator.run_in_order {g : Generator} {capacity now : Nat} {running listening : Bool}
    (handled : Handled (Library.generator.create capacity) running (.generator g)) (id : ModuleId)
    (io : PacketIo) :
    (g.run id now listening io).2.1 = io ∨
      ∃ w ∈ (g.advance now listening).worker, ∃ events,
        (g.run id now listening io).2.1 = io.emit { source := id, type := .polarity, events } ∧
        events.Pairwise (·.timestamp ≤ ·.timestamp) ∧ ∀ e ∈ events, w.settings.Proper e := by
  have follows : g.Follows := LibraryModule.follows_of_handled handled
  obtain same | ⟨w, working, emitted⟩ := (follows.run id now listening io).2
  · exact Or.inl same
  · exact Or.inr ⟨w, working, _, emitted, (follows.advance now listening w working).queued⟩

end host

/-! ### What is generated -/

namespace GeneratorSettings

variable {p : Params} {s : GeneratorSettings}

/-- Whatever the seed, every batch of accepted settings has the number of events that the rate makes,
counted without a loss, and the events of all the batches stand in order, each in the time of its
batch. -/
theorem timeline {k : Nat} (accepted : ofParams p = .ok s)
    (bounded : (k + 1) * s.batchTime ≤ 2 ^ 63 - 1) :
    let generated := (s.batches 0 k (Random.ofSeed s.seed)).1
    Accepted p s ∧
    (Word.checkedMul s.rate s.batchTime = some (s.rate * s.batchTime) ∧
      Word.saturatingMul s.rate s.batchTime = s.rate * s.batchTime ∧
      s.eventsPerBatch = s.rate * s.batchTime / 1000000 ∧ s.eventsPerBatch ≤ 2 ^ 22) ∧
    (∀ started capacity, k ≤ capacity →
      ((GeneratorWorker.produce capacity true)^[k]
        { settings := s, started, random := Random.ofSeed s.seed }).queue = generated) ∧
    generated.length = k ∧
    (∀ (number : Nat) batch, generated[number]? = some batch →
      batch.length = s.rate * s.batchTime / 1000000 ∧
      (number + 1) * s.batchTime ≤ 2 ^ 63 - 1 ∧
      ∀ e ∈ batch,
        ((number * s.batchTime : Nat) : Int) ≤ e.timestamp ∧
        e.timestamp < ((number + 1) * s.batchTime : Nat) ∧
        e.x < s.width ∧ e.y < s.height ∧ (e.value = 0 ∨ e.value = 1)) ∧
    generated.flatten.Pairwise (·.timestamp ≤ ·.timestamp) := by
  have h := ofParams_ok accepted
  refine ⟨h, ⟨if_pos h.counted, ?_, h.eventsPerBatch_eq, Nat.min_le_right _ _⟩, ?_,
    length_batches .., ?_, h.ascending_batches 0 k _⟩
  · exact Nat.min_eq_left (Nat.le_sub_one_of_lt h.counted)
  · intro started capacity room
    rw [GeneratorWorker.iterate_produce s started room]
  · intro number batch there
    obtain ⟨count, -, inside, proper⟩ := h.onTime_batches there
    have early : number < k := by
      obtain ⟨early, -⟩ := List.getElem?_eq_some_iff.mp there
      rwa [length_batches] at early
    rw [Nat.zero_add] at inside
    refine ⟨count.trans h.eventsPerBatch_eq, ?_, fun e mem => ?_⟩
    · exact (Nat.mul_le_mul_right _ (by omega)).trans bounded
    · obtain ⟨x, y, value⟩ := proper e mem
      exact ⟨(inside e mem).1, (inside e mem).2, x, y, value⟩

/-- More events than microseconds. -/
theorem timeline_crowded :
    let p : Params := [("rate_hz", .int 2500000), ("batch_us", .int 3)]
    let s : GeneratorSettings :=
      { rate := 2500000, batchTime := 3, width := 240, height := 180, seed := 1 }
    ofParams p = .ok s ∧ (5 + 1) * s.batchTime ≤ 2 ^ 63 - 1 ∧
      ∀ (number : Nat) batch, (s.batches 0 5 (Random.ofSeed s.seed)).1[number]? = some batch →
        batch.length = 7 ∧ ∀ e ∈ batch, e.timestamp < ((number + 1) * 3 : Nat) := by
  intro p s
  have accepted : ofParams p = .ok s := by decide +kernel
  have bounded : (5 + 1) * s.batchTime ≤ 2 ^ 63 - 1 := by decide
  refine ⟨accepted, bounded, fun number batch there => ?_⟩
  obtain ⟨-, -, -, -, batches, -⟩ := timeline accepted bounded
  obtain ⟨count, -, events⟩ := batches number batch there
  exact ⟨count.trans (by decide), fun e mem => (events e mem).2.1⟩

end GeneratorSettings
end EventFlow

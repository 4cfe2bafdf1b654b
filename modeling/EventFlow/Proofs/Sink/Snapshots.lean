import Mathlib
import EventFlow.Sink.Statistics

/-!
What the snapshots of the statistics tell. The runs since an init or a reset fall into windows, each
of which ends with a snapshot; a window knows its own packets and, for the gap to its first packet,
the last timestamp of the windows before it.
-/

namespace EventFlow.Statistics

variable {s : Statistics} {before window : List Packet} {p : Packet} {t : Int}

theorem concat_eq_append_cons {α : Type} {xs pre post : List α} {a b : α} :
    xs ++ [a] = pre ++ b :: post ↔
      (pre = xs ∧ b = a ∧ post = []) ∨ ∃ rest, post = rest ++ [a] ∧ xs = pre ++ b :: rest := by
  rcases List.eq_nil_or_concat post with rfl | ⟨rest, c, rfl⟩
  · rw [List.append_singleton_inj]
    constructor
    · rintro ⟨rfl, rfl⟩
      exact Or.inl ⟨rfl, rfl, rfl⟩
    · rintro (⟨rfl, rfl, -⟩ | ⟨rest, impossible, -⟩)
      · exact ⟨rfl, rfl⟩
      · simp at impossible
  · rw [List.concat_eq_append, ← List.cons_append, ← List.append_assoc, List.append_singleton_inj]
    constructor
    · rintro ⟨rfl, rfl⟩
      exact Or.inr ⟨rest, rfl, rfl⟩
    · rintro (⟨-, -, impossible⟩ | ⟨rest', same, rfl⟩)
      · simp at impossible
      · obtain ⟨rfl, rfl⟩ := List.append_singleton_inj.mp same
        exact ⟨rfl, rfl⟩

/-! ### Gaps -/

def Last (packets : List Packet) (t : Int) : Prop :=
  ∃ earlier q between, packets = earlier ++ q :: between ∧ (∀ e ∈ between, e.events = []) ∧
    q.lastTimestamp? = some t

/-- How far a packet of the window lies behind the packet before it that held any event. -/
def Gap (before window : List Packet) (gap : Int) : Prop :=
  ∃ inside p later first last, window = inside ++ p :: later ∧ p.firstTimestamp? = some first ∧
    Last (before ++ inside) last ∧ gap = first - last

theorem lastTimestamp_eq_none : p.lastTimestamp? = none ↔ p.events = [] := by
  unfold Packet.lastTimestamp?
  rw [Option.map_eq_none_iff, List.getLast?_eq_none_iff]

theorem last_concat (packets : List Packet) (p : Packet) (t : Int) :
    Last (packets ++ [p]) t ↔
      p.lastTimestamp? = some t ∨ p.lastTimestamp? = none ∧ Last packets t := by
  rw [lastTimestamp_eq_none]
  constructor
  · rintro ⟨earlier, q, between, place, silent, last⟩
    obtain ⟨-, rfl, -⟩ | ⟨rest, rfl, rfl⟩ := concat_eq_append_cons.mp place
    · exact Or.inl last
    · obtain ⟨before, empty⟩ := List.forall_mem_append.mp silent
      exact Or.inr ⟨empty p (List.mem_singleton_self p), earlier, q, rest, rfl, before, last⟩
  · rintro (last | ⟨empty, earlier, q, between, rfl, silent, last⟩)
    · exact ⟨packets, p, [], rfl, by simp, last⟩
    · refine ⟨earlier, q, between ++ [p], by simp, ?_, last⟩
      exact List.forall_mem_append.mpr ⟨silent, by simpa using empty⟩

theorem gap_concat (gap : Int) : Gap before (window ++ [p]) gap ↔ Gap before window gap ∨
    ∃ first last, p.firstTimestamp? = some first ∧ Last (before ++ window) last ∧
      gap = first - last := by
  constructor
  · rintro ⟨inside, p', later, first, last, place, facts⟩
    obtain ⟨rfl, rfl, -⟩ | ⟨rest, rfl, rfl⟩ := concat_eq_append_cons.mp place
    · exact Or.inr ⟨first, last, facts⟩
    · exact Or.inl ⟨inside, p', rest, first, last, rfl, facts⟩
  · rintro (⟨inside, p', later, first, last, rfl, facts⟩ | ⟨first, last, facts⟩)
    · exact ⟨inside, p', later ++ [p], first, last, by simp, facts⟩
    · exact ⟨window, p, [], first, last, rfl, facts⟩

/-! ### Counting -/

def eventCount (packets : List Packet) : Nat := (packets.map (·.events.length)).sum

def validCount (packets : List Packet) : Nat := (packets.map (·.valid.length)).sum

theorem eventCount_append (a b : List Packet) : eventCount (a ++ b) = eventCount a + eventCount b := by
  simp [eventCount]

theorem validCount_append (a b : List Packet) : validCount (a ++ b) = validCount a + validCount b := by
  simp [validCount]

theorem validCount_le (packets : List Packet) : validCount packets ≤ eventCount packets :=
  List.sum_le_sum fun _ _ => List.length_filter_le ..

structure Counts (s : Statistics) (before window : List Packet) : Prop where
  total : s.total = eventCount window
  valid : s.valid = validCount window
  maxGap : IsGreatest (insert 0 {gap | Gap before window gap}) s.maxGap
  last : ∀ t, s.lastTimestamp = some t ↔ Last (before ++ window) t

theorem Counts.gaps_some (h : Counts s before window) {first last : Int}
    (known : s.lastTimestamp = some last) (begins : p.firstTimestamp? = some first) :
    insert 0 {gap | Gap before (window ++ [p]) gap} =
      insert (first - last) (insert 0 {gap | Gap before window gap}) := by
  rw [Set.insert_comm]
  congr 1
  ext gap
  simp [gap_concat, ← h.last, known, begins, or_comm]

theorem Counts.gaps_none (h : Counts s before window)
    (missing : ∀ last first, s.lastTimestamp = some last → p.firstTimestamp? = some first → False) :
    insert 0 {gap | Gap before (window ++ [p]) gap} = insert 0 {gap | Gap before window gap} := by
  congr 1
  ext gap
  refine (gap_concat gap).trans (or_iff_left ?_)
  rintro ⟨first, last, begins, known, -⟩
  exact missing last first ((h.last last).mpr known) begins

theorem Counts.count (h : Counts s before window) (p : Packet) :
    Counts (s.count p) before (window ++ [p]) := by
  constructor
  case total => simp [Statistics.count, eventCount, h.total]
  case valid => simp [Statistics.count, validCount, h.valid]
  case last =>
    intro t
    rw [← List.append_assoc, last_concat, ← h.last t]
    show p.lastTimestamp?.or s.lastTimestamp = some t ↔ _
    rw [Option.or_eq_some_iff]
  case maxGap =>
    unfold Statistics.count
    dsimp only
    split
    · rename_i last first known begins
      rw [h.gaps_some known begins, max_comm]
      exact h.maxGap.insert _
    · rename_i missing
      rw [h.gaps_none missing]
      exact h.maxGap

theorem Counts.foldl (h : Counts s before window) (packets : List Packet) :
    Counts (packets.foldl Statistics.count s) before (window ++ packets) := by
  induction packets generalizing s window with
  | nil => simpa using h
  | cons p packets ih =>
    rw [List.append_cons]
    exact ih (h.count p)

theorem Counts.close (h : Counts s before window) (start : Option Nat)
    (taken : Option StatisticsSnapshot) :
    Counts { s with windowStart := start, total := 0, valid := 0, maxGap := 0, lastSnapshot := taken }
      (before ++ window) [] := by
  constructor
  case total => rfl
  case valid => rfl
  case last => simpa using h.last
  case maxGap =>
    have none : {gap | Gap (before ++ window) [] gap} = ∅ := by
      ext gap
      simp [Gap]
    simp [none]

/-! ### Runs -/

/-- What a snapshot tells about its window. -/
structure Tells (snapshot : StatisticsSnapshot) (before window : List Packet) : Prop where
  total : snapshot.total = eventCount window
  valid : snapshot.valid = validCount window
  maxGap : IsGreatest (insert 0 {gap | Gap before window gap}) snapshot.maxGap

/-- The rates of a snapshot are its counts over the seconds of some time. -/
def Rated (snapshot : StatisticsSnapshot) (elapsed : Nat) : Prop :=
  snapshot.totalPerSecond = snapshot.total.toFloat / seconds elapsed ∧
    snapshot.validPerSecond = snapshot.valid.toFloat / seconds elapsed

theorem Counts.snapshot (h : Counts s before window) (elapsed : Nat) :
    Tells (s.snapshot elapsed) before window :=
  ⟨h.total, h.valid, h.maxGap⟩

theorem foldl_count (packets : List Packet) (s : Statistics) :
    (packets.foldl count s).windowStart = s.windowStart ∧
      (packets.foldl count s).interval = s.interval := by
  induction packets generalizing s with
  | nil => exact ⟨rfl, rfl⟩
  | cons p packets ih => exact ih (s.count p)

theorem Counts.counted (h : Counts s before window) (start : Nat) (packets : List Packet) :
    Counts (packets.foldl Statistics.count { s with windowStart := some start }) before
      (window ++ packets) := by
  have opened : Counts { s with windowStart := some start } before window :=
    ⟨h.total, h.valid, h.maxGap, h.last⟩
  exact opened.foldl packets

theorem Counts.run_due (h : Counts s before window) {now : Nat} (packets : List Packet)
    (due : s.interval ≤ now - s.windowStart.getD now) :
    ∃ snapshot, (s.run now packets).2 = some snapshot ∧
      Tells snapshot before (window ++ packets) ∧ Rated snapshot (now - s.windowStart.getD now) ∧
      Counts (s.run now packets).1 (before ++ (window ++ packets)) [] ∧
      (s.run now packets).1.windowStart = some now := by
  have counted := h.counted (s.windowStart.getD now) packets
  have kept := (foldl_count packets { s with windowStart := some (s.windowStart.getD now) }).2
  unfold Statistics.run
  dsimp only at kept ⊢
  rw [if_pos (kept.le.trans due)]
  exact ⟨_, rfl, counted.snapshot _, ⟨rfl, rfl⟩, counted.close _ _, rfl⟩

theorem Counts.run_early (h : Counts s before window) {now : Nat} (packets : List Packet)
    (early : ¬ s.interval ≤ now - s.windowStart.getD now) :
    (s.run now packets).2 = none ∧ Counts (s.run now packets).1 before (window ++ packets) ∧
      (s.run now packets).1.windowStart = some (s.windowStart.getD now) := by
  have counted := h.counted (s.windowStart.getD now) packets
  obtain ⟨begun, kept⟩ := foldl_count packets { s with windowStart := some (s.windowStart.getD now) }
  unfold Statistics.run
  dsimp only at begun kept ⊢
  rw [if_neg fun late => early (kept.ge.trans late)]
  exact ⟨rfl, counted, begun⟩

theorem run_interval (s : Statistics) (now : Nat) (packets : List Packet) :
    (s.run now packets).1.interval = s.interval := by
  have kept := (foldl_count packets { s with windowStart := some (s.windowStart.getD now) }).2
  unfold Statistics.run
  dsimp only at kept ⊢
  split
  · exact kept
  · exact kept

/-! ### Calls -/

/-- What is called between an init or a reset and the next. -/
inductive Call where
  | run (now : Nat) (packets : List Packet)
  | config (p : Params)

namespace Call

def packets : Call → List Packet
  | run _ packets => packets
  | config _ => []

def time? : Call → Option Nat
  | run now _ => some now
  | config _ => none

def interval (before : Nat) : Call → Nat
  | run _ _ => before
  | config p =>
    if 0 < Params.int p "interval_ms" 1000 then (Params.int p "interval_ms" 1000).toNat * 1000000
    else before

end Call

def call (s : Statistics) : Call → Statistics × Option StatisticsSnapshot
  | .run now packets => s.run now packets
  | .config p => ((s.config p).1, none)

def calls (s : Statistics) : List Call → Statistics × List StatisticsSnapshot
  | [] => (s, [])
  | c :: cs => (((s.call c).1.calls cs).1, (s.call c).2.toList ++ ((s.call c).1.calls cs).2)

def packetsOf (cs : List Call) : List Packet := cs.flatMap Call.packets

def timesOf (cs : List Call) : List Nat := cs.filterMap Call.time?

@[simp] theorem call_run (s : Statistics) (now : Nat) (packets : List Packet) :
    s.call (.run now packets) = s.run now packets := rfl

@[simp] theorem call_config (s : Statistics) (p : Params) : s.call (.config p) = ((s.config p).1, none) :=
  rfl

@[simp] theorem packetsOf_append (a b : List Call) : packetsOf (a ++ b) = packetsOf a ++ packetsOf b :=
  List.flatMap_append

@[simp] theorem packetsOf_run (now : Nat) (packets : List Packet) :
    packetsOf [.run now packets] = packets := List.append_nil packets

@[simp] theorem packetsOf_config (p : Params) : packetsOf [.config p] = [] := rfl

@[simp] theorem timesOf_append (a b : List Call) : timesOf (a ++ b) = timesOf a ++ timesOf b :=
  List.filterMap_append

@[simp] theorem timesOf_run (now : Nat) (packets : List Packet) : timesOf [.run now packets] = [now] :=
  rfl

@[simp] theorem timesOf_config (p : Params) : timesOf [.config p] = [] := rfl

theorem calls_append (s : Statistics) (a b : List Call) :
    s.calls (a ++ b) = (((s.calls a).1.calls b).1, (s.calls a).2 ++ ((s.calls a).1.calls b).2) := by
  induction a generalizing s with
  | nil => rfl
  | cons c a ih =>
    rw [List.cons_append, calls, calls, ih, List.append_assoc]

theorem call_interval (s : Statistics) (c : Call) : (s.call c).1.interval = c.interval s.interval := by
  cases c with
  | run now packets => exact s.run_interval now packets
  | config p =>
    unfold call config Call.interval
    dsimp only
    split
    · rename_i low
      rw [if_neg (by omega)]
    · rename_i positive
      rw [if_pos (by omega)]

theorem Call.interval_pos {i : Nat} (positive : 0 < i) (c : Call) : 0 < c.interval i := by
  cases c with
  | run now packets => exact positive
  | config p =>
    unfold Call.interval
    dsimp only
    split
    · omega
    · exact positive

structure Windows (s : Statistics) (closed since : List Call) : Prop where
  boundary : closed = [] ∨
    ∃ earlier last, closed = earlier ++ [last] ∧ ((s.calls earlier).1.call last).2 ≠ none
  quiet : (s.calls (closed ++ since)).2 = (s.calls closed).2
  totals : ((s.calls closed).2.map (·.total)).sum = eventCount (packetsOf closed)
  valids : ((s.calls closed).2.map (·.valid)).sum = validCount (packetsOf closed)
  ordered : ∀ snapshot ∈ (s.calls closed).2, snapshot.valid ≤ snapshot.total
  counts : Counts (s.calls (closed ++ since)).1 (packetsOf closed) (packetsOf since)
  start : (s.calls (closed ++ since)).1.windowStart =
    (timesOf closed).getLast?.or (timesOf since).head?

variable {closed since : List Call} {now : Nat} {packets : List Packet}

theorem calls_concat (s : Statistics) (cs : List Call) (c : Call) :
    s.calls (cs ++ [c]) =
      (((s.calls cs).1.call c).1, (s.calls cs).2 ++ ((s.calls cs).1.call c).2.toList) := by
  rw [calls_append, calls, calls, List.append_nil]

theorem Windows.early (h : Windows s closed since)
    (early : ¬ (s.calls (closed ++ since)).1.interval ≤
      now - (s.calls (closed ++ since)).1.windowStart.getD now) :
    Windows s closed (since ++ [.run now packets]) := by
  obtain ⟨none, counts, begun⟩ := h.counts.run_early packets early
  have next := calls_concat s (closed ++ since) (.run now packets)
  rw [List.append_assoc, call_run, none, Option.toList_none, List.append_nil] at next
  constructor
  case boundary => exact h.boundary
  case totals => exact h.totals
  case valids => exact h.valids
  case ordered => exact h.ordered
  case quiet => rw [next, h.quiet]
  case counts =>
    rw [next, packetsOf_append, packetsOf_run]
    exact counts
  case start =>
    rw [next, timesOf_append, timesOf_run]
    refine begun.trans ?_
    rw [h.start]
    cases (timesOf closed).getLast? with
    | some t => rfl
    | none => cases timesOf since <;> rfl

theorem Windows.due (h : Windows s closed since)
    (due : (s.calls (closed ++ since)).1.interval ≤
      now - (s.calls (closed ++ since)).1.windowStart.getD now) :
    Windows s (closed ++ since ++ [.run now packets]) [] := by
  obtain ⟨snapshot, taken, tells, -, counts, begun⟩ := h.counts.run_due packets due
  have next := calls_concat s (closed ++ since) (.run now packets)
  rw [call_run, taken, h.quiet, Option.toList_some] at next
  constructor
  case boundary =>
    refine Or.inr ⟨_, _, rfl, ?_⟩
    rw [call_run, taken]
    exact Option.some_ne_none snapshot
  case quiet => rw [List.append_nil]
  case totals =>
    rw [next, List.map_append, List.sum_append, h.totals]
    simp [eventCount_append, tells.total]
  case valids =>
    rw [next, List.map_append, List.sum_append, h.valids]
    simp [validCount_append, tells.valid]
  case ordered =>
    rw [next]
    intro snapshot' mem
    rcases List.mem_append.mp mem with old | new
    · exact h.ordered snapshot' old
    · rw [List.mem_singleton.mp new, tells.valid, tells.total]
      apply validCount_le
  case counts =>
    rw [List.append_nil, next, packetsOf_append, packetsOf_append, packetsOf_run, List.append_assoc]
    exact counts
  case start =>
    rw [List.append_nil, next, timesOf_append, timesOf_run, List.getLast?_concat]
    exact begun

theorem config_cases (s : Statistics) (p : Params) :
    ∃ interval, (s.config p).1 = { s with interval } := by
  unfold config
  dsimp only
  split
  · exact ⟨s.interval, rfl⟩
  · exact ⟨_, rfl⟩

theorem Windows.config (h : Windows s closed since) (p : Params) :
    Windows s closed (since ++ [.config p]) := by
  have next := calls_concat s (closed ++ since) (.config p)
  obtain ⟨interval, same⟩ := config_cases (s.calls (closed ++ since)).1 p
  rw [List.append_assoc, call_config, same, Option.toList_none, List.append_nil] at next
  constructor
  case boundary => exact h.boundary
  case totals => exact h.totals
  case valids => exact h.valids
  case ordered => exact h.ordered
  case quiet => rw [next, h.quiet]
  case counts =>
    rw [next, packetsOf_append, packetsOf_config, List.append_nil]
    exact ⟨h.counts.total, h.counts.valid, h.counts.maxGap, h.counts.last⟩
  case start =>
    rw [next, timesOf_append, timesOf_config, List.append_nil]
    exact h.start

/-! ### Since an init or a reset -/

/-- The states of a module. -/
inductive Reached : Statistics → Prop where
  | new : Reached {}
  | init {s : Statistics} (h : Reached s) (p : Params) : Reached (s.init p).1
  | call {s : Statistics} (h : Reached s) (c : Call) : Reached (s.call c).1
  | reset {s : Statistics} (h : Reached s) : Reached s.clear

/-- The states that an init or a reset leaves. -/
inductive Opened : Statistics → Prop where
  | init {s : Statistics} (h : Reached s) (p : Params) : Opened (s.init p).1
  | reset {s : Statistics} (h : Reached s) : Opened s.clear

theorem config_interval_pos (positive : 0 < s.interval) (p : Params) :
    0 < (s.config p).1.interval := by
  rw [show (s.config p).1.interval = _ from call_interval s (.config p)]
  exact Call.interval_pos positive _

theorem Reached.interval_pos (h : Reached s) : 0 < s.interval := by
  induction h with
  | new => decide
  | @init s h p ih => exact config_interval_pos (s := { s.clear with lastSnapshot := none }) ih p
  | call h c ih =>
    rw [call_interval]
    exact Call.interval_pos ih c
  | reset h ih => exact ih

theorem Opened.interval_pos (h : Opened s) : 0 < s.interval := by
  cases h with
  | init h p => exact (h.init p).interval_pos
  | reset h => exact h.interval_pos

theorem Opened.clear_eq (h : Opened s) : s.clear = s := by
  cases h with
  | @init s h p =>
    obtain ⟨interval, same⟩ := config_cases { s.clear with lastSnapshot := none } p
    unfold Statistics.init
    rw [same]
    rfl
  | reset h => rfl

theorem Opened.windows (h : Opened s) : Windows s [] [] := by
  have cleared := h.clear_eq
  constructor
  case boundary => exact Or.inl rfl
  case quiet => rfl
  case totals => rfl
  case valids => rfl
  case ordered => simp [calls]
  case start => exact congrArg windowStart cleared.symm
  case counts =>
    constructor
    case total => exact congrArg total cleared.symm
    case valid => exact congrArg valid cleared.symm
    case last =>
      intro t
      have never : s.lastTimestamp = none := congrArg lastTimestamp cleared.symm
      simp [calls, never, Last, packetsOf]
    case maxGap =>
      have zero : s.maxGap = 0 := congrArg maxGap cleared.symm
      simp [calls, zero, Gap, packetsOf]

end EventFlow.Statistics

import Mathlib
import EventFlow.Present
import EventFlow.Processor.Accumulator
import EventFlow.Proofs.Host

/-!
The accumulator by its windows. Time is cut into windows of one length from the first valid event on,
and each window that holds an event becomes one frame as soon as an event of a later window comes.
After events in turn the accumulator is a function of these events, which gives the frames that it
has emitted; how the events were divided among packets and runs leaves no trace. This holds as long as
the times that are computed have 64 bits.
-/

namespace EventFlow.Accumulator

structure Settings where
  frameTime : Int
  signed : Bool
  width : Nat
  height : Nat
deriving DecidableEq

def settings (p : Params) : Settings where
  frameTime := Params.int p "frame_us" 33000
  signed := Params.bool p "signed" false
  width := (Params.int p "width" 240).toNat
  height := (Params.int p "height" 180).toNat

/-! ### One event -/

section event

variable {a b : Accumulator} {e : Event} {now stop : Int} {frame : List Event}

theorem frameEvents_eq {width : Nat} (positive : 0 < width) (sums : List (Int × Nat)) :
    frameEvents width stop sums = .ok (sums.filterMap fun q =>
      if q.1 = 0 then none
      else some { timestamp := stop, x := q.2 % width % 65536, y := q.2 / width % 65536,
                  value := q.1 }) := by
  induction sums with
  | nil => rfl
  | cons q sums ih =>
    obtain ⟨n, i⟩ := q
    by_cases empty : n = 0
    · rw [frameEvents, if_pos empty, ih, List.filterMap_cons, if_pos empty]
    · rw [frameEvents, if_neg empty, if_neg positive.ne', ih, List.filterMap_cons, if_neg empty]
      rfl

variable [Host]

theorem turn_within (stop : Word.Signed (now + a.frameTime))
    (within : e.timestamp < now + a.frameTime) : a.turn now e = (a, .ok []) := by
  have passed : a.passed now e = .ok none := by
    simp only [Accumulator.passed, Word.signed_of_fits stop, bind, Except.bind,
      if_neg (Int.not_le.mpr within)]
    rfl
  simp only [turn, passed]

theorem passed_behind (positive : 0 < a.frameTime) (stop : Word.Signed (now + a.frameTime))
    (behind : now + a.frameTime ≤ e.timestamp) (elapsed : Word.Signed (e.timestamp - now)) :
    a.passed now e = .ok (some (now + a.frameTime, (e.timestamp - now) / a.frameTime)) := by
  have ahead : 0 ≤ e.timestamp - now := by omega
  have cut : (e.timestamp - now).tdiv a.frameTime = (e.timestamp - now) / a.frameTime :=
    Int.tdiv_eq_ediv_of_nonneg ahead
  have fits : Word.Signed ((e.timestamp - now).tdiv a.frameTime) := by
    have least := Int.ediv_nonneg ahead positive.le
    have most := Int.ediv_le_self a.frameTime ahead
    rw [cut]
    omega
  simp only [Accumulator.passed, Word.signed_of_fits stop, Word.signed_of_fits elapsed, bind,
    Except.bind, if_pos behind, Word.quotient_of_fits positive.ne' fits, cut]
  rfl

theorem later_behind (positive : 0 < a.frameTime) (stop : Word.Signed (now + a.frameTime))
    (behind : now + a.frameTime ≤ e.timestamp) (elapsed : Word.Signed (e.timestamp - now))
    (timed : Word.Signed e.timestamp) :
    a.later now ((e.timestamp - now) / a.frameTime) =
      .ok (now + (e.timestamp - now) / a.frameTime * a.frameTime) := by
  have most : (e.timestamp - now) / a.frameTime * a.frameTime ≤ e.timestamp - now :=
    Int.ediv_mul_le _ positive.ne'
  have one : 1 ≤ (e.timestamp - now) / a.frameTime :=
    (Int.le_ediv_iff_mul_le positive).mpr (by omega)
  have least : a.frameTime ≤ (e.timestamp - now) / a.frameTime * a.frameTime :=
    le_mul_of_one_le_left positive.le one
  have time : Word.Signed ((e.timestamp - now) / a.frameTime * a.frameTime) := by omega
  have next : Word.Signed (now + (e.timestamp - now) / a.frameTime * a.frameTime) := by omega
  simp only [later, Word.signed_of_fits time, bind, Except.bind, Word.signed_of_fits next]

theorem turn_behind (positive : 0 < a.frameTime) (stop : Word.Signed (now + a.frameTime))
    (behind : now + a.frameTime ≤ e.timestamp) (elapsed : Word.Signed (e.timestamp - now))
    (timed : Word.Signed e.timestamp) (flushed : a.flush (now + a.frameTime) = .ok (b, frame))
    (same : b.frameTime = a.frameTime) :
    a.turn now e =
      ({ b with frameStart := some (now + (e.timestamp - now) / a.frameTime * a.frameTime) },
        .ok frame) := by
  have next : b.later now ((e.timestamp - now) / a.frameTime) =
      .ok (now + (e.timestamp - now) / a.frameTime * a.frameTime) := by
    rw [later, same]
    exact later_behind positive stop behind elapsed timed
  simp only [turn, passed_behind positive stop behind elapsed, flushed, next]

theorem take_eq {c : Accumulator} (current : a.frameStart.getD e.timestamp = now)
    (turned : ({ a with frameStart := some now } : Accumulator).turn now e = (b, .ok frame))
    (added : b.add e = .ok c) : a.take e = (c, .ok frame) := by
  subst current
  simp only [take, turned, added]

end event

namespace Settings

variable {s : Settings} {t0 now stop : Int} {es : List Event} {e : Event} {k n : Nat}
  {start : Option Int}

/-! ### What the windows say -/

/-- The number of the window that an event falls into when the first one starts at `t0`. -/
def window (s : Settings) (t0 : Int) (e : Event) : Nat := ((e.timestamp - t0) / s.frameTime).toNat

def during (s : Settings) (t0 : Int) (es : List Event) (k : Nat) : List Event :=
  es.filter fun e => s.window t0 e = k

def delta (s : Settings) (e : Event) : Int := if s.signed && !e.polarity then -1 else 1

def total (s : Settings) (es : List Event) (x y : Nat) : Int :=
  ((es.filter fun e => e.x = x ∧ e.y = y).map s.delta).sum

/-- One event for each pixel whose total is not zero, row by row. -/
def frame (s : Settings) (stop : Int) (es : List Event) : List Event :=
  (List.range s.height).flatMap fun y => (List.range s.width).filterMap fun x =>
    if s.total es x y = 0 then none
    else some { timestamp := stop, x, y, value := s.total es x y }

def last (s : Settings) (t0 : Int) (es : List Event) : Nat :=
  (es.getLast?.map (s.window t0)).getD 0

/-- The windows before the last one that hold an event. -/
def completed (s : Settings) (t0 : Int) (es : List Event) : List Nat :=
  (List.range (s.last t0 es)).filter fun k => s.during t0 es k ≠ []

def frames (s : Settings) (t0 : Int) (es : List Event) : List Event :=
  (s.completed t0 es).flatMap fun k : Nat =>
    s.frame (t0 + (k + 1) * s.frameTime) (s.during t0 es k)

/-- The totals of the pixels inside the array are those of 32 bits. -/
def Fits (s : Settings) (es : List Event) : Prop :=
  ∀ x y, x < s.width → y < s.height → -2147483648 ≤ s.total es x y ∧ s.total es x y ≤ 2147483647

abbrev Narrow (es : List Event) : Prop := ∀ e ∈ es, e.x < 65536 ∧ e.y < 65536

/-- Events in the order of time from `t0` on, whose totals never leave 32 bits. -/
structure Orderly (s : Settings) (t0 : Int) (es : List Event) : Prop where
  first : ∀ e ∈ es.head?, e.timestamp = t0
  ascending : es.Pairwise (·.timestamp ≤ ·.timestamp)
  narrow : Narrow es
  limits : ∀ pre, pre <+: es → ∀ k, s.Fits (s.during t0 pre k)

/-- The times that are computed for events in turn have 64 bits: the end of the current window and,
for an event behind it, how far it lies behind the start. -/
structure Computable (s : Settings) (t0 : Int) (es : List Event) : Prop where
  timed : ∀ e ∈ es, Word.Signed e.timestamp
  stop : ∀ pre e, pre ++ [e] <+: es →
    Word.Signed (t0 + s.last t0 pre * s.frameTime + s.frameTime)
  elapsed : ∀ pre e, pre ++ [e] <+: es →
    t0 + s.last t0 pre * s.frameTime + s.frameTime ≤ e.timestamp →
    Word.Signed (e.timestamp - (t0 + s.last t0 pre * s.frameTime))

structure Accepted (s : Settings) : Prop where
  frameTime : 0 < s.frameTime
  width : 0 < s.width
  counted : s.width * s.height < Word.limit

/-! ### Totals in an array -/

theorem total_append (s : Settings) (es : List Event) (e : Event) (x y : Nat) :
    s.total (es ++ [e]) x y = s.total es x y + if e.x = x ∧ e.y = y then s.delta e else 0 := by
  by_cases same : e.x = x ∧ e.y = y
  · simp [total, same]
  · simp [total, same]

theorem abs_total_le (s : Settings) (es : List Event) (x y : Nat) :
    |s.total es x y| ≤ es.length := by
  induction es using List.reverseRecOn with
  | nil => simp [total]
  | append_singleton es e ih =>
    have unit : |if e.x = x ∧ e.y = y then s.delta e else 0| ≤ 1 := by
      unfold delta
      split_ifs <;> decide
    rw [total_append, List.length_append, Nat.cast_add]
    exact (abs_add_le _ _).trans (add_le_add ih unit)

theorem Orderly.of_short (first : ∀ e ∈ es.head?, e.timestamp = t0)
    (ascending : es.Pairwise (·.timestamp ≤ ·.timestamp))
    (narrow : Narrow es) (short : es.length ≤ 2147483647) :
    s.Orderly t0 es := by
  refine ⟨first, ascending, narrow, fun pre prior k x y _ _ => ?_⟩
  have bound := abs_le.mp (s.abs_total_le (s.during t0 pre k) x y)
  have part : (s.during t0 pre k).length ≤ pre.length := List.length_filter_le _ _
  have whole := prior.length_le
  omega

def sums (s : Settings) (es : List Event) : Array Int :=
  (Array.range (s.width * s.height)).map fun i => s.total es (i % s.width) (i / s.width)

theorem size_sums (s : Settings) (es : List Event) : (s.sums es).size = s.width * s.height := by
  simp [sums]

theorem sums_nil (s : Settings) : s.sums [] = Array.replicate (s.width * s.height) 0 := by
  apply Array.ext
  · simp [sums]
  · simp [sums, total]

theorem place_iff {x y i : Nat} (column : x < s.width) :
    y * s.width + x = i ↔ x = i % s.width ∧ y = i / s.width := by
  constructor
  · rintro rfl
    have positive : 0 < s.width := Nat.zero_lt_of_lt column
    refine ⟨(Nat.mul_add_mod_of_lt column).symm, ?_⟩
    rw [Nat.mul_comm, Nat.mul_add_div positive, Nat.div_eq_of_lt column, Nat.add_zero]
  · rintro ⟨rfl, rfl⟩
    exact Nat.div_add_mod' i s.width

theorem sums_modify (column : e.x < s.width)
    (fits : clamp (s.total (es ++ [e]) e.x e.y) = s.total (es ++ [e]) e.x e.y) :
    (s.sums es).modify (e.y * s.width + e.x) (fun n => clamp (n + s.delta e)) =
      s.sums (es ++ [e]) := by
  apply Array.ext
  · simp [sums]
  · intro i bound bound'
    rw [Array.getElem_modify]
    simp only [sums, Array.getElem_map, Array.getElem_range, total_append, ← place_iff column]
    by_cases here : e.y * s.width + e.x = i
    · obtain ⟨hx, hy⟩ := (place_iff column).mp here
      rw [if_pos here, if_pos here, ← hx, ← hy]
      simpa [total_append] using fits
    · rw [if_neg here, if_neg here, add_zero]

theorem sums_outside (outside : ¬ (e.x < s.width ∧ e.y < s.height)) :
    s.sums (es ++ [e]) = s.sums es := by
  apply Array.ext
  · simp [sums]
  · intro i bound bound'
    have inside : i < s.width * s.height := by simpa [sums] using bound
    have positive : 0 < s.width := Nat.pos_of_mul_pos_right (Nat.zero_lt_of_lt inside)
    have other : ¬ (e.x = i % s.width ∧ e.y = i / s.width) := fun ⟨hx, hy⟩ =>
      outside ⟨hx ▸ Nat.mod_lt i positive, hy ▸ Nat.div_lt_of_lt_mul inside⟩
    simp [sums, total_append, other]

theorem range_mul (w h : Nat) :
    List.range (w * h) =
      (List.range h).flatMap fun y => (List.range w).map fun x => y * w + x := by
  induction h with
  | zero => simp
  | succ h ih =>
    rw [Nat.mul_succ, List.range_add, ih, List.range_succ, List.flatMap_append, Nat.mul_comm w h]
    simp

theorem total_eq_zero {x y : Nat} (elsewhere : ∀ e ∈ es, ¬ (e.x = x ∧ e.y = y)) :
    s.total es x y = 0 := by
  have none : (es.filter fun e => e.x = x ∧ e.y = y) = [] :=
    List.filter_eq_nil_iff.mpr fun e mem here => elsewhere e mem (of_decide_eq_true here)
  rw [total, none]
  rfl

/-! ### The accumulator between calls -/

def holding (s : Settings) (es : List Event) (start : Option Int) (n : Nat) : Accumulator where
  frameTime := s.frameTime
  signed := s.signed
  width := s.width
  height := s.height
  counts := s.sums es
  frameStart := start
  frames := n

theorem place_lt {x y : Nat} (inside : x < s.width ∧ y < s.height) :
    y * s.width + x < s.width * s.height := by
  have row : (y + 1) * s.width ≤ s.height * s.width := Nat.mul_le_mul_right _ inside.2
  rw [Nat.add_one_mul, Nat.mul_comm s.height] at row
  omega

/-- Coordinates that are beyond 16 bits have no event, so that none of them wraps. -/
theorem frameEvents_sums (ok : s.Accepted) (narrow : Narrow es) :
    frameEvents s.width stop (s.sums es).toList.zipIdx = .ok (s.frame stop es) := by
  have places : (s.sums es).toList.zipIdx =
      (List.range (s.width * s.height)).map fun i => (s.total es (i % s.width) (i / s.width), i) := by
    apply List.ext_getElem
    · simp [sums]
    · simp [sums]
  rw [frameEvents_eq ok.width, places, frame, List.filterMap_map, range_mul, List.filterMap_flatMap]
  refine congrArg Except.ok (List.flatMap_congr fun y _ => ?_)
  rw [List.filterMap_map]
  refine List.filterMap_congr fun x inside => ?_
  obtain ⟨hx, hy⟩ := (place_iff (List.mem_range.mp inside)).mp (Eq.refl (y * s.width + x))
  simp only [Function.comp_apply, ← hx, ← hy]
  by_cases empty : s.total es x y = 0
  · rw [if_pos empty, if_pos empty]
  · have here : ∃ e ∈ es, e.x = x ∧ e.y = y := by
      by_contra absent
      exact empty (total_eq_zero fun e mem same => absent ⟨e, mem, same⟩)
    obtain ⟨e, mem, rfl, rfl⟩ := here
    obtain ⟨column, row⟩ := narrow e mem
    rw [if_neg empty, if_neg empty, Nat.mod_eq_of_lt column, Nat.mod_eq_of_lt row]

theorem flush_holding (ok : s.Accepted) (narrow : Narrow es) :
    (s.holding es start n).flush stop = .ok (s.holding [] start (n + 1), s.frame stop es) := by
  simp only [flush, holding, frameEvents_sums ok narrow, bind, Except.bind, pure, Except.pure, clear,
    size_sums, sums_nil]

section host

variable [Host]

theorem add_holding (ok : s.Accepted) (fits : s.Fits (es ++ [e])) :
    (s.holding es start n).add e = .ok (s.holding (es ++ [e]) start n) := by
  by_cases inside : e.x < s.width ∧ e.y < s.height
  · have kept : clamp (s.total (es ++ [e]) e.x e.y) = s.total (es ++ [e]) e.x e.y := by
      have bounds := fits e.x e.y inside.1 inside.2
      unfold clamp
      omega
    have place := place_lt inside
    have counted := place.trans ok.counted
    have row : e.y * s.width < Word.limit := (Nat.le_add_right _ _).trans_lt counted
    refine (if_pos inside).trans ?_
    simp only [holding, Word.unsigned_of_lt row, Word.unsigned_of_lt counted, bind, Except.bind,
      size_sums, if_pos place, ← sums_modify inside.1 kept]
    rfl
  · refine (if_neg inside).trans ?_
    rw [holding, holding, sums_outside inside]

theorem take_holding_within (ok : s.Accepted) (current : start.getD e.timestamp = now)
    (stop : Word.Signed (now + s.frameTime)) (within : e.timestamp < now + s.frameTime)
    (fits : s.Fits (es ++ [e])) :
    (s.holding es start n).take e = (s.holding (es ++ [e]) (some now) n, .ok []) := by
  have turned : (s.holding es (some now) n).turn now e = (s.holding es (some now) n, .ok []) :=
    turn_within stop within
  exact take_eq (a := s.holding es start n) current turned (add_holding ok fits)

theorem take_holding_behind (ok : s.Accepted) (narrow : Narrow es)
    (current : start.getD e.timestamp = now) (stop : Word.Signed (now + s.frameTime))
    (behind : now + s.frameTime ≤ e.timestamp) (elapsed : Word.Signed (e.timestamp - now))
    (timed : Word.Signed e.timestamp) (fits : s.Fits [e]) :
    (s.holding es start n).take e =
      (s.holding [e] (some (now + (e.timestamp - now) / s.frameTime * s.frameTime)) (n + 1),
        .ok (s.frame (now + s.frameTime) es)) := by
  have turned := turn_behind (a := s.holding es (some now) n) ok.frameTime stop behind elapsed timed
    (flush_holding ok narrow) rfl
  have only : s.Fits ([] ++ [e]) := fits
  exact take_eq (a := s.holding es start n) current turned (add_holding ok only)

end host

/-! ### One event more -/

theorem during_append_self (here : s.window t0 e = k) :
    s.during t0 (es ++ [e]) k = s.during t0 es k ++ [e] := by
  simp [during, here]

theorem during_append_other (other : s.window t0 e ≠ k) :
    s.during t0 (es ++ [e]) k = s.during t0 es k := by
  simp [during, other]

theorem last_append (s : Settings) (t0 : Int) (es : List Event) (e : Event) :
    s.last t0 (es ++ [e]) = s.window t0 e := by
  simp [last]

theorem window_mono (ok : s.Accepted) {d : Event} (sooner : d.timestamp ≤ e.timestamp) :
    s.window t0 d ≤ s.window t0 e :=
  Int.toNat_le_toNat (Int.ediv_le_ediv ok.frameTime (Int.sub_le_sub_right sooner t0))

theorem lt_window_iff (ok : s.Accepted) :
    k < s.window t0 e ↔ t0 + k * s.frameTime + s.frameTime ≤ e.timestamp := by
  have expand : ((k : Int) + 1) * s.frameTime = k * s.frameTime + s.frameTime := by ring
  rw [window, Int.lt_toNat, ← Int.add_one_le_iff, Int.le_ediv_iff_mul_le ok.frameTime, expand]
  omega

theorem Orderly.of_prefix {pre : List Event} (h : s.Orderly t0 es) (prior : pre <+: es) :
    s.Orderly t0 pre := by
  refine ⟨fun e mem => ?_, h.ascending.sublist prior.sublist,
    fun e mem => h.narrow e (prior.subset mem),
    fun pre' prior' => h.limits pre' (prior'.trans prior)⟩
  cases pre with
  | nil => cases mem
  | cons d pre =>
    obtain ⟨rest, rfl⟩ := prior
    exact h.first e mem

theorem Orderly.before (h : s.Orderly t0 (es ++ [e])) : ∀ d ∈ es, d.timestamp ≤ e.timestamp :=
  fun d mem => (List.pairwise_append.mp h.ascending).2.2 d mem e List.mem_cons_self

theorem Orderly.from_start (h : s.Orderly t0 (es ++ [e])) : t0 ≤ e.timestamp := by
  cases es with
  | nil => exact (h.first e rfl).ge
  | cons d es => exact (h.first d rfl).ge.trans (h.before d List.mem_cons_self)

theorem Orderly.window_le_last (ok : s.Accepted) (h : s.Orderly t0 es) :
    ∀ d ∈ es, s.window t0 d ≤ s.last t0 es := by
  intro d mem
  induction es using List.reverseRecOn with
  | nil => cases mem
  | append_singleton es e =>
    rw [last_append]
    rcases List.mem_append.mp mem with mem | mem
    · exact window_mono ok (h.before d mem)
    · exact (congrArg (s.window t0) (List.mem_singleton.mp mem)).le

theorem Orderly.last_le_window (ok : s.Accepted) (h : s.Orderly t0 (es ++ [e])) :
    s.last t0 es ≤ s.window t0 e := by
  induction es using List.reverseRecOn with
  | nil => exact Nat.zero_le _
  | append_singleton es d =>
    rw [last_append]
    exact window_mono ok (h.before d (List.mem_append_right es List.mem_cons_self))

theorem during_eq_nil (ok : s.Accepted) (h : s.Orderly t0 es) (late : s.last t0 es < k) :
    s.during t0 es k = [] := by
  refine List.filter_eq_nil_iff.mpr fun d mem here => ?_
  have early := h.window_le_last ok d mem
  rw [decide_eq_true_eq] at here
  omega

theorem during_last_ne_nil (nonempty : es ≠ []) : s.during t0 es (s.last t0 es) ≠ [] := by
  induction es using List.reverseRecOn with
  | nil => exact absurd rfl nonempty
  | append_singleton es e =>
    rw [last_append, during_append_self rfl]
    exact List.append_ne_nil_of_right_ne_nil _ (List.cons_ne_nil e [])

theorem lt_last_of_completed (mem : k ∈ s.completed t0 es) : k < s.last t0 es :=
  List.mem_range.mp (List.mem_of_mem_filter mem)

theorem completed_append_same (same : s.window t0 e = s.last t0 es) :
    s.completed t0 (es ++ [e]) = s.completed t0 es := by
  rw [completed, completed, last_append, same]
  refine List.filter_congr fun k early => ?_
  have other : s.window t0 e ≠ k := by
    have := List.mem_range.mp early
    omega
  rw [during_append_other other]

theorem completed_append_later (ok : s.Accepted) (h : s.Orderly t0 es) (nonempty : es ≠ [])
    (later : s.last t0 es < s.window t0 e) :
    s.completed t0 (es ++ [e]) = s.completed t0 es ++ [s.last t0 es] := by
  obtain ⟨gap, eq⟩ := Nat.exists_eq_add_of_lt later
  have unchanged : ∀ k ∈ List.range (s.window t0 e),
      decide (s.during t0 (es ++ [e]) k ≠ []) = decide (s.during t0 es k ≠ []) := by
    intro k early
    rw [during_append_other (List.mem_range.mp early).ne']
  have between : ((List.range gap).map (s.last t0 es + 1 + ·)).filter
      (fun k => s.during t0 es k ≠ []) = [] := by
    refine List.filter_eq_nil_iff.mpr fun k mem => ?_
    obtain ⟨i, -, rfl⟩ := List.mem_map.mp mem
    have late : s.last t0 es < s.last t0 es + 1 + i := by omega
    simp [during_eq_nil ok h late]
  have total : s.window t0 e = s.last t0 es + 1 + gap := by omega
  rw [completed, last_append, List.filter_congr unchanged, total, List.range_add,
    List.filter_append, between, List.append_nil, List.range_succ, List.filter_append, completed]
  simp [during_last_ne_nil nonempty]

theorem frames_append_same (same : s.window t0 e = s.last t0 es) :
    s.frames t0 (es ++ [e]) = s.frames t0 es := by
  rw [frames, frames, completed_append_same same]
  refine List.flatMap_congr fun k mem => ?_
  rw [during_append_other (same ▸ (lt_last_of_completed mem).ne')]

theorem frames_append_later (ok : s.Accepted) (h : s.Orderly t0 es) (nonempty : es ≠ [])
    (later : s.last t0 es < s.window t0 e) :
    s.frames t0 (es ++ [e]) = s.frames t0 es ++
      s.frame (t0 + s.last t0 es * s.frameTime + s.frameTime) (s.during t0 es (s.last t0 es)) := by
  have stop : t0 + (s.last t0 es + 1) * s.frameTime =
      t0 + s.last t0 es * s.frameTime + s.frameTime := by ring
  rw [frames, completed_append_later ok h nonempty later, List.flatMap_append,
    List.flatMap_singleton, during_append_other later.ne', stop, frames]
  congr 1
  refine List.flatMap_congr fun k mem => ?_
  rw [during_append_other ((lt_last_of_completed mem).trans later).ne']

/-! ### Events in turn -/

def state (s : Settings) (t0 : Int) (es : List Event) : Accumulator :=
  s.holding (s.during t0 es (s.last t0 es))
    (es.getLast?.map fun e => t0 + s.window t0 e * s.frameTime) (s.completed t0 es).length

theorem start_state (h : s.Orderly t0 (es ++ [e])) :
    (s.state t0 es).frameStart.getD e.timestamp = t0 + s.last t0 es * s.frameTime := by
  induction es using List.reverseRecOn with
  | nil => simpa [state, holding, last] using h.first e rfl
  | append_singleton es d => simp [state, holding, last]

/-- However far the event lies behind the window, the next one starts at a whole number of windows. -/
theorem start_later (ok : s.Accepted) (h : s.Orderly t0 (es ++ [e])) :
    let start := t0 + k * s.frameTime
    start + (e.timestamp - start) / s.frameTime * s.frameTime =
      t0 + s.window t0 e * s.frameTime := by
  have from_start : 0 ≤ (e.timestamp - t0) / s.frameTime :=
    Int.ediv_nonneg (Int.sub_nonneg_of_le h.from_start) ok.frameTime.le
  have shift : e.timestamp - (t0 + k * s.frameTime) =
      e.timestamp - t0 + -(k : Int) * s.frameTime := by ring
  rw [window, Int.toNat_of_nonneg from_start]
  dsimp only
  rw [shift, Int.add_mul_ediv_right _ _ ok.frameTime.ne']
  ring

theorem Computable.of_prefix {pre : List Event} (h : s.Computable t0 es) (prior : pre <+: es) :
    s.Computable t0 pre where
  timed e mem := h.timed e (prior.subset mem)
  stop pre' e prior' := h.stop pre' e (prior'.trans prior)
  elapsed pre' e prior' := h.elapsed pre' e (prior'.trans prior)

theorem start_le (ok : s.Accepted) (h : s.Orderly t0 (es ++ [e])) :
    t0 + s.last t0 es * s.frameTime ≤ e.timestamp := by
  have started : 0 ≤ (e.timestamp - t0) / s.frameTime :=
    Int.ediv_nonneg (Int.sub_nonneg_of_le h.from_start) ok.frameTime.le
  have later : (s.last t0 es : Int) ≤ (e.timestamp - t0) / s.frameTime := by
    rw [← Int.toNat_of_nonneg started]
    exact_mod_cast h.last_le_window ok
  have := (Int.le_ediv_iff_mul_le ok.frameTime).mp later
  omega

theorem Computable.of_small (ok : s.Accepted) (h : s.Orderly t0 es)
    (short : s.frameTime ≤ 2305843009213693952)
    (small : ∀ e ∈ es, -2305843009213693952 ≤ e.timestamp ∧ e.timestamp ≤ 2305843009213693952) :
    s.Computable t0 es := by
  have bounds : ∀ pre e, pre ++ [e] <+: es → -2305843009213693952 ≤ t0 ∧
      0 ≤ s.last t0 pre * s.frameTime ∧ t0 + s.last t0 pre * s.frameTime ≤ e.timestamp ∧
      e.timestamp ≤ 2305843009213693952 := by
    intro pre e prior
    have orderly := h.of_prefix prior
    obtain ⟨d, first⟩ : ∃ d, d ∈ (pre ++ [e]).head? := by
      cases pre <;> simp
    have least := small d (prior.subset (List.mem_of_mem_head? first))
    have most := small e (prior.subset (List.mem_append_right pre List.mem_cons_self))
    have same := orderly.first d first
    exact ⟨same ▸ least.1, Int.mul_nonneg (Int.natCast_nonneg _) ok.frameTime.le,
      start_le ok orderly, most.2⟩
  have positive := ok.frameTime
  refine ⟨fun e mem => ?_, fun pre e prior => ?_, fun pre e prior _ => ?_⟩
  · have := small e mem
    omega
  · have := bounds pre e prior
    omega
  · have := bounds pre e prior
    omega

variable [Host]

theorem take_state (ok : s.Accepted) (h : s.Orderly t0 (es ++ [e]))
    (computable : s.Computable t0 (es ++ [e])) :
    ∃ new, (s.state t0 es).take e = (s.state t0 (es ++ [e]), .ok new) ∧
      s.frames t0 (es ++ [e]) = s.frames t0 es ++ new := by
  have prior : s.Orderly t0 es := h.of_prefix (List.prefix_append es [e])
  have start := start_state h
  have stop := computable.stop es e List.prefix_rfl
  have timed := computable.timed e (List.mem_append_right es List.mem_cons_self)
  have fits := h.limits _ List.prefix_rfl (s.window t0 e)
  rw [during_append_self rfl] at fits
  have next : s.state t0 (es ++ [e]) = s.holding (s.during t0 es (s.window t0 e) ++ [e])
      (some (t0 + s.window t0 e * s.frameTime)) (s.completed t0 (es ++ [e])).length := by
    rw [state, last_append, during_append_self rfl, List.getLast?_append]
    rfl
  rw [next]
  rcases (h.last_le_window ok).lt_or_eq with later | same
  · have nonempty : es ≠ [] := by
      rintro rfl
      simp [window, h.first e rfl] at later
    have narrow : Narrow (s.during t0 es (s.last t0 es)) := fun d mem =>
      prior.narrow d (List.mem_of_mem_filter mem)
    have behind := (lt_window_iff ok).mp later
    have elapsed := computable.elapsed es e List.prefix_rfl behind
    -- Nothing that came before lies in the window of the event, so it starts with this one.
    rw [during_eq_nil ok prior later, List.nil_append] at fits ⊢
    have taken := take_holding_behind ok narrow start stop behind elapsed timed fits
      (n := (s.completed t0 es).length)
    refine ⟨_, taken.trans ?_, frames_append_later ok prior nonempty later⟩
    rw [start_later ok h, completed_append_later ok prior nonempty later, List.length_append]
    rfl
  · have within : ¬ s.last t0 es < s.window t0 e := same.not_lt
    rw [lt_window_iff ok, Int.not_le] at within
    rw [← same] at fits ⊢
    refine ⟨[], (take_holding_within ok start stop within fits).trans ?_,
      (frames_append_same same.symm).trans (List.append_nil _).symm⟩
    rw [completed_append_same same.symm]

theorem takeAll_state {es' : List Event} (ok : s.Accepted) (h : s.Orderly t0 (es ++ es'))
    (computable : s.Computable t0 (es ++ es')) :
    ∃ new, (s.state t0 es).takeAll es' = (s.state t0 (es ++ es'), .ok new) ∧
      s.frames t0 (es ++ es') = s.frames t0 es ++ new := by
  induction es' generalizing es with
  | nil => exact ⟨[], by rw [List.append_nil]; rfl, by simp⟩
  | cons e es' ih =>
    rw [List.append_cons] at h computable ⊢
    obtain ⟨new, taken, grown⟩ := take_state ok (h.of_prefix (List.prefix_append _ es'))
      (computable.of_prefix (List.prefix_append _ es'))
    obtain ⟨more, all, grown'⟩ := ih h computable
    refine ⟨new ++ more, ?_, ?_⟩
    · simp only [takeAll, taken, all]
      rfl
    · rw [grown', grown, List.append_assoc]

end Settings

/-! ### Runs -/

section runs

variable [Host] {a : Accumulator} {p : Params} {s : Settings} {t0 : Int} {es : List Event}

def eventsOf (io : PacketIo) : List Event := io.packets.flatMap (·.valid)

def arriving (ios : List PacketIo) : List Event := ios.flatMap eventsOf

def answer (a : Accumulator) (self : ModuleId) (io : PacketIo) : List Packet × Option Fault :=
  ((a.run self io).2.1.outputs.drop io.outputs.length, (a.run self io).2.2)

def runAll (a : Accumulator) (self : ModuleId) :
    List PacketIo → Accumulator × List (List Packet × Option Fault)
  | [] => (a, [])
  | io :: ios =>
    ((a.run self io).1.runAll self ios).map id (a.answer self io :: ·)

def emitted (answers : List (List Packet × Option Fault)) : List Event :=
  answers.flatMap fun r => r.1.flatMap (·.events)

def Sound (self : ModuleId) (r : List Packet × Option Fault) : Prop :=
  r.2 = none ∧ (r.1 = [] ∨ ∃ events, events ≠ [] ∧ r.1 = [{ source := self, type := .frame, events }])

theorem run_state (self : ModuleId) {io : PacketIo} (ok : s.Accepted)
    (h : s.Orderly t0 (es ++ eventsOf io)) (computable : s.Computable t0 (es ++ eventsOf io)) :
    ((s.state t0 es).run self io).1 = s.state t0 (es ++ eventsOf io) ∧
      Sound self ((s.state t0 es).answer self io) ∧
      s.frames t0 (es ++ eventsOf io) =
        s.frames t0 es ++ emitted [(s.state t0 es).answer self io] := by
  obtain ⟨new, taken, grown⟩ := Settings.takeAll_state ok h computable
  change (s.state t0 es).takeAll (io.packets.flatMap (·.valid)) = _ at taken
  cases new with
  | nil =>
    simp only [answer, run, taken, Sound]
    simpa [emitted] using grown
  | cons e new =>
    simp only [answer, run, taken, Sound]
    simpa [emitted, PacketIo.emit] using grown

theorem runAll_state (self : ModuleId) {ios : List PacketIo} (ok : s.Accepted)
    (h : s.Orderly t0 (es ++ arriving ios)) (computable : s.Computable t0 (es ++ arriving ios)) :
    ((s.state t0 es).runAll self ios).1 = s.state t0 (es ++ arriving ios) ∧
      (∀ r ∈ ((s.state t0 es).runAll self ios).2, Sound self r) ∧
      s.frames t0 (es ++ arriving ios) =
        s.frames t0 es ++ emitted ((s.state t0 es).runAll self ios).2 := by
  induction ios generalizing es with
  | nil => simp [arriving, runAll, emitted]
  | cons io ios ih =>
    have split : arriving (io :: ios) = eventsOf io ++ arriving ios := List.flatMap_cons
    rw [split, ← List.append_assoc] at h computable ⊢
    obtain ⟨state, sound, grown⟩ := run_state self ok (h.of_prefix (List.prefix_append _ _))
      (computable.of_prefix (List.prefix_append _ _))
    obtain ⟨state', sounds, grown'⟩ := ih h computable
    simp only [runAll, state, Prod.map_fst, Prod.map_snd]
    refine ⟨state', List.forall_mem_cons.mpr ⟨sound, sounds⟩, ?_⟩
    rw [grown', grown, List.append_assoc]
    simp [emitted]

theorem config_ok (accepted : (a.config p).2 = .ok) :
    0 < (settings p).frameTime ∧ 0 < (settings p).width ∧
      ∃ b, a.resize (settings p).width (settings p).height = (b, .ok) ∧
        (a.config p).1 =
          { b with frameTime := (settings p).frameTime, signed := (settings p).signed } := by
  unfold config at accepted ⊢
  dsimp only at accepted ⊢
  split at accepted
  · cases accepted
  split at accepted
  · cases accepted
  rename_i positive sized
  split at accepted
  · rename_i b resized
    have wide : 0 < (Params.int p "width" 240).toNat := by omega
    rw [if_neg positive, if_neg sized]
    exact ⟨Int.not_le.mp positive, wide, b, resized, rfl⟩
  · rename_i outcome _ fails _
    exact absurd accepted fails

/-- An init forgets the old size first, so that the array is always a new one. -/
theorem init_state (accepted : (a.init p).2 = .ok)
    (countable : Word.Countable ((settings p).width * (settings p).height)) :
    (settings p).Accepted ∧ (a.init p).1 = (settings p).state t0 [] := by
  obtain ⟨positive, wide, b, resized, eq⟩ := config_ok accepted
  have new : ¬ ((settings p).width = 0 ∧ (settings p).height = 0) := fun none => wide.ne' none.1
  rw [resize, if_neg new] at resized
  split at resized
  · cases resized
  · rename_i size counted
    obtain ⟨small, rfl⟩ := countable.unsigned counted
    split at resized
    · cases resized
      refine ⟨⟨positive, wide, small⟩, eq.trans ?_⟩
      simp only [Settings.state, Settings.holding, Settings.during, List.filter_nil,
        Settings.sums_nil]
      rfl
    · cases resized

/-- Whatever runs the valid events come in, the frames are those of the windows that are over. -/
theorem frames_by_window (self : ModuleId) {ios : List PacketIo} (accepted : (a.init p).2 = .ok)
    (countable : Word.Countable ((settings p).width * (settings p).height))
    (orderly : (settings p).Orderly t0 (arriving ios))
    (computable : (settings p).Computable t0 (arriving ios)) :
    let s := settings p
    let es := arriving ios
    let r := (a.init p).1.runAll self ios
    emitted r.2 = s.frames t0 es ∧
    r.1.frames = (s.completed t0 es).length ∧
    (∀ answer ∈ r.2, Sound self answer) ∧
    ∀ ios', arriving ios' = es → emitted ((a.init p).1.runAll self ios').2 = emitted r.2 := by
  intro s es r
  obtain ⟨ok, start⟩ := init_state accepted countable
  obtain ⟨state, sound, grown⟩ := runAll_state self ok
    (show (settings p).Orderly t0 ([] ++ arriving ios) from orderly) computable
  rw [← start] at state sound grown
  refine ⟨grown.symm, congrArg frames state, sound, fun ios' same => ?_⟩
  have orderly' : (settings p).Orderly t0 ([] ++ arriving ios') := by rwa [List.nil_append, same]
  have computable' : (settings p).Computable t0 ([] ++ arriving ios') := by
    rwa [List.nil_append, same]
  obtain ⟨-, -, grown'⟩ := runAll_state self ok orderly' computable'
  rw [← start, List.nil_append, same] at grown'
  exact grown'.symm.trans grown

end runs

def small : Params :=
  [("frame_us", .int 100), ("height", .int 4), ("signed", .bool false), ("width", .int 4)]

def runOf (packets : List (List Event)) : PacketIo where
  inputs := packets.map fun events => { packet := { source := ⟨1⟩, type := .polarity, events } }

def smallRuns : List PacketIo :=
  [runOf [[⟨0, 1, 1, 1, true⟩, ⟨10, 1, 1, 0, true⟩, ⟨20, 3, 3, 1, false⟩], [⟨50, 2, 0, 1, true⟩]],
    runOf [[⟨120, 0, 0, 1, true⟩]], runOf [[⟨430, 9, 9, 1, true⟩, ⟨700, 0, 0, 1, true⟩]]]

/-- Windows 0, 1 and 4 are over in the end; the only event of the last of them has no pixel. -/
theorem small_frames :
    ((default : Accumulator).init small).2 = .ok ∧
    Word.Countable ((settings small).width * (settings small).height) ∧
    (settings small).Orderly 0 (arriving smallRuns) ∧
    (settings small).Computable 0 (arriving smallRuns) ∧
    let r := ((default : Accumulator).init small).1.runAll ⟨5⟩ smallRuns
    emitted r.2 =
      [⟨100, 2, 0, 1, true⟩, ⟨100, 1, 1, 2, true⟩, ⟨200, 0, 0, 1, true⟩] ∧ r.1.frames = 3 := by
  have accepted : ((default : Accumulator).init small).2 = .ok := by decide +kernel
  have countable : Word.Countable ((settings small).width * (settings small).height) := .inl rfl
  have ok : (settings small).Accepted := ⟨by decide, by decide, by decide⟩
  have orderly : (settings small).Orderly 0 (arriving smallRuns) :=
    .of_short (by decide +kernel) (by decide +kernel) (by decide +kernel) (by decide +kernel)
  have computable : (settings small).Computable 0 (arriving smallRuns) :=
    .of_small ok orderly (by decide) (by decide +kernel)
  obtain ⟨events, count, -⟩ := frames_by_window ⟨5⟩ accepted countable orderly computable
  refine ⟨accepted, countable, orderly, computable, events.trans ?_, count.trans ?_⟩
  · decide +kernel
  · decide +kernel

end EventFlow.Accumulator

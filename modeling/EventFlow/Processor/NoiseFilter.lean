import EventFlow.Error
import EventFlow.PacketIo

/-!
Drops background activity from polarity events. An event stays valid if enough of its neighbours
fired shortly before it, and if its own pixel did not fire too shortly before it.
-/

namespace EventFlow

structure NoiseFilterSettings where
  /-- How long an event supports its neighbours, in microseconds. -/
  window : Int
  supportMin : Nat
  /-- How long a pixel stays silent after an event, in microseconds. -/
  refractory : Int
  checkPolarity : Bool
  width : Nat
  height : Nat
deriving DecidableEq, Inhabited

structure PixelEvent where
  timestamp : Int
  polarity : Bool
deriving DecidableEq, Inhabited

structure NoiseFilter where
  settings : Option NoiseFilterSettings := none
  /-- The last event of every pixel, row by row. -/
  pixels : Array (Option PixelEvent) := #[]
  background : Nat := 0
  refractory : Nat := 0
  outOfRange : Nat := 0
deriving Inhabited

namespace NoiseFilterSettings

def ofParams (p : Params) : Except ModuleError NoiseFilterSettings :=
  let window := Params.int p "window_us" 2000
  let support := Params.int p "support_min" 1
  let refractory := Params.int p "refractory_us" 0
  let width := Params.int p "width" 240
  let height := Params.int p "height" 180
  if window ≤ 0 then .error (.invalidParam "window_us" "must be positive")
  else if support < 1 ∨ 8 < support then .error (.invalidParam "support_min" "must be in 1..=8")
  else if refractory < 0 then .error (.invalidParam "refractory_us" "must not be negative")
  else if width ≤ 0 ∨ height ≤ 0 then
    .error (.invalidParam "width" "array size must be positive")
  else .ok {
    window, refractory
    supportMin := support.toNat
    checkPolarity := Params.bool p "check_polarity" false
    width := width.toNat
    height := height.toNat }

def near (n limit : Nat) : List Nat := [n - 1, n, n + 1].eraseDups.filter fun m => decide (m < limit)

def neighbours (s : NoiseFilterSettings) (x y : Nat) : List (Nat × Nat) :=
  (near y s.height).flatMap fun b =>
    (near x s.width).filterMap fun a => if a = x ∧ b = y then none else some (a, b)

variable [Host]

def size (s : NoiseFilterSettings) : Except Fault Nat := Word.unsigned .multiply (s.width * s.height)

def place (s : NoiseFilterSettings) (x y : Nat) : Except Fault Nat := do
  let row ← Word.unsigned .multiply (y * s.width)
  Word.unsigned .add (row + x)

def supports (s : NoiseFilterSettings) (e : Event) : Option PixelEvent → Except Fault Bool
  | none => .ok false
  | some last => do
    let age ← Word.signed .subtract (e.timestamp - last.timestamp)
    pure (decide (age ≤ s.window) && (!s.checkPolarity || last.polarity == e.polarity))

def tooSoon (s : NoiseFilterSettings) (e : Event) : Option PixelEvent → Except Fault Bool
  | none => .ok false
  | some last =>
    if 0 < s.refractory then do
      let age ← Word.signed .subtract (e.timestamp - last.timestamp)
      pure (decide (age < s.refractory))
    else .ok false

end NoiseFilterSettings

namespace NoiseFilter

def info : ModuleInfo where
  name := "NoiseFilter"
  description := "Filters background activity from polarity events."
  kind := .processor
  inputs := [{ type := .fixed .polarity, count := .any, mutates := true }]

def defaults : List (String × ParamValue) :=
  [("window_us", .int 2000), ("support_min", .int 1), ("refractory_us", .int 0),
    ("check_polarity", .bool false), ("width", .int 240), ("height", .int 180)]

/-- The timestamp that stands for none. -/
def never : Int := -9223372036854775808

def last (f : NoiseFilter) (i : Nat) : Except Fault (Option PixelEvent) :=
  match f.pixels[i]? with
  | some last => .ok last
  | none => .error (.outside f.pixels.size i)

def remember (f : NoiseFilter) (i : Nat) (e : Event) : NoiseFilter :=
  let entry := if e.timestamp = never then none else some ⟨e.timestamp, e.polarity⟩
  { f with pixels := f.pixels.setIfInBounds i entry }

inductive Verdict where
  | kept
  | early
  | unsupported
deriving DecidableEq, Inhabited

variable [Host]

def support (f : NoiseFilter) (s : NoiseFilterSettings) (e : Event) :
    List (Nat × Nat) → (n : Nat) → Except Fault Nat
  | [], n => .ok n
  | q :: qs, n => do
    let i ← s.place q.1 q.2
    let last ← f.last i
    let supported ← s.supports e last
    support f s e qs (if supported then n + 1 else n)

def verdict (f : NoiseFilter) (s : NoiseFilterSettings) (e : Event) (before : Option PixelEvent) :
    Except Fault Verdict := do
  match ← s.tooSoon e before with
  | true => pure .early
  | false =>
    let count ← f.support s e (s.neighbours e.x e.y) 0
    pure (if count < s.supportMin then .unsupported else .kept)

def enter (f : NoiseFilter) (s : NoiseFilterSettings) (e : Event) :
    Except Fault (NoiseFilter × Option PixelEvent) := do
  let i ← s.place e.x e.y
  let before ← f.last i
  pure (f.remember i e, before)

def filterEvent (s : NoiseFilterSettings) (f : NoiseFilter) (e : Event) :
    NoiseFilter × Except Fault Event :=
  if !e.valid then (f, .ok e)
  else if s.width ≤ e.x ∨ s.height ≤ e.y then
    ({ f with outOfRange := f.outOfRange + 1 }, .ok e.invalidate)
  else
    match f.enter s e with
    | .error fault => (f, .error fault)
    | .ok (f, before) =>
      match f.verdict s e before with
      | .error fault => (f, .error fault)
      | .ok .kept => (f, .ok e)
      | .ok .early => ({ f with refractory := f.refractory + 1 }, .ok e.invalidate)
      | .ok .unsupported => ({ f with background := f.background + 1 }, .ok e.invalidate)

def run (f : NoiseFilter) (io : PacketIo) : NoiseFilter × PacketIo × Option Fault :=
  match f.settings with
  | none => (f, io, none)
  | some s =>
    let (f, inputs, fault) := PacketIo.attempt (filterEvent s) f io.inputs
    (f, { io with inputs }, fault)

/-- Takes new settings over; a new size of the array forgets all events. -/
def apply (f : NoiseFilter) (s : NoiseFilterSettings) : NoiseFilter × Outcome :=
  match s.size with
  | .error fault => (f, .ofFault fault)
  | .ok size =>
    if f.settings.any (fun old => old.width = s.width ∧ old.height = s.height) then
      ({ f with settings := some s }, .ok)
    else if Host.reserves size 16 then
      ({ f with settings := some s, pixels := Array.replicate size none }, .ok)
    else (f, .failed (.failed s!"cannot allocate {size} pixel states"))

def config (f : NoiseFilter) (p : Params) : NoiseFilter × Outcome :=
  match NoiseFilterSettings.ofParams p with
  | .error e => (f, .failed e)
  | .ok s => f.apply s

def forget (f : NoiseFilter) : NoiseFilter :=
  { f with pixels := Array.replicate f.pixels.size none }

def init (f : NoiseFilter) (p : Params) : NoiseFilter × Outcome :=
  match ({ f with settings := none } : NoiseFilter).config p with
  | (f, .ok) => ({ f.forget with background := 0, refractory := 0, outOfRange := 0 }, .ok)
  | (f, outcome) => (f, outcome)

def exit (f : NoiseFilter) : NoiseFilter := { f with pixels := #[], settings := none }

end NoiseFilter
end EventFlow

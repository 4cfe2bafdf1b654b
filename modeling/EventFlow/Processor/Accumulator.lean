import EventFlow.Error
import EventFlow.PacketIo

/-!
Sums polarity events per pixel over windows of time. A window that is over becomes frame events, one
for every pixel whose sum is not zero.
-/

namespace EventFlow

structure Accumulator where
  /-- The length of a window in microseconds. -/
  frameTime : Int := 33000
  signed : Bool := false
  width : Nat := 0
  height : Nat := 0
  counts : Array Int := #[]
  frameStart : Option Int := none
  frames : Nat := 0
deriving DecidableEq, Inhabited

namespace Accumulator

def info : ModuleInfo where
  name := "Accumulator"
  description := "Accumulates polarity events into count frames."
  kind := .processor
  inputs := [{ type := .fixed .polarity, count := .exactly 1 }]
  outputs := [.fixed .frame]

def defaults : List (String × ParamValue) :=
  [("frame_us", .int 33000), ("width", .int 240), ("height", .int 180), ("signed", .bool false)]

/-- Sums stay within 32 bits. -/
def clamp (n : Int) : Int := max (-2147483648) (min n 2147483647)

def clear (a : Accumulator) : Accumulator :=
  { a with counts := Array.replicate a.counts.size 0 }

/-- The frame events of some sums with their places. Coordinates wrap at 16 bits. -/
def frameEvents (width : Nat) (stop : Int) : List (Int × Nat) → Except Fault (List Event)
  | [] => .ok []
  | (n, i) :: rest =>
    if n = 0 then frameEvents width stop rest
    else if width = 0 then .error .remainderByZero
    else do
      let events ← frameEvents width stop rest
      pure ({ timestamp := stop, x := i % width % 65536, y := i / width % 65536, value := n } :: events)

def flush (a : Accumulator) (stop : Int) : Except Fault (Accumulator × List Event) := do
  let events ← frameEvents a.width stop a.counts.toList.zipIdx
  pure ({ a.clear with frames := a.frames + 1 }, events)

variable [Host]

def resize (a : Accumulator) (width height : Nat) : Accumulator × Outcome :=
  if width = a.width ∧ height = a.height then (a, .ok)
  else match Word.unsigned .multiply (width * height) with
    | .error fault => (a, .ofFault fault)
    | .ok size =>
      if Host.reserves size 4 then
        ({ a with width, height, counts := Array.replicate size 0, frameStart := none }, .ok)
      else (a, .failed (.failed "cannot allocate frame buffer"))

def config (a : Accumulator) (p : Params) : Accumulator × Outcome :=
  let frameTime := Params.int p "frame_us" 33000
  let width := Params.int p "width" 240
  let height := Params.int p "height" 180
  if frameTime ≤ 0 then (a, .failed (.invalidParam "frame_us" "must be positive"))
  else if width ≤ 0 ∨ height ≤ 0 then
    (a, .failed (.invalidParam "width" "array size must be positive"))
  else match a.resize width.toNat height.toNat with
    | (a, .ok) => ({ a with frameTime, signed := Params.bool p "signed" false }, .ok)
    | (a, outcome) => (a, outcome)

def init (a : Accumulator) (p : Params) : Accumulator × Outcome :=
  ({ a with width := 0, height := 0, frames := 0 } : Accumulator).config p

def add (a : Accumulator) (e : Event) : Except Fault Accumulator :=
  if e.x < a.width ∧ e.y < a.height then do
    let row ← Word.unsigned .multiply (e.y * a.width)
    let i ← Word.unsigned .add (row + e.x)
    let delta : Int := if a.signed && !e.polarity then -1 else 1
    if i < a.counts.size then pure { a with counts := a.counts.modify i fun n => clamp (n + delta) }
    else .error (.outside a.counts.size i)
  else .ok a

/-- How many windows an event lies behind the start of one, unless it falls into it; with the time at
which that window ends. -/
def passed (a : Accumulator) (start : Int) (e : Event) : Except Fault (Option (Int × Int)) := do
  let stop ← Word.signed .add (start + a.frameTime)
  if stop ≤ e.timestamp then
    let elapsed ← Word.signed .subtract (e.timestamp - start)
    let windows ← Word.quotient elapsed a.frameTime
    pure (some (stop, windows))
  else pure none

def later (a : Accumulator) (start windows : Int) : Except Fault Int := do
  let time ← Word.signed .multiply (windows * a.frameTime)
  Word.signed .add (start + time)

def turn (a : Accumulator) (start : Int) (e : Event) : Accumulator × Except Fault (List Event) :=
  match a.passed start e with
  | .error fault => (a, .error fault)
  | .ok none => (a, .ok [])
  | .ok (some (stop, windows)) =>
    match a.flush stop with
    | .error fault => (a, .error fault)
    | .ok (a, frame) =>
      match a.later start windows with
      | .error fault => (a, .error fault)
      | .ok next => ({ a with frameStart := some next }, .ok frame)

/-- Takes one valid event, and emits the frame that it completes. -/
def take (a : Accumulator) (e : Event) : Accumulator × Except Fault (List Event) :=
  let start := a.frameStart.getD e.timestamp
  match ({ a with frameStart := some start } : Accumulator).turn start e with
  | (a, .error fault) => (a, .error fault)
  | (a, .ok frame) =>
    match a.add e with
    | .error fault => (a, .error fault)
    | .ok a => (a, .ok frame)

def takeAll (a : Accumulator) : List Event → Accumulator × Except Fault (List Event)
  | [] => (a, .ok [])
  | e :: es =>
    match a.take e with
    | (a, .error fault) => (a, .error fault)
    | (a, .ok frame) =>
      let (a, rest) := a.takeAll es
      (a, rest.map (frame ++ ·))

def run (a : Accumulator) (id : ModuleId) (io : PacketIo) : Accumulator × PacketIo × Option Fault :=
  match a.takeAll (io.packets.flatMap (·.valid)) with
  | (a, .error fault) => (a, io, some fault)
  | (a, .ok []) => (a, io, none)
  | (a, .ok events) => (a, io.emit { source := id, type := .frame, events }, none)

def exit (a : Accumulator) : Accumulator :=
  { a with counts := #[], width := 0, height := 0, frameStart := none }

def reset (a : Accumulator) : Accumulator := { a.clear with frameStart := none }

end Accumulator
end EventFlow

import EventFlow.Error
import EventFlow.PacketIo
import EventFlow.Random
import EventFlow.Word

/-!
Generates random polarity events in batches, one batch every `batchTime` microseconds. The batches
wait in a queue of limited size until the module runs.
-/

namespace EventFlow

structure GeneratorSettings where
  rate : Nat
  /-- Microseconds from one batch to the next. -/
  batchTime : Nat
  width : Nat
  height : Nat
  seed : Int
deriving DecidableEq, Inhabited

structure GeneratorWorker where
  settings : GeneratorSettings
  /-- The time of its first batch, in nanoseconds. -/
  started : Nat
  random : Random
  batches : Nat := 0
  queue : List (List Event) := []
  /-- It ends when nobody waits for its notifications any longer. -/
  ended : Bool := false
deriving Inhabited

structure Generator where
  capacity : Nat
  worker : Option GeneratorWorker := none
  dropped : Nat := 0
deriving Inhabited

namespace GeneratorSettings

def batchTimeLimit : Int := 1000000

def batchLimit : Nat := 4194304

/-- Whole events only; what is left of the rate is lost. -/
def eventsPerBatch (s : GeneratorSettings) : Nat :=
  min (Word.saturatingMul s.rate s.batchTime / 1000000) batchLimit

def fits (s : GeneratorSettings) : Bool :=
  (Word.checkedMul s.rate s.batchTime).any fun product => decide (product / 1000000 ≤ batchLimit)

def ofParams (p : Params) : Except ModuleError GeneratorSettings :=
  let rate := Params.int p "rate_hz" 10000
  let batchTime := Params.int p "batch_us" 10000
  let width := Params.int p "width" 240
  let height := Params.int p "height" 180
  let settings : GeneratorSettings := {
    rate := rate.toNat
    batchTime := batchTime.toNat
    width := width.toNat
    height := height.toNat
    seed := Params.int p "seed" 1 }
  if rate < 0 then .error (.invalidParam "rate_hz" "must not be negative")
  else if batchTime < 1 ∨ batchTimeLimit < batchTime then
    .error (.invalidParam "batch_us" "must be in 1..=1000000")
  else if width < 1 ∨ 65535 < width then .error (.invalidParam "width" "must be in 1..=65535")
  else if height < 1 ∨ 65535 < height then .error (.invalidParam "height" "must be in 1..=65535")
  else if !settings.fits then
    .error (.invalidParam "rate_hz"
      s!"rate_hz * batch_us / 1e6 exceeds {batchLimit} events per batch")
  else .ok settings

def step (s : GeneratorSettings) : Nat := s.batchTime / s.eventsPerBatch

def event (s : GeneratorSettings) (batch place : Nat) (r : Random) : Event × Random :=
  let column := r.below s.width
  let row := column.2.below s.height
  let on := row.2.bool
  (Event.ofPolarity (batch * s.batchTime + s.step * place) column.1 row.1 on.1, on.2)

def events (s : GeneratorSettings) (batch : Nat) : (count start : Nat) → Random → List Event × Random
  | 0, _, r => ([], r)
  | n + 1, start, r =>
    let first := s.event batch start r
    let rest := s.events batch n (start + 1) first.2
    (first.1 :: rest.1, rest.2)

end GeneratorSettings

namespace GeneratorWorker

/-- Generates one batch. A full queue loses it; else the module's owner is notified, and if nobody
listens the worker ends. -/
def produce (capacity : Nat) (listening : Bool) (w : GeneratorWorker) : GeneratorWorker :=
  if w.ended then w
  else
    let (batch, random) := w.settings.events w.batches w.settings.eventsPerBatch 0 w.random
    let w := { w with random, batches := w.batches + 1 }
    if capacity ≤ w.queue.length then w
    else { w with queue := w.queue ++ [batch], ended := !listening }

def due (w : GeneratorWorker) (now : Nat) : Nat :=
  if now < w.started then 0
  else (now - w.started) / (w.settings.batchTime * 1000) + 1 - w.batches

def advance (capacity : Nat) (listening : Bool) (now : Nat) (w : GeneratorWorker) : GeneratorWorker :=
  (List.range (w.due now)).foldl (fun w _ => produce capacity listening w) w

end GeneratorWorker

namespace Generator

def info : ModuleInfo where
  name := "SyntheticSource"
  description := "Generates pseudo-random polarity events."
  kind := .source
  outputs := [.fixed .polarity]

def defaults : List (String × ParamValue) :=
  [("rate_hz", .int 10000), ("batch_us", .int 10000), ("width", .int 240), ("height", .int 180),
    ("seed", .int 1)]

def ofCapacity (capacity : Nat) : Generator := { capacity := max capacity 1 }

def isGenerating (g : Generator) : Bool := g.worker.isSome

def advance (g : Generator) (now : Nat) (listening : Bool) : Generator :=
  { g with worker := g.worker.map (·.advance g.capacity listening now) }

def spawn (g : Generator) (s : GeneratorSettings) (now : Nat) : Generator :=
  { g with worker := some { settings := s, started := now, random := Random.ofSeed s.seed } }

def init (g : Generator) (p : Params) (now : Nat) : Generator × Except ModuleError Unit :=
  match GeneratorSettings.ofParams p with
  | .error e => (g, .error e)
  | .ok s => ({ g with dropped := 0 }.spawn s now, .ok ())

/-- Other settings start the stream anew. -/
def config (g : Generator) (p : Params) (now : Nat) : Generator × Except ModuleError Unit :=
  match GeneratorSettings.ofParams p with
  | .error e => (g, .error e)
  | .ok s =>
    if g.worker.any (fun w => w.settings = s) then (g, .ok ()) else (g.spawn s now, .ok ())

def run (g : Generator) (id : ModuleId) (now : Nat) (listening : Bool) (io : PacketIo) :
    Generator × PacketIo × Except ModuleError Unit :=
  let g := g.advance now listening
  match g.worker with
  | none => (g, io, .ok ())
  | some w =>
    if w.ended then ({ g with worker := none }, io, .error (.failed "generator thread stopped"))
    else
      let g := { g with worker := some { w with queue := [] } }
      match w.queue.flatten with
      | [] => (g, io, .ok ())
      | events => (g, io.emit { source := id, type := .polarity, events }, .ok ())

def exit (g : Generator) : Generator := { g with worker := none }

def reset (g : Generator) (now : Nat) (listening : Bool) : Generator :=
  let g := g.advance now listening
  match g.worker with
  | none => g
  | some w => { g with worker := some { w with queue := [] }, dropped := g.dropped + w.queue.length }

end Generator
end EventFlow

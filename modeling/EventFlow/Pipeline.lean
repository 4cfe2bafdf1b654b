import EventFlow.Build

/-!
A pipeline: its configuration, the engine built from it, and the commands that change both. It may
be driven tick by tick (`tick`, `process`) or left to itself until it ends (`finish`).
-/

namespace EventFlow

inductive Happening where
  | call (c : Call)
  | building (generation : Nat)

def Happening.call? : Happening → Option Call
  | call c => some c
  | building _ => none

structure Pipeline (M : Type) where
  factory : Factory M
  config : PipelineConfig
  /-- Absent until a build succeeds, and after one that fails. -/
  engine : Option (Engine M) := none
  generation : Nat := 0
  ticks : Nat := 0
  /-- Nanoseconds since the pipeline was made. -/
  time : Nat := 0
  running : Bool := true
  built : Bool := false
  commands : List Command := []
  connected : Bool := true
  signals : Signals
  /-- What has happened, the latest first. -/
  trace : List Happening := []

namespace Pipeline

variable {M : Type}

def now (p : Pipeline M) : Moment := { tick := p.ticks, time := p.time }

def publish (p : Pipeline M) (m : Message) : Pipeline M :=
  { p with signals := p.signals.publish m }

def called (p : Pipeline M) (calls : List Call) : Pipeline M :=
  { p with trace := calls.map .call ++ p.trace }

/-- Every attempt at a build is a generation of its own. -/
def nextGeneration (p : Pipeline M) : Pipeline M :=
  { p with generation := p.generation + 1, trace := .building (p.generation + 1) :: p.trace }

def plan? (p : Pipeline M) : Option Plan := p.engine.map (·.plan)

def stats (p : Pipeline M) : PipelineStats where
  ticks := p.ticks
  running := (p.engine.map (·.lifecycle.runningCount)).getD 0
  stopped := (p.engine.map (·.lifecycle.stoppedCount)).getD 0
  plan := (p.engine.map (·.plan.stats)).getD {}
  generation := p.generation
  built := p.built

def topology (p : Pipeline M) : Topology := (p.engine.map (·.topology)).getD {}

def send (p : Pipeline M) (c : Command) : Pipeline M :=
  if p.connected then { p with commands := p.commands ++ [c] } else p

variable [Behaviour M]

def teardown (p : Pipeline M) : Pipeline M :=
  match p.engine with
  | none => p
  | some e =>
    let (e, signals) := e.stopAll p.now p.signals
    { p.called e.journal with engine := none, signals }

def build (p : Pipeline M) : Pipeline M × Except PipelineError Unit :=
  let p := p.teardown.nextGeneration
  match Engine.build p.config p.factory p.generation with
  | .ok e => ({ p.called e.journal with engine := some e, built := true }, .ok ())
  | .error e => (p, .error e)

def rebuild (p : Pipeline M) : Pipeline M :=
  match p.build with
  | (p, .ok ()) => p
  | (p, .error e) => p.publish (.buildFailed e.message)

def tick (p : Pipeline M) : Pipeline M :=
  match p.engine with
  | none => p
  | some e =>
    let (e, signals) := e.tick p.now p.signals
    { p.called e.journal with engine := some e, signals, ticks := p.ticks + 1 }

def onModule (p : Pipeline M) (id : ModuleId) (f : Engine M → Engine M) : Pipeline M :=
  match p.engine with
  | some e =>
    if e.lifecycle.has id then { p with engine := some (f e) }
    else p.publish (.moduleError id (PipelineError.unknownModule id).message)
  | none => p.publish (.moduleError id (PipelineError.unknownModule id).message)

def setConfigParam (c : PipelineConfig) (id : ModuleId) (key : String) (value : ParamValue) :
    PipelineConfig :=
  c.modifyModule id.val fun m => { m with params := Table.put key value m.params }

def handle (p : Pipeline M) : Command → Pipeline M
  | .start id => p.onModule id (·.mapLifecycle (·.requestStart id))
  | .stop id => p.onModule id (·.mapLifecycle (·.requestStop id))
  | .setParam id key value =>
    { p with config := setConfigParam p.config id key value }.onModule id (·.setParam id key value)
  | .reset id source => p.onModule id (·.mapLifecycle (·.scheduleReset id source))
  | .reconfigure config => { p with config }.rebuild
  | .stats => p.publish (.stats p.stats)
  | .topology => p.publish (.topology p.topology)
  | .shutdown => { p with running := false }

def process (p : Pipeline M) : Pipeline M :=
  p.commands.foldl handle { p with commands := [] }

/-! ### Running on its own -/

def launch (p : Pipeline M) : Pipeline M :=
  (if p.engine.isNone then p.rebuild else p).tick

/-- One round of the loop: the queued commands, then a tick if the pipeline goes on. -/
def wake (p : Pipeline M) : Pipeline M :=
  let p := p.process
  if p.running then p.tick else p

def leave (p : Pipeline M) : Pipeline M := p.teardown.publish .shutdown

/-- Runs until the queued commands are handled and no more can come. -/
def finish (p : Pipeline M) : Pipeline M :=
  let p := p.launch
  let p := if p.running ∧ !p.commands.isEmpty then p.wake else p
  { p with running := p.running && p.connected }.leave

def ofConfig (c : PipelineConfig) (f : Factory M) (signals : Signals) :
    Except PipelineError (Pipeline M) :=
  match ({ factory := f, config := c, signals } : Pipeline M).build with
  | (p, .ok ()) => .ok p
  | (_, .error e) => .error e

end Pipeline
end EventFlow

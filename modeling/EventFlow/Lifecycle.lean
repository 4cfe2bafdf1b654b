import EventFlow.Plan

/-!
Which modules run. Every module of a plan has a cell; `nextStep` says what a tick does with it, and
`markRunning` and `markStopped` pass the consequences on to the consumers of its streams.
-/

namespace EventFlow

inductive Status where
  | stopped
  | running
deriving DecidableEq, Inhabited

def Status.label : Status → String
  | stopped => "stopped"
  | running => "running"

inductive Step where
  | idle
  | start
  | stop
  | run
deriving DecidableEq, Inhabited

structure Cell where
  id : ModuleId
  producers : List ModuleId := []
  consumers : List ModuleId := []
  /-- Wanted as soon as a producer starts. -/
  runAtStartup : Bool := true
  status : Status := .stopped
  wanted : Bool := true
  configPending : Bool := false
  /-- The module that asked for a reset. -/
  reset : Option ModuleId := none
deriving DecidableEq, Inhabited

structure Lifecycle where
  cells : List Cell := []
deriving DecidableEq, Inhabited

namespace Lifecycle

def ofPlan (p : Plan) (runAtStartup : ModuleId → Bool) : Lifecycle :=
  ⟨p.order.map fun id =>
    { id, producers := p.producers id, consumers := p.consumers id,
      runAtStartup := runAtStartup id, wanted := runAtStartup id }⟩

def cell? (l : Lifecycle) (id : ModuleId) : Option Cell := l.cells.find? fun c => c.id == id

def has (l : Lifecycle) (id : ModuleId) : Bool := (l.cell? id).isSome

def status? (l : Lifecycle) (id : ModuleId) : Option Status := (l.cell? id).map (·.status)

def isRunning (l : Lifecycle) (id : ModuleId) : Bool := l.status? id == some .running

def runningCount (l : Lifecycle) : Nat := l.cells.countP fun c => c.status == .running

def stoppedCount (l : Lifecycle) : Nat := l.cells.countP fun c => c.status == .stopped

def modify (l : Lifecycle) (ids : List ModuleId) (f : Cell → Cell) : Lifecycle :=
  ⟨l.cells.map fun c => if ids.contains c.id then f c else c⟩

/-- A stopped module starts once all its producers run. -/
def nextStep (l : Lifecycle) (id : ModuleId) : Step :=
  match l.cell? id with
  | none => .idle
  | some c =>
    match c.status, c.wanted with
    | .running, true => .run
    | .running, false => .stop
    | .stopped, true => if c.producers.all l.isRunning then .start else .idle
    | .stopped, false => .idle

/-! ### Requests -/

def requestStart (l : Lifecycle) (id : ModuleId) : Lifecycle :=
  l.modify [id] fun c => { c with wanted := true }

def requestStop (l : Lifecycle) (id : ModuleId) : Lifecycle :=
  l.modify [id] fun c => { c with wanted := false }

def requestStopAll (l : Lifecycle) : Lifecycle :=
  ⟨l.cells.map fun c => { c with wanted := false }⟩

def scheduleConfig (l : Lifecycle) (id : ModuleId) : Lifecycle :=
  l.modify [id] fun c => { c with configPending := true }

def scheduleReset (l : Lifecycle) (id source : ModuleId) : Lifecycle :=
  l.modify [id] fun c => { c with reset := some source }

def consumers (l : Lifecycle) (id : ModuleId) : List ModuleId :=
  ((l.cell? id).map (·.consumers)).getD []

def scheduleDownstreamReset (l : Lifecycle) (id : ModuleId) : Lifecycle :=
  l.modify (l.consumers id) fun c =>
    if c.status = .running then { c with reset := some id } else c

/-! ### Consequences -/

def configPending (l : Lifecycle) (id : ModuleId) : Bool := (l.cell? id).any (·.configPending)

def clearConfig (l : Lifecycle) (id : ModuleId) : Lifecycle :=
  l.modify [id] fun c => { c with configPending := false }

def reset? (l : Lifecycle) (id : ModuleId) : Option ModuleId := (l.cell? id).bind (·.reset)

def clearReset (l : Lifecycle) (id : ModuleId) : Lifecycle :=
  l.modify [id] fun c => { c with reset := none }

/-- Records a successful init, which supersedes what was scheduled before, and wants the consumers
that run at startup. -/
def markRunning (l : Lifecycle) (id : ModuleId) : Lifecycle :=
  let started := l.modify [id] fun c =>
    { c with status := .running, configPending := false, reset := none }
  started.modify (l.consumers id) fun c => { c with wanted := c.wanted || c.runAtStartup }

/-- Records a stop; no consumer is wanted any longer. -/
def markStopped (l : Lifecycle) (id : ModuleId) : Lifecycle :=
  let stopped := l.modify [id] fun c => { c with status := .stopped, wanted := false }
  stopped.modify (l.consumers id) fun c => { c with wanted := false }

end Lifecycle
end EventFlow

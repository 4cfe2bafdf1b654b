import EventFlow.Compile
import EventFlow.Module.Behaviour

/-!
A built pipeline and its ticks. A tick takes the modules in execution order: it fills their copies,
asks the lifecycle what to do, and calls them. Packets live in slots for the time of one tick.
-/

namespace EventFlow

abbrev Slots := Slot → Option Packet

namespace Slots

def empty : Slots := fun _ => none

def set (slots : Slots) (s : Slot) (p : Option Packet) : Slots :=
  fun t => if t = s then p else slots t

end Slots

structure Member (M : Type) where
  entry : ModuleEntry
  module : M
  routes : Routes := {}
  /-- The last init failed; only the first failure in a row is reported. -/
  initFailed : Bool := false

structure Call where
  callback : Callback
  context : Context
  /-- The inputs of a run, the packets that it left of them, and those it emitted. -/
  given : List Input := []
  left : List Packet := []
  emitted : List Packet := []
  /-- Who asked for a reset. -/
  source : Option ModuleId := none
  outcome : Outcome := .ok
  /-- Why the module fails: the callback did not succeed, or its packets could not be placed. -/
  failure : Option String := none

structure Moment where
  tick : Nat := 0
  time : Nat := 0
deriving DecidableEq, Inhabited

structure Engine (M : Type) where
  plan : Plan
  members : List (Member M) := []
  lifecycle : Lifecycle := {}
  slots : Slots := Slots.empty
  /-- The calls of the last tick, the latest first. -/
  journal : List Call := []

namespace Engine

variable {M : Type}

def member? (e : Engine M) (id : ModuleId) : Option (Member M) :=
  e.members.find? fun m => m.entry.id == id

def modifyMember (e : Engine M) (id : ModuleId) (f : Member M → Member M) : Engine M :=
  { e with members := e.members.map fun m => if m.entry.id = id then f m else m }

def setModule (e : Engine M) (id : ModuleId) (module : M) : Engine M :=
  e.modifyMember id fun m => { m with module }

def mapLifecycle (e : Engine M) (f : Lifecycle → Lifecycle) : Engine M :=
  { e with lifecycle := f e.lifecycle }

def record (e : Engine M) (c : Call) : Engine M := { e with journal := c :: e.journal }

def view (e : Engine M) : View where
  plan := e.plan
  modules := e.members.map fun m => (m.entry, (e.lifecycle.status? m.entry.id).getD .stopped)

def context (e : Engine M) (now : Moment) (entry : ModuleEntry) : Context where
  entry
  tick := now.tick
  time := now.time
  view := e.view

structure Turn (M : Type) where
  engine : Engine M
  signals : Signals
  failure : Option PipelineError := none

def Turn.next (t : Turn M) (f : Engine M → Signals → Turn M) : Turn M :=
  if t.failure.isSome then t else f t.engine t.signals

def callError (entry : ModuleEntry) (c : Callback) (reason : String) : PipelineError :=
  .callback entry.name entry.id c reason

/-! ### Packets -/

def fillCopies (e : Engine M) (routes : Routes) : Engine M :=
  let fill (slots : Slots) (r : InputRoute) : Slots :=
    match r.copyFrom with
    | some s => slots.set r.slot (slots s)
    | none => slots
  { e with slots := routes.inputs.foldl fill e.slots }

def inputs (e : Engine M) (routes : Routes) : List (Slot × Input) :=
  routes.inputs.filterMap fun r =>
    (e.slots r.slot).map fun packet => (r.slot, { packet, writable := r.writable })

def putBack (e : Engine M) (packets : List (Slot × Packet)) : Engine M :=
  { e with slots := packets.foldl (fun slots p => slots.set p.1 (some p.2)) e.slots }

/-- Places emitted packets, up to the first one that does not carry its emitter's identifier. -/
def place (id : ModuleId) (routes : Routes) : List Packet → Slots → Slots × Option String
  | [], slots => (slots, none)
  | p :: rest, slots =>
    if p.source ≠ id then (slots, some s!"emitted a packet with source id {p.source.label}")
    else match routes.placement p.type with
      | .slot s => place id routes rest (slots.set s (some p))
      | .unused => place id routes rest slots
      | .undeclared => place id routes rest slots

/-! ### Callbacks -/

variable [Behaviour M]

def start (now : Moment) (m : Member M) (e : Engine M) (s : Signals) : Engine M × Signals :=
  let context := e.context now m.entry
  let r := Behaviour.init m.module context s
  let failure := r.outcome.failure?
  let e := (e.setModule m.entry.id r.module).record
    { callback := .init, context, outcome := r.outcome, failure }
  match failure with
  | none =>
    ((e.modifyMember m.entry.id fun m => { m with initFailed := false }).mapLifecycle
        (·.markRunning m.entry.id),
      r.signals.publish (.status m.entry.id .running))
  | some reason =>
    (e.modifyMember m.entry.id fun m => { m with initFailed := true },
      if m.initFailed then r.signals
      else r.signals.publish (.moduleError m.entry.id (callError m.entry .init reason).message))

def stop (now : Moment) (m : Member M) (e : Engine M) (s : Signals) : Engine M × Signals :=
  let context := e.context now m.entry
  let r := Behaviour.exit m.module context s
  let failure := r.outcome.failure?
  let e := (e.setModule m.entry.id r.module).record
    { callback := .exit, context, outcome := r.outcome, failure }
  let signals := match failure with
    | none => r.signals
    | some reason =>
      r.signals.publish (.moduleError m.entry.id (callError m.entry .exit reason).message)
  (e.mapLifecycle (·.markStopped m.entry.id), signals.publish (.status m.entry.id .stopped))

def configTurn (now : Moment) (m : Member M) (e : Engine M) (s : Signals) : Turn M :=
  if e.lifecycle.configPending m.entry.id then
    let e := e.mapLifecycle (·.clearConfig m.entry.id)
    let context := e.context now m.entry
    let r := Behaviour.config m.module context s
    let failure := r.outcome.failure?
    { engine := (e.setModule m.entry.id r.module).record
        { callback := .config, context, outcome := r.outcome, failure }
      signals := r.signals
      failure := failure.map (callError m.entry .config) }
  else { engine := e, signals := s }

def runTurn (now : Moment) (m : Member M) (e : Engine M) (s : Signals) : Turn M :=
  let given := e.inputs m.routes
  if m.entry.kind ≠ .source ∧ given.isEmpty then { engine := e, signals := s }
  else
    let context := e.context now m.entry
    let io : PacketIo := { inputs := given.map (·.2) }
    let r := Behaviour.run m.module context io s
    let left := PacketIo.settle io.inputs r.io.inputs
    let e := (e.setModule m.entry.id r.module).putBack ((given.map (·.1)).zip left)
    let (slots, failure) := match r.outcome.failure? with
      | none => place m.entry.id m.routes r.io.outputs e.slots
      | some reason => (e.slots, some reason)
    let e := { e with slots }.record
      { callback := .run, context, given := io.inputs, left, emitted := r.io.outputs,
        outcome := r.outcome, failure }
    { engine :=
        if r.resetConsumers ∧ failure.isNone then
          e.mapLifecycle (·.scheduleDownstreamReset m.entry.id)
        else e
      signals := r.signals
      failure := failure.map (callError m.entry .run) }

def resetTurn (now : Moment) (m : Member M) (e : Engine M) (s : Signals) : Turn M :=
  match e.lifecycle.reset? m.entry.id with
  | none => { engine := e, signals := s }
  | some source =>
    let e := e.mapLifecycle (·.clearReset m.entry.id)
    let context := e.context now m.entry
    let r := Behaviour.reset m.module context source s
    let failure := r.outcome.failure?
    { engine := (e.setModule m.entry.id r.module).record
        { callback := .reset, context, source := some source, outcome := r.outcome, failure }
      signals := r.signals
      failure := failure.map (callError m.entry .reset) }

def forMember (id : ModuleId) (f : Member M → Engine M → Signals → Turn M) (e : Engine M)
    (s : Signals) : Turn M :=
  match e.member? id with
  | some m => f m e s
  | none => { engine := e, signals := s }

def callbacks (now : Moment) (id : ModuleId) (e : Engine M) (s : Signals) : Turn M :=
  ((forMember id (configTurn now) e s).next (forMember id (runTurn now))).next
    (forMember id (resetTurn now))

/-- A failure is reported and stops the module at once. -/
def run (now : Moment) (id : ModuleId) (e : Engine M) (s : Signals) : Engine M × Signals :=
  let t := callbacks now id e s
  match t.failure, t.engine.member? id with
  | some error, some m => stop now m t.engine (t.signals.publish (.moduleError id error.message))
  | _, _ => (t.engine, t.signals)

def step (now : Moment) (e : Engine M) (s : Signals) (id : ModuleId) : Engine M × Signals :=
  match e.member? id with
  | none => (e, s)
  | some m =>
    let e := e.fillCopies m.routes
    match e.lifecycle.nextStep id with
    | .idle => (e, s)
    | .start => start now m e s
    | .stop => stop now m e s
    | .run => run now id e s

def steps (now : Moment) : List ModuleId → Engine M → Signals → Engine M × Signals
  | [], e, s => (e, s)
  | id :: ids, e, s =>
    let (e, s) := step now e s id
    steps now ids e s

/-- One pass over the execution order; the slots are empty before and after. -/
def tick (now : Moment) (e : Engine M) (s : Signals) : Engine M × Signals :=
  let (e, s) := steps now e.plan.order { e with journal := [] } s
  ({ e with slots := Slots.empty }, s)

def stopEach (now : Moment) : List ModuleId → Engine M → Signals → Engine M × Signals
  | [], e, s => (e, s)
  | id :: ids, e, s =>
    match e.lifecycle.nextStep id, e.member? id with
    | .stop, some m =>
      let (e, s) := stop now m e s
      stopEach now ids e s
    | _, _ => stopEach now ids e s

def stopAll (now : Moment) (e : Engine M) (s : Signals) : Engine M × Signals :=
  let e := { e with journal := [] }.mapLifecycle Lifecycle.requestStopAll
  stopEach now e.plan.order e s

/-! ### Requests -/

def setParam (e : Engine M) (id : ModuleId) (key : String) (value : ParamValue) : Engine M :=
  let change (m : Member M) : Member M :=
    { m with entry := { m.entry with params := Table.put key value m.entry.params } }
  (e.modifyMember id change).mapLifecycle (·.scheduleConfig id)

def topology (e : Engine M) : Topology where
  modules := e.members.map fun m => {
    id := m.entry.id
    name := m.entry.name
    library := m.entry.library
    status := (e.lifecycle.status? m.entry.id).getD .stopped
    producers := e.plan.producers m.entry.id
    consumers := e.plan.consumers m.entry.id }
  slots := e.plan.slotCount
  copies := e.plan.stats.copies

end Engine
end EventFlow

import EventFlow.Module.Behaviour

/-!
A module that follows instructions, to try out a pipeline without real devices. It logs every
callback, and emits packets, changes its inputs and fails where its instructions say so.
-/

namespace EventFlow

inductive StandInChange where
  | invalidateOff
  | increment
  | append
deriving DecidableEq, Inhabited

structure StandInEmission where
  /-- The only tick of this packet; without one it is emitted in every tick. -/
  tick : Option Nat := none
  type : EventType
  /-- The module that the packet claims to come from, if not its own. -/
  source : Option ModuleId := none
  events : List Event := []
deriving DecidableEq, Inhabited

/-- Streams and modules that a stand-in asks the pipeline about in every run. -/
structure StandInProbe where
  streams : List StreamKey := []
  modules : List ModuleId := []
deriving DecidableEq, Inhabited

structure StandInSpec where
  info : ModuleInfo
  defaults : List (String × ParamValue) := []
  failInit : Nat := 0
  panicInit : Nat := 0
  failRun : List Nat := []
  panicRun : List Nat := []
  panicAny : List Nat := []
  failConfig : Nat := 0
  failExit : Bool := false
  failReset : Bool := false
  resetAt : List Nat := []
  notifyAt : List Nat := []
  change : Option StandInChange := none
  emissions : List StandInEmission := []
  probe : Option StandInProbe := none
deriving Inhabited

structure StandIn where
  spec : StandInSpec
  inits : Nat := 0
  configs : Nat := 0
deriving Inhabited

namespace StandInChange

def extra : Event := { timestamp := 0, x := 0, y := 0, value := 9 }

def apply (c : StandInChange) (p : Packet) : Packet :=
  match c with
  | invalidateOff =>
    { p with events := p.events.map fun e => if e.value = 0 then e.invalidate else e }
  | increment => { p with events := p.events.map fun e => { e with value := e.value + 1 } }
  | append => { p with events := p.events ++ [extra] }

end StandInChange

namespace StandIn

def write (c : Context) (s : Signals) (line : String) : Signals :=
  s.write (c.entry.name ++ ":" ++ line)

def inputText (p : Packet) : String :=
  let sum := (p.valid.map (·.value)).foldl (· + ·) 0
  s!"({p.source.val},{p.type.val}) n={p.events.length} valid={p.valid.length} sum={sum}"

def runText (c : Context) (io : PacketIo) : String :=
  s!"run {c.tick} [" ++ "; ".intercalate (io.packets.map inputText) ++ "]"

def boolText (b : Bool) : String := if b then "true" else "false"

def configText (p : Params) : String :=
  let float := Decimal.bitText (Params.float p "gain" 0.5)
  let bool := boolText (Params.bool p "gain" false)
  let text := (Params.text? p "gain").getD "-"
  let int := Params.int p "gain" (-1)
  s!"config int={int} float={float} bool={bool} str={text}"

def paramsText (p : Params) : String :=
  ",".intercalate (p.map fun e => e.1 ++ "=" ++ e.2.display)

def moduleText (v : View) (id : ModuleId) : String :=
  let status := ((v.status? id).map Status.label).getD "none"
  let version := ((v.entry? id).map fun e => toString e.version).getD "none"
  let params := ((v.entry? id).map fun e => paramsText e.params).getD "none"
  let producers := ModuleId.details (v.plan.producers id)
  let consumers := ModuleId.details (v.plan.consumers id)
  s!"module {id.label} status={status} version={version} params={params} " ++
    s!"in={producers} out={consumers}"

def streamText (v : View) (k : StreamKey) : String :=
  s!"stream {k.label} " ++ boolText (v.plan.hasStream k.producer k.type)

def probeLines (c : Context) (p : StandInProbe) : List String :=
  let producers := ModuleId.details (c.view.plan.producers c.id)
  let consumers := ModuleId.details (c.view.plan.consumers c.id)
  p.streams.map (streamText c.view) ++ p.modules.map (moduleText c.view) ++
    [s!"self in={producers} out={consumers}"]

def emissions (spec : StandInSpec) (c : Context) : List Packet :=
  (spec.emissions.filter fun e => e.tick.all (· == c.tick)).map fun e =>
    { source := e.source.getD c.id, type := e.type, events := e.events }

def runOutcome (spec : StandInSpec) (tick : Nat) : Outcome :=
  if spec.failRun.contains tick then .failed (.invalidParam "k" "run failure")
  else if spec.panicRun.contains tick then .panicked (some s!"run panic at {tick}")
  else if spec.panicAny.contains tick then .panicked none
  else .ok

def init (m : StandIn) (c : Context) (s : Signals) : Reply StandIn where
  module := { m with inits := m.inits + 1 }
  signals := write c s s!"init {c.tick}"
  outcome :=
    if m.inits < m.spec.failInit then .failed (.failed "not ready")
    else if m.inits < m.spec.panicInit then .panicked (some "init panic")
    else .ok

def config (m : StandIn) (c : Context) (s : Signals) : Reply StandIn where
  module := { m with configs := m.configs + 1 }
  signals := write c s (configText c.params)
  outcome := if m.configs < m.spec.failConfig then .failed (.script "config failure") else .ok

def run (m : StandIn) (c : Context) (io : PacketIo) (s : Signals) : RunReply StandIn :=
  let lines := [runText c io] ++ ((m.spec.probe.map (probeLines c)).getD []) ++
    (if m.spec.notifyAt.contains c.tick then ["notify " ++ boolText c.listening] else [])
  let changed := match m.spec.change with
    | some change => io.mapWritable change.apply
    | none => io
  { module := m
    signals := lines.foldl (write c) s
    outcome := runOutcome m.spec c.tick
    io := (emissions m.spec c).foldl PacketIo.emit changed
    resetConsumers := m.spec.resetAt.contains c.tick }

def exit (m : StandIn) (c : Context) (s : Signals) : Reply StandIn where
  module := m
  signals := write c s s!"exit {c.tick}"
  outcome := if m.spec.failExit then .failed (.failed "exit failure") else .ok

def reset (m : StandIn) (c : Context) (source : ModuleId) (s : Signals) : Reply StandIn where
  module := m
  signals := write c s s!"reset {c.tick} from {source.label}"
  outcome := if m.spec.failReset then .failed (.failed "reset failure") else .ok

instance : Behaviour StandIn where
  info m := m.spec.info
  withDefaults m p := Params.withDefaults p m.spec.defaults
  init := init
  config := config
  run := run
  exit := exit
  reset := reset

end StandIn
end EventFlow

import EventFlow.Catalog
import EventFlow.Config.Store
import EventFlow.Pipeline

/-!
The command line: `sensorflow [--check] [CONFIG]`. With `--check` it prints the execution order of
the configured pipeline, else it runs the pipeline and obeys the words that it reads.
-/

namespace EventFlow.Launcher

structure Arguments where
  check : Bool := false
  config : Option String := none
deriving DecidableEq, Inhabited

inductive LaunchError where
  | unknownFlag (flag : String)
  | unexpected (argument : String)
  | noConfig
  | notLoaded (path : String) (cause : ConfigError)
  | notBuilt (cause : PipelineError)
deriving DecidableEq

def indented (s : String) : String := "    " ++ "\n    ".intercalate (s.splitOn "\n")

def LaunchError.message : LaunchError → String
  | unknownFlag f => s!"unknown flag '{f}'"
  | unexpected a => s!"unexpected argument '{a}'"
  | noConfig => "no config path given and no config directory available"
  | notLoaded p e =>
    s!"failed to load {p}\n\nCaused by:\n" ++ indented (AppError.config e).message
  | notBuilt e => e.message

structure Report where
  exit : Nat := 0
  output : String := ""
  error : String := ""
deriving DecidableEq, Inhabited

def Report.ofError (e : LaunchError) : Report := { exit := 1, error := s!"Error: {e.message}\n" }

namespace Arguments

def take (a : Arguments) : List String → Except LaunchError Arguments
  | [] => .ok a
  | s :: rest =>
    if s = "--check" then take { a with check := true } rest
    else if s.startsWith "--" then .error (.unknownFlag s)
    else if a.config.isNone then take { a with config := some s } rest
    else .error (.unexpected s)

def parse (args : List String) : Except LaunchError Arguments := take {} args

end Arguments

def userPath? (env : String → Option String) : Option String :=
  let base := ((env "XDG_CONFIG_HOME").filter Path.isAbsolute).or
    (((env "HOME").filter (· != "")).map (Path.join · ".config"))
  base.map fun b => Path.join (Path.join b "sensorflow") "pipeline.toml"

/-- The argument goes before the variable `SENSORFLOW_CONFIG`, and that before the user's own
configuration. -/
def configPath (a : Arguments) (env : String → Option String) : Except LaunchError String :=
  match a.config.or ((env "SENSORFLOW_CONFIG").or (userPath? env)) with
  | some path => .ok path
  | none => .error .noConfig

variable [Host] [Formats]

def config (path : String) (content : Except FileError String) : Except LaunchError PipelineConfig :=
  match PipelineConfig.ofContent path content with
  | .ok c => .ok c
  | .error e => .error (.notLoaded path e)

/-! ### Checking -/

def padLeft (width : Nat) (s : String) : String := "".pushn ' ' (width - s.length) ++ s

def padRight (width : Nat) (s : String) : String := s.pushn ' ' (width - s.length)

def nameOf (decls : List Decl) (id : ModuleId) : String :=
  ((decls.find? fun d => d.id == id).map (·.name)).getD "?"

def orderLine (decls : List Decl) (position : Nat) (id : ModuleId) : String :=
  padLeft 3 (toString position) ++ "  " ++ padRight 6 id.label ++ " " ++ nameOf decls id ++ "\n"

def planText (decls : List Decl) (p : Plan) : String :=
  let lines := p.order.zipIdx.map fun e => orderLine decls e.2 e.1
  String.join lines ++
    s!"{p.stats.streams} streams, {p.stats.slots} slots, {p.stats.copies} copies\n"

def check (c : PipelineConfig) : Except PipelineError String := do
  let decls ← Library.factory.declarations c
  let plan ← compile decls 0
  pure (planText decls plan)

/-! ### Running -/

def pipeline (c : PipelineConfig) : Except PipelineError (Pipeline LibraryModule) :=
  Pipeline.ofConfig c Library.factory { outbox := { capacity := c.runtime.messageCapacity } }

def command? (line : String) : Option Command :=
  match String.ofList (Text.trim line.toList) with
  | "stats" => some .stats
  | "topology" => some .topology
  | "quit" => some .shutdown
  | "q" => some .shutdown
  | _ => none

def lines : Message → List String
  | .status id .running => [s!"Module {id.label} is running"]
  | .status id .stopped => [s!"Module {id.label} stopped"]
  | .moduleError id text => [s!"Module {id.label}: {text}"]
  | .packets id ps =>
    [s!"Sink {id.label}: {ps.length} packets, {(ps.flatMap (·.events)).length} events"]
  | .statistics id s =>
    let total := Decimal.plain s.totalPerSecond.round
    let valid := Decimal.plain s.validPerSecond.round
    [s!"Statistics {id.label}: {total} events/s ({valid} valid/s), max gap {s.maxGap} us"]
  | .stats s =>
    [s!"Ticks: {s.ticks}, running: {s.running}, stopped: {s.stopped}, generation {s.generation}"]
  | .topology t => t.modules.map fun m =>
    s!"{m.id.label} '{m.name}' ({m.library}) {m.status.label} <- " ++
      s!"{ModuleId.details m.producers} -> {ModuleId.details m.consumers}"
  | .buildFailed text => [s!"Build failed: {text}"]
  | .shutdown => ["Pipeline shut down"]

def open? (args : Arguments) (path : String) (content : Except FileError String) :
    Except LaunchError (String ⊕ Pipeline LibraryModule) :=
  match config path content with
  | .error e => .error e
  | .ok c =>
    if args.check then
      match check c with
      | .error e => .error (.notBuilt e)
      | .ok text => .ok (.inl text)
    else
      match pipeline c with
      | .error e => .error (.notBuilt e)
      | .ok p => .ok (.inr p)

/-- The whole launch; a pipeline that runs prints nothing and ends well. -/
def respond (args : List String) (env : String → Option String)
    (read : String → Except FileError String) : Report :=
  match Arguments.parse args with
  | .error e => .ofError e
  | .ok a =>
    match configPath a env with
    | .error e => .ofError e
    | .ok path =>
      match open? a path (read path) with
      | .error e => .ofError e
      | .ok (.inl text) => { output := text }
      | .ok (.inr _) => {}

end EventFlow.Launcher

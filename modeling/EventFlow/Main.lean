import EventFlow.Launcher
import EventFlow.Present

/-!
The program. What it does is decided in `Launcher`; here files, variables and input are read, and
time passes.
-/

namespace EventFlow.Main

/-- Opening a file reports negative codes and reading one positive codes. -/
def fileError : IO.Error → FileError
  | .inappropriateType _ code _ => if code = 20 ∨ code = -20 then .notDirectory else .directory
  | .permissionDenied .. => .denied
  | _ => .missing

def readText (path : String) : IO (Except FileError String) := do
  try
    match String.fromUTF8? (← IO.FS.readBinFile path) with
    | some text => pure (.ok text)
    | none => pure (.error .notText)
  catch e => pure (.error (fileError e))

def flush (quiet : Bool) (p : Pipeline LibraryModule) : IO (Pipeline LibraryModule) := do
  if !quiet then
    for line in p.signals.outbox.queue.flatMap Launcher.lines do
      IO.println line
  pure { p with signals := p.signals.clearOutbox, trace := [] }

def atPresent (start : Nat) (p : Pipeline LibraryModule) : IO (Pipeline LibraryModule) := do
  pure { p with time := (← IO.monoNanosNow) - start }

def readLine : IO (Task (Except IO.Error String)) := do
  let input ← IO.getStdin
  IO.asTask input.getLine

/-- Obeys the lines of the input and ticks in between, until the pipeline ends. -/
partial def obey (quiet : Bool) (start : Nat) (line : Option (Task (Except IO.Error String)))
    (p : Pipeline LibraryModule) : IO Unit := do
  let p ← flush quiet p
  if !p.running then
    discard (flush quiet p.leave)
  else
    let p ← atPresent start p
    match line with
    | none =>
      IO.sleep 10
      obey quiet start none p.wake
    | some task =>
      if ← IO.hasFinished task then
        match task.get with
        | .ok "" => obey quiet start none p.wake
        | .ok text =>
          let p := match Launcher.command? text with
            | some c => p.send c
            | none => p
          obey quiet start (some (← readLine)) p.wake
        | .error _ => obey quiet start none p.wake
      else
        IO.sleep 10
        obey quiet start line p.wake

def run (args : List String) : IO UInt32 := do
  let settings ← ["SENSORFLOW_CONFIG", "XDG_CONFIG_HOME", "HOME"].filterMapM fun name => do
    pure ((← IO.getEnv name).map fun value => (name, value))
  let opened ← match Launcher.Arguments.parse args with
    | .error e => pure (Except.error e)
    | .ok a =>
      match Launcher.configPath a (settings.lookup ·) with
      | .error e => pure (.error e)
      | .ok path => do pure (Launcher.open? a path (← readText path))
  match opened with
  | .error e =>
    IO.eprint (Launcher.Report.ofError e).error
    pure 1
  | .ok (.inl text) =>
    IO.print text
    pure 0
  | .ok (.inr p) =>
    let quiet := p.config.logging.filter == some "off"
    obey quiet (← IO.monoNanosNow) (some (← readLine)) p.launch
    pure 0

end EventFlow.Main

def main (args : List String) : IO UInt32 := EventFlow.Main.run args

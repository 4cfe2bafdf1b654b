import EventFlow.Id
import EventFlow.Param
import EventFlow.Text.Blank

/-!
The description of a pipeline, as a configuration file gives it, and the rules that it must meet
before anything is known about the libraries it names.
-/

namespace EventFlow

structure RuntimeConfig where
  /-- The longest time, in milliseconds, between two ticks. -/
  housekeepingInterval : Nat := 1000
  commandCapacity : Nat := 256
  messageCapacity : Nat := 10000
  dataCapacity : Nat := 64
deriving DecidableEq, Inhabited

structure LoggingConfig where
  filter : Option String := none
  file : Option String := none
deriving DecidableEq, Inhabited

structure ModuleConfig where
  id : Nat
  name : String
  library : String
  input : Option String := none
  output : Option String := none
  runAtStartup : Bool := true
  params : Params := []
deriving BEq, Inhabited

structure PipelineConfig where
  runtime : RuntimeConfig := {}
  logging : LoggingConfig := {}
  modules : List ModuleConfig := []
deriving BEq, Inhabited

inductive FileError where
  | missing
  | notDirectory
  | directory
  | notText
  | denied
deriving DecidableEq

def FileError.message : FileError → String
  | missing => "No such file or directory (os error 2)"
  | notDirectory => "Not a directory (os error 20)"
  | directory => "Is a directory (os error 21)"
  | notText => "stream did not contain valid UTF-8"
  | denied => "Permission denied (os error 13)"

inductive ConfigError where
  | idOutOfRange (name : String) (id : Nat)
  | repeatedId (id : Nat)
  | repeatedName (name : String)
  | noLibrary (name : String)
  | noInterval
  | unreadable (path : String) (cause : FileError)
  | malformed (path : String)
  | noDirectory (cause : FileError)
  | unwritable (cause : FileError)
  | other (reason : String)
deriving DecidableEq

def ConfigError.message : ConfigError → String
  | idOutOfRange n id => s!"Module '{n}': id {id} out of range 1..={maxId}"
  | repeatedId id => s!"Duplicate module id {id}"
  | repeatedName n => s!"Duplicate module name '{n}'"
  | noLibrary n => s!"Module '{n}': no library given"
  | noInterval => "housekeeping_interval_ms must be positive"
  | unreadable p e => s!"Failed to read {p}: {e.message}"
  | malformed p => s!"Failed to parse {p}: not the description of a pipeline"
  | noDirectory e => s!"Failed to create config directory: {e.message}"
  | unwritable e => s!"Failed to write config: {e.message}"
  | other r => r

namespace PipelineConfig

def checkModules (ids : List Nat) (names : List String) :
    List ModuleConfig → Except ConfigError Unit
  | [] => .ok ()
  | m :: rest =>
    if m.id = 0 ∨ maxId < m.id then .error (.idOutOfRange m.name m.id)
    else if ids.contains m.id then .error (.repeatedId m.id)
    else if names.contains m.name then .error (.repeatedName m.name)
    else if Text.isBlankText m.library then .error (.noLibrary m.name)
    else checkModules (m.id :: ids) (m.name :: names) rest

def validate (c : PipelineConfig) : Except ConfigError Unit :=
  match checkModules [] [] c.modules with
  | .error e => .error e
  | .ok () => if c.runtime.housekeepingInterval = 0 then .error .noInterval else .ok ()

def module? (c : PipelineConfig) (id : Nat) : Option ModuleConfig :=
  c.modules.find? fun m => m.id == id

def modifyModule (c : PipelineConfig) (id : Nat) (f : ModuleConfig → ModuleConfig) :
    PipelineConfig :=
  let rec go : List ModuleConfig → List ModuleConfig
    | [] => []
    | m :: rest => if m.id = id then f m :: rest else m :: go rest
  { c with modules := go c.modules }

end PipelineConfig
end EventFlow

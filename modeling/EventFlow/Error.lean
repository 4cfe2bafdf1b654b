import EventFlow.Config.Basic
import EventFlow.Host
import EventFlow.Order
import EventFlow.Wiring

/-!
Everything that can go wrong, as causes. The wording of each is in its `message`.
-/

namespace EventFlow

inductive ModuleError where
  | failed (reason : String)
  | invalidParam (key reason : String)
  | script (reason : String)
  | io (reason : String)
deriving DecidableEq

def ModuleError.message : ModuleError → String
  | failed r => r
  | invalidParam k r => s!"invalid parameter '{k}': {r}"
  | script r => s!"script error: {r}"
  | io r => s!"IO error: {r}"

inductive Outcome where
  | ok
  | failed (cause : ModuleError)
  /-- The callback broke off, perhaps with a text. -/
  | panicked (text : Option String)
deriving DecidableEq, Inhabited

namespace Outcome

def ofExcept : Except ModuleError Unit → Outcome
  | .ok () => ok
  | .error e => failed e

def ofFault (f : Fault) : Outcome := panicked (some f.text)

def ofFault? : Option Fault → Outcome
  | none => ok
  | some f => ofFault f

def failure? : Outcome → Option String
  | ok => none
  | failed e => some e.message
  | panicked text => some ("panicked: " ++ text.getD "unknown panic")

end Outcome

inductive ModuleFault where
  | repeatedId (id : ModuleId)
  | info (cause : InfoError)
  | inputOnSource
  | inputMissing (kind : Kind)
  | outputOnSink
  | outputMissing
  | noSource
  | noSink
  | badOutput (cause : WiringError)
  | badInput (cause : WiringError)
  | inputMismatch (cause : SpecError)
  | sourceUnconnected
  | tapOutsideStream (tap : ModuleId) (key : StreamKey)
  | tapNotModifying (tap : ModuleId) (key : StreamKey)
  | unknownLibrary (library : String)
  | config (cause : ConfigError)
  | other (reason : String)
deriving DecidableEq

def ModuleFault.message : ModuleFault → String
  | repeatedId m => s!"module id {m.val} is used more than once"
  | info e => e.message
  | inputOnSource => "SOURCE module cannot have an 'input' attribute"
  | inputMissing k => s!"{k.label} module requires an 'input' attribute"
  | outputOnSink => "SINK module cannot have an 'output' attribute"
  | outputMissing => "module with undefined outputs requires an 'output' attribute"
  | noSource => "at least one SOURCE module is required"
  | noSink => "at least one SINK module is required"
  | badOutput e => s!"Invalid 'output' attribute: {e.message}"
  | badInput e => s!"Invalid 'input' attribute: {e.message}"
  | inputMismatch e => s!"Invalid 'input' attribute: {e.message}"
  | sourceUnconnected => "SOURCE module is not connected to anything"
  | tapOutsideStream t k =>
    s!"Invalid 'input' attribute: tap point {t.val} on stream {k.label}: " ++
      "referenced module is not part of stream"
  | tapNotModifying t k =>
    s!"Invalid 'input' attribute: tap point {t.val} on stream {k.label}: " ++
      "tap point does not modify this stream"
  | unknownLibrary l => s!"unknown library '{l}'"
  | config e => s!"Configuration error: {e.message}"
  | other r => r

inductive CycleCause where
  | users (cause : UserError)
  | tree (cause : TreeError)
  | order (cause : OrderError)
  | unplaced (ids : List ModuleId)
  | readBeforeProduced (id : ModuleId) (key : StreamKey)
  | other (reason : String)
deriving DecidableEq

def CycleCause.message : CycleCause → String
  | users e => e.message
  | tree e => e.message
  | order e => e.message
  | unplaced ms => s!"modules {ModuleId.details ms} could not be placed in the execution order"
  | readBeforeProduced m k => s!"module {m.label} reads stream {k.label} before it is produced"
  | other r => r

inductive Callback where
  | init
  | config
  | run
  | reset
  | exit
deriving DecidableEq, Inhabited

def Callback.label : Callback → String
  | init => "init"
  | config => "config"
  | run => "run"
  | reset => "reset"
  | exit => "exit"

inductive PipelineError where
  | configuration (module : String) (cause : ModuleFault)
  | cycle (cause : CycleCause)
  | deadCode (module : String) (id : ModuleId)
  | callback (module : String) (id : ModuleId) (callback : Callback) (reason : String)
  | resource (reason : String)
  | unknownModule (id : ModuleId)
  | io (reason : String)
  | channelSend
  | channelReceive
deriving DecidableEq

namespace PipelineError

def message : PipelineError → String
  | configuration m e => s!"Module '{m}': {e.message}"
  | cycle e => s!"Cycle detected: {e.message}"
  | deadCode m id =>
    s!"Module '{m}' ({id.label}): none of the outputs or modified inputs of this processor " ++
      "are used anywhere as inputs"
  | callback m id c r => s!"Module '{m}' ({id.label}) {c.label} failed: {r}"
  | resource r => s!"Resource allocation failed: {r}"
  | unknownModule id => s!"Unknown module {id.label}"
  | io r => s!"IO error: {r}"
  | channelSend => "Channel send error"
  | channelReceive => "Channel receive error"

/-- Only a failed callback leaves the pipeline as a whole in order. -/
def fatal : PipelineError → Bool
  | callback .. => false
  | _ => true

end PipelineError

inductive AppError where
  | pipeline (cause : PipelineError)
  | script (reason : String)
  | config (cause : ConfigError)
  | channel (reason : String)
  | io (reason : String)
  | serialization (reason : String)
  | noted (note : String) (cause : AppError)
deriving DecidableEq

namespace AppError

def message : AppError → String
  | pipeline e => s!"Pipeline error: {e.message}"
  | script r => s!"Script error: {r}"
  | config e => s!"Configuration error: {e.message}"
  | channel r => s!"Channel error: {r}"
  | io r => s!"IO error: {r}"
  | serialization r => s!"Serialization error: {r}"
  | noted n e => s!"{n}: {e.message}"

end AppError
end EventFlow

import EventFlow.Config.Basic
import EventFlow.Document.Node

/-!
A configuration as a document, and back. A record is read from a table by name, or from a list by
position; fields that no record has are ignored.
-/

namespace EventFlow

namespace Node

/-- The fields of a record by name. A field of the record must not be given twice; where lists are
`exact`, they hold no more items than the record has fields. -/
def record? (exact : Bool) (names : List String) : Node → Option (String → Option Node)
  | .table fs =>
    if names.all fun n => (fs.filter fun f => f.1 == n).length ≤ 1 then
      some fun n => List.lookup n fs
    else none
  | .list items =>
    if exact && names.length < items.length then none
    else some fun n => List.lookup n (names.zip items)
  | _ => none

def bool? : Node → Option Bool
  | .bool b => some b
  | _ => none

def nat? (limit : Nat) : Node → Option Nat
  | .int n => if 0 ≤ n ∧ n ≤ limit then some n.toNat else none
  | _ => none

def text? : Node → Option String
  | .text s => some s
  | _ => none

def list? : Node → Option (List Node)
  | .list ns => some ns
  | _ => none

def orDefault {α : Type} (default : α) (read : Node → Option α) : Option Node → Option α
  | none => some default
  | some n => read n

def optional {α : Type} (read : Node → Option α) : Option Node → Option (Option α)
  | none => some none
  | some .null => some none
  | some n => (read n).map some

def ofOption (name : String) : Option String → List (String × Node)
  | none => []
  | some s => [(name, .text s)]

end Node

def wordLimit : Nat := 18446744073709551615

namespace ParamValue

/-- An integer that does not fit in 64 bits with a sign becomes a float. -/
def ofNode? : Node → Option ParamValue
  | .bool b => some (.bool b)
  | .int n =>
    if -9223372036854775808 ≤ n ∧ n ≤ 9223372036854775807 then some (.int n)
    else some (.float (Decimal.ofInt n))
  | .float f => some (.float f)
  | .text s => some (.text s)
  | _ => none

def node : ParamValue → Node
  | bool b => .bool b
  | int n => .int n
  | float f => .float f
  | text s => .text s

end ParamValue

namespace Params

/-- Of several values for one name the last one counts. -/
def ofFields? : List (String × Node) → Params → Option Params
  | [], p => some p
  | (k, n) :: fs, p => (ParamValue.ofNode? n).bind fun v => ofFields? fs (Table.put k v p)

def ofNode? : Node → Option Params
  | .table fs => ofFields? fs []
  | _ => none

def node (p : Params) : Node := .table (p.map fun e => (e.1, e.2.node))

end Params

namespace RuntimeConfig

def fieldNames : List String :=
  ["housekeeping_interval_ms", "command_channel_capacity", "message_channel_capacity",
    "data_channel_capacity"]

def ofNode? (exact : Bool) (n : Node) : Option RuntimeConfig := do
  let get ← n.record? exact fieldNames
  let number (name : String) (default : Nat) : Option Nat :=
    Node.orDefault default (Node.nat? wordLimit) (get name)
  let housekeepingInterval ← number "housekeeping_interval_ms" 1000
  let commandCapacity ← number "command_channel_capacity" 256
  let messageCapacity ← number "message_channel_capacity" 10000
  let dataCapacity ← number "data_channel_capacity" 64
  pure { housekeepingInterval, commandCapacity, messageCapacity, dataCapacity }

def node (c : RuntimeConfig) : Node :=
  .table [("housekeeping_interval_ms", .int c.housekeepingInterval),
    ("command_channel_capacity", .int c.commandCapacity),
    ("message_channel_capacity", .int c.messageCapacity),
    ("data_channel_capacity", .int c.dataCapacity)]

end RuntimeConfig

namespace LoggingConfig

def fieldNames : List String := ["filter", "file"]

def ofNode? (exact : Bool) (n : Node) : Option LoggingConfig := do
  let get ← n.record? exact fieldNames
  let filter ← Node.optional Node.text? (get "filter")
  let file ← Node.optional Node.text? (get "file")
  pure { filter, file }

def node (c : LoggingConfig) : Node :=
  .table (Node.ofOption "filter" c.filter ++ Node.ofOption "file" c.file)

end LoggingConfig

namespace ModuleConfig

def fieldNames : List String :=
  ["id", "name", "library", "input", "output", "run_at_startup", "params"]

def idLimit : Nat := 65535

def ofNode? (exact : Bool) (n : Node) : Option ModuleConfig := do
  let get ← n.record? exact fieldNames
  let id ← (get "id").bind (Node.nat? idLimit)
  let name ← (get "name").bind Node.text?
  let library ← (get "library").bind Node.text?
  let input ← Node.optional Node.text? (get "input")
  let output ← Node.optional Node.text? (get "output")
  let runAtStartup ← Node.orDefault true Node.bool? (get "run_at_startup")
  let params ← Node.orDefault [] Params.ofNode? (get "params")
  pure { id, name, library, input, output, runAtStartup, params }

def node (m : ModuleConfig) : Node :=
  .table ([("id", .int m.id), ("name", .text m.name), ("library", .text m.library)] ++
    Node.ofOption "input" m.input ++ Node.ofOption "output" m.output ++
    [("run_at_startup", .bool m.runAtStartup)] ++
    (if m.params.isEmpty then [] else [("params", Params.node m.params)]))

end ModuleConfig

namespace PipelineConfig

def fieldNames : List String := ["runtime", "logging", "modules"]

def ofNode? (exact : Bool) (n : Node) : Option PipelineConfig := do
  let get ← n.record? exact fieldNames
  let runtime ← Node.orDefault {} (RuntimeConfig.ofNode? exact) (get "runtime")
  let logging ← Node.orDefault {} (LoggingConfig.ofNode? exact) (get "logging")
  let modules ← Node.orDefault [] (fun n => n.list?.bind (·.mapM (ModuleConfig.ofNode? exact)))
    (get "modules")
  pure { runtime, logging, modules }

def node (c : PipelineConfig) : Node :=
  .table [("runtime", c.runtime.node), ("logging", c.logging.node),
    ("modules", .list (c.modules.map ModuleConfig.node))]

end PipelineConfig
end EventFlow

import EventFlow.Config.Format
import EventFlow.Document.Toml.Printer
import EventFlow.Document.Toml.Reader
import EventFlow.Host
import EventFlow.Script.Eval
import EventFlow.Script.Parser

/-!
What the program runs on: overflows break a callback off, a table may take 2^32 bytes, scripts are those
that `Script` reads, and files are written and read by `Json` and `Toml`.
-/

namespace EventFlow

namespace Script

def Value.ofScript : ScriptValue → Value
  | .int n => .int n
  | .bool b => .bool b

def Value.answer : Value → ScriptAnswer
  | .bool b => .bool b
  | v => .other v.typeName

def engine : ScriptEngine where
  Ast := Program
  Scope := List Binding
  empty := []
  clear _ := []
  push scope name value := { name, value := .ofScript value } :: scope
  compile text :=
    match Parser.parse? text with
    | some program => .ok program.simplify
    | none =>
      let start : Position := {}
      .error s!"unexpected text {start.label}"
  eval _ program scope :=
    let (r, scope) := Eval.program program scope
    ((r.mapError Error.message).map Value.answer, scope)

end Script

instance Host.present : Host where
  overflow := .breaksOff
  reserves entries bytesEach := decide (entries * bytesEach ≤ Nat.pow 2 32)
  scripts := Script.engine

instance Formats.present : Formats where
  read?
    | .json, text => (Json.parse? text).map Json.node
    | .toml, text => Toml.parse? text
  write?
    | .json, n => some (Json.ofNode n).pretty
    | .toml, n => Toml.write? n

end EventFlow

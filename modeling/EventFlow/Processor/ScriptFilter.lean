import EventFlow.Error
import EventFlow.PacketIo
import EventFlow.Predicate

/-!
Drops the events of one stream that a predicate refuses. An event on which the predicate fails ends
the run, and is left as it was together with all that come after it.
-/

namespace EventFlow

structure ScriptFilter [Host] where
  predicate : Option Predicate := none
  /-- What the last script left; the next one empties it. -/
  scope : Host.scripts.Scope := Host.scripts.empty
  asked : Nat := 0
  rejected : Nat := 0

namespace ScriptFilter

def info : ModuleInfo where
  name := "ScriptFilter"
  description := "Invalidates events rejected by a Rhai predicate."
  kind := .processor
  inputs := [{ type := .any, count := .exactly 1, mutates := true }]

def defaults : List (String × ParamValue) := [("predicate", .text "true")]

def scriptError (e : PredicateError) : ModuleError := .script (AppError.script e.message).message

variable [Host]

def source? (f : ScriptFilter) : Option String := f.predicate.map (·.text)

/-- Takes the predicate over from the parameters, unless it is the one in use. -/
def config (f : ScriptFilter) (p : Params) : ScriptFilter × Except ModuleError Unit :=
  let text := (Params.text? p "predicate").getD "true"
  if f.source? = some text then (f, .ok ())
  else match Predicate.compile text with
    | .error e => (f, .error (scriptError e))
    | .ok predicate => ({ f with predicate := some predicate }, .ok ())

def init (f : ScriptFilter) (p : Params) : ScriptFilter × Except ModuleError Unit :=
  ({ f with predicate := none, rejected := 0 } : ScriptFilter).config p

def sift (p : Predicate) (f : ScriptFilter) (e : Event) :
    ScriptFilter × Except PredicateError Event :=
  if !e.valid then (f, .ok e)
  else
    let (verdict, scope) := p.ask f.asked e f.scope
    let f := { f with scope, asked := f.asked + 1 }
    match verdict with
    | .error error => (f, .error error)
    | .ok true => (f, .ok e)
    | .ok false => ({ f with rejected := f.rejected + 1 }, .ok e.invalidate)

def run (f : ScriptFilter) (io : PacketIo) : ScriptFilter × PacketIo × Except ModuleError Unit :=
  match f.predicate with
  | none => (f, io, .ok ())
  | some p =>
    let (f, inputs, error) := PacketIo.attempt (sift p) f io.inputs
    match error with
    | none => (f, { io with inputs }, .ok ())
    | some e => (f, { io with inputs }, .error (scriptError e))

def exit (f : ScriptFilter) : ScriptFilter := { f with predicate := none }

end ScriptFilter
end EventFlow

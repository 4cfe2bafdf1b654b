import EventFlow.Compile
import EventFlow.Text.Quoted

/-!
What a compilation reports on its way, for a log. It is read off the results of the stages.
-/

namespace EventFlow

inductive LogLevel where
  | debug
  | info
  | warn
deriving DecidableEq

def LogLevel.label : LogLevel → String
  | debug => "DEBUG"
  | info => "INFO"
  | warn => "WARN"

structure LogLine where
  level : LogLevel
  text : String
deriving DecidableEq

namespace Compile

/-- A warning for each ignored output text, up to the first declaration that is wrong. -/
def ignoredOutputs (decls : List Decl) : List LogLine :=
  match checkIds [] decls with
  | .error _ => []
  | .ok () =>
    let checked := decls.takeWhile fun d => (Decl.check d).toBool
    (checked.filter Decl.outputIgnored).map fun d =>
      ⟨.warn, s!"Module '{d.name}': 'output' attribute ignored, outputs are fixed by the module"⟩

def unusedStreams (w : Wired) : List LogLine :=
  if w.unused.isEmpty then []
  else
    let keys := ", ".intercalate (w.unused.map StreamKey.detail)
    [⟨.debug, s!"Pruned {w.unused.length} unused stream(s): [{keys}]"⟩]

def adjusted (a : Arrangement) : List LogLine :=
  if a.order = a.flat then []
  else [⟨.debug, "Execution order adjusted to honor cross-stream constraints: " ++
    s!"{ModuleId.details a.flat} -> {ModuleId.details a.order}"⟩]

def summary (p : Plan) : String :=
  s!"Pipeline compiled: {p.stats.total} modules, {p.stats.streams} streams, " ++
    s!"{p.stats.slots} slots, {p.stats.copies} copies (gen {p.generation}"

def streamLine (s : Stream) : String :=
  let origin := if s.fromProcessor then " (processor)" else ""
  s!"Stream {s.key.label}{origin}: users {ModuleId.details s.users}"

/-- Each type once, ascending; of two outputs of one type the later counts. -/
def outputTable (r : Routes) : Table EventType (Option Slot) := Table.ofList r.outputs

def optional (text : Option String) : String :=
  match text with
  | some t => s!"Some({t})"
  | none => "None"

def routesLine (id : ModuleId) (r : Routes) : String :=
  let inputs := ", ".intercalate <| r.inputs.map fun i =>
    let copied := optional (i.copyFrom.map toString)
    s!"({i.slot}, {copied})"
  let outputs := ", ".intercalate <| (outputTable r).map fun o =>
    o.1.detail ++ ": " ++ optional (o.2.map Slot.detail)
  s!"Module {id.label}: inputs [{inputs}], outputs \x7b{outputs}\x7d"

def planLines (decls : List Decl) (a : Arrangement) (p : Plan) : List LogLine :=
  [⟨.info, summary p⟩] ++
  p.streams.list.map (fun s => ⟨.debug, streamLine s⟩) ++
  a.trees.map (fun t => ⟨.debug, s!"Dependency tree of stream {t.key.label}:\n{t.tree.text}"⟩) ++
  [⟨.debug, s!"Merged dependency tree:\n{a.merged.text}"⟩,
    ⟨.debug, s!"Global execution order: {Text.quoteList (p.order.map (name decls))}"⟩] ++
  (p.order.zip p.routes).map fun e => ⟨.debug, routesLine e.1 e.2⟩

end Compile

def compileLog (decls : List Decl) (generation : Nat) : List LogLine :=
  Compile.ignoredOutputs decls ++
  match Compile.wire decls with
  | .error _ => []
  | .ok w =>
    Compile.unusedStreams w ++
    match Compile.arrange decls w with
    | .error _ => []
    | .ok a =>
      Compile.adjusted a ++
      match Compile.finish decls generation w a with
      | .error _ => []
      | .ok p => Compile.planLines decls a p

end EventFlow

import EventFlow.Error
import EventFlow.Plan

/-!
From module declarations to a plan, in stages: `wire` checks the declarations and reads their
wiring, `arrange` builds the trees and the execution order, `route` hands out the slots. `compile`
runs them in turn, so that every error is known before a module runs.
-/

namespace EventFlow

structure Decl where
  id : ModuleId
  name : String
  info : ModuleInfo
  input : Option String := none
  output : Option String := none
deriving DecidableEq, Inhabited

namespace Decl

def kind (d : Decl) : Kind := d.info.kind

/-- A wiring text counts as given when it holds more than blanks. -/
def given (text : Option String) : Bool := text.any (!Text.isBlankText ·)

def fault {α : Type} (d : Decl) (cause : ModuleFault) : Except PipelineError α :=
  .error (.configuration d.name cause)

def checkTexts (d : Decl) : Except PipelineError Unit :=
  match d.kind, given d.input, given d.output with
  | .source, true, _ => d.fault .inputOnSource
  | .processor, false, _ => d.fault (.inputMissing .processor)
  | .sink, false, _ => d.fault (.inputMissing .sink)
  | .sink, true, true => d.fault .outputOnSink
  | _, _, hasOutput =>
    if d.info.undefinedOutput && !hasOutput then d.fault .outputMissing else .ok ()

def check (d : Decl) : Except PipelineError Unit :=
  match d.info.validate with
  | .error e => d.fault (.info e)
  | .ok () => d.checkTexts

/-- The output text of a module with fixed outputs has no effect. -/
def outputIgnored (d : Decl) : Bool := given d.output && !d.info.undefinedOutput

def outputTypes (d : Decl) : Except PipelineError (List EventType) :=
  if d.info.undefinedOutput then
    match Wiring.outputTypes (d.output.getD "").toList with
    | .error e => d.fault (.badOutput e)
    | .ok ts => .ok ts
  else .ok d.info.fixedOutputs

end Decl

namespace Compile

def countKind (decls : List Decl) (k : Kind) : Nat := decls.countP fun d => d.kind == k

def kind? (decls : List Decl) (id : ModuleId) : Option Kind :=
  (decls.find? fun d => d.id == id).map Decl.kind

def name (decls : List Decl) (id : ModuleId) : String :=
  ((decls.find? fun d => d.id == id).map Decl.name).getD "?"

/-- No identifier may be used twice; the second use is at fault. -/
def checkIds : (seen : List ModuleId) → List Decl → Except PipelineError Unit
  | _, [] => .ok ()
  | seen, d :: rest =>
    if seen.contains d.id then d.fault (.repeatedId d.id) else checkIds (d.id :: seen) rest

def checkEndpoints (decls : List Decl) : Except PipelineError Unit :=
  if countKind decls .source = 0 then .error (.configuration "pipeline" .noSource)
  else if countKind decls .sink = 0 then .error (.configuration "pipeline" .noSink)
  else .ok ()

/-! ### Wiring -/

structure Wired where
  streams : Streams
  /-- Streams without users, left out of `streams`. -/
  unused : List StreamKey
  outputs : Table ModuleId (List EventType)
  inputs : Table ModuleId InputDefinition
deriving Inhabited

def registerTypes (d : Decl) (ts : List EventType) (streams : Streams) : Streams :=
  ts.foldl (fun r t => r.register ⟨d.id, t⟩ (d.kind == .processor)) streams

def readOutputs : List Decl → Streams → Table ModuleId (List EventType) →
    Except PipelineError (Streams × Table ModuleId (List EventType))
  | [], streams, outputs => .ok (streams, outputs)
  | d :: rest, streams, outputs =>
    if d.kind = .sink then readOutputs rest streams outputs
    else match d.outputTypes with
      | .error e => .error e
      | .ok ts => readOutputs rest (registerTypes d ts streams) (Table.put d.id ts outputs)

def readInput (decls : List Decl) (d : Decl) (streams : Streams) :
    Except PipelineError (InputDefinition × Streams) :=
  match Wiring.inputDefinition (kind? decls) d.id (d.input.getD "").toList streams with
  | (.error e, _) => d.fault (.badInput e)
  | (.ok definition, streams) =>
    match definition.check d.info.inputs with
    | .error e => d.fault (.inputMismatch e)
    | .ok () => .ok (definition.markCopies d.info.inputs, streams)

def readInputs (decls : List Decl) : List Decl → Streams → Table ModuleId InputDefinition →
    Except PipelineError (Streams × Table ModuleId InputDefinition)
  | [], streams, inputs => .ok (streams, inputs)
  | d :: rest, streams, inputs =>
    if d.kind = .source then readInputs decls rest streams inputs
    else match readInput decls d streams with
      | .error e => .error e
      | .ok (definition, streams) =>
        readInputs decls rest streams (Table.put d.id definition inputs)

def wire (decls : List Decl) : Except PipelineError Wired := do
  checkIds [] decls
  decls.forM Decl.check
  checkEndpoints decls
  let (streams, outputs) ← readOutputs decls {} []
  let (streams, inputs) ← readInputs decls decls streams []
  pure { streams := streams.prune, unused := streams.unused, outputs, inputs }

/-! ### Arrangement -/

def checkSources (decls : List Decl) (streams : Streams) : Except PipelineError Unit :=
  (decls.filter fun d => d.kind = .source).forM fun d =>
    if streams.hasFrom d.id then .ok () else d.fault .sourceUnconnected

def request? (inputs : Table ModuleId InputDefinition) (id : ModuleId) (k : StreamKey) :
    Option TapRequest := do
  let definition ← Table.value? inputs id
  let requests ← Table.value? definition k.producer
  requests.find? fun r => r.type == k.type

/-- A tap after a processor needs a processor that reads and modifies the same stream. -/
def checkTap (inputs : Table ModuleId InputDefinition) (streams : Streams) (k : StreamKey)
    (m : ModuleId) : Except ModuleFault Unit :=
  if !(streams.find? k).any (fun s => s.users.contains m) then .error (.tapOutsideStream m k)
  else if (request? inputs m k).any (·.copyNeeded) then .ok ()
  else .error (.tapNotModifying m k)

def checkTaps (decls : List Decl) (inputs : Table ModuleId InputDefinition) (streams : Streams) :
    Except PipelineError Unit :=
  inputs.forM fun e =>
    (InputDefinition.requests e.2).forM fun r =>
      match r.2.tap with
      | .source => .ok ()
      | .after m =>
        match checkTap inputs streams ⟨r.1, r.2.type⟩ m with
        | .error fault => .error (.configuration (name decls e.1) fault)
        | .ok () => .ok ()

def taps (inputs : Table ModuleId InputDefinition) (s : Stream) : List (ModuleId × Tap) :=
  s.users.map fun u => (u, ((request? inputs u s.key).map (·.tap)).getD .source)

def streamTree (inputs : Table ModuleId InputDefinition) (s : Stream) :
    Except TreeError StreamTree :=
  (DependencyTree.ofStream s.key (taps inputs s)).map fun t => ⟨s.key, s.fromProcessor, t⟩

def copyCount (inputs : Table ModuleId InputDefinition) (id : ModuleId) : Nat :=
  (((Table.value? inputs id).map InputDefinition.requests).getD []).countP (·.2.copyNeeded)

def reads (inputs : Table ModuleId InputDefinition) (id : ModuleId) : List ModuleId :=
  (((Table.value? inputs id).map InputDefinition.requests).getD []).map fun r => r.2.tap.module r.1

structure Arrangement where
  trees : List StreamTree
  merged : DependencyTree
  flat : List ModuleId
  order : List ModuleId
deriving Inhabited

def unplaced (decls : List Decl) (flat : List ModuleId) : List ModuleId :=
  ModuleId.sorted ((decls.map (·.id)).filter (!flat.contains ·))

def cycle {ε α : Type} (cause : ε → CycleCause) : Except ε α → Except PipelineError α
  | .error e => .error (.cycle (cause e))
  | .ok a => .ok a

def arrange (decls : List Decl) (w : Wired) : Except PipelineError Arrangement := do
  checkSources decls w.streams
  checkTaps decls w.inputs w.streams
  cycle .users w.streams.checkUsers
  let trees ← cycle .tree (w.streams.list.mapM (streamTree w.inputs))
  let merged ← cycle .tree (DependencyTree.mergeAll trees)
  let flat := Order.flatten merged (copyCount w.inputs)
  match unplaced decls flat with
  | [] =>
    let order ← cycle .order (Order.normalize flat (reads w.inputs))
    pure { trees, merged, flat, order }
  | missing => .error (.cycle (.unplaced missing))

/-! ### Slots -/

/-- The slots handed out so far, and the slot that holds each version of each stream. -/
structure SlotTable where
  next : Nat := 0
  copies : Nat := 0
  held : List ((StreamKey × Tap) × Slot) := []
deriving Inhabited

namespace SlotTable

def slot? (t : SlotTable) (k : StreamKey) (tap : Tap) : Option Slot := t.held.lookup (k, tap)

def hold (t : SlotTable) (k : StreamKey) (tap : Tap) (s : Slot) : SlotTable :=
  { t with held := ((k, tap), s) :: t.held }

end SlotTable

/-- Whether a later user of the stream reads the same version. `users` is in execution order. -/
def neededLater (inputs : Table ModuleId InputDefinition) (users : List ModuleId) (id : ModuleId)
    (k : StreamKey) (tap : Tap) : Bool :=
  ((users.dropWhile (· != id)).drop 1).any fun u => (request? inputs u k).any (·.tap == tap)

/-- Routes one request. A module that modifies a version others still need gets a copy of it. -/
def routeInput (inputs : Table ModuleId InputDefinition) (streams : Streams) (id : ModuleId)
    (k : StreamKey) (r : TapRequest) (t : SlotTable) :
    Except PipelineError (InputRoute × SlotTable) :=
  match t.slot? k r.tap with
  | none => .error (.cycle (.readBeforeProduced id k))
  | some s =>
    if !r.copyNeeded then .ok ({ stream := k, tap := r.tap, slot := s }, t)
    else if neededLater inputs (((streams.find? k).map (·.users)).getD []) id k r.tap then
      let fresh := t.next
      .ok ({ stream := k, tap := r.tap, slot := fresh, copyFrom := some s, writable := true },
        { t with next := t.next + 1, copies := t.copies + 1 }.hold k (.after id) fresh)
    else
      .ok ({ stream := k, tap := r.tap, slot := s, writable := true }, t.hold k (.after id) s)

def routeInputs (inputs : Table ModuleId InputDefinition) (streams : Streams) (id : ModuleId) :
    List (ModuleId × TapRequest) → SlotTable → Except PipelineError (List InputRoute × SlotTable)
  | [], t => .ok ([], t)
  | (p, r) :: rest, t =>
    match routeInput inputs streams id ⟨p, r.type⟩ r t with
    | .error e => .error e
    | .ok (route, t) =>
      match routeInputs inputs streams id rest t with
      | .error e => .error e
      | .ok (routes, t) => .ok (route :: routes, t)

def routeOutputs (streams : Streams) (id : ModuleId) :
    List EventType → SlotTable → List (EventType × Option Slot) × SlotTable
  | [], t => ([], t)
  | ty :: rest, t =>
    if streams.has ⟨id, ty⟩ then
      let (outs, t') :=
        routeOutputs streams id rest ({ t with next := t.next + 1 }.hold ⟨id, ty⟩ .source t.next)
      ((ty, some t.next) :: outs, t')
    else
      let (outs, t') := routeOutputs streams id rest t
      ((ty, none) :: outs, t')

def routeModule (w : Wired) (streams : Streams) (id : ModuleId) (t : SlotTable) :
    Except PipelineError (Routes × SlotTable) :=
  let requests := ((Table.value? w.inputs id).map InputDefinition.requests).getD []
  match routeInputs w.inputs streams id requests t with
  | .error e => .error e
  | .ok (inputs, t) =>
    let (outputs, t) := routeOutputs streams id ((Table.value? w.outputs id).getD []) t
    let inputs := inputs.mergeSort fun a b => decide (a.stream ≤ b.stream)
    .ok ({ inputs, outputs }, t)

/-- One pass over the execution order that hands out slots and copies. -/
def route (w : Wired) (streams : Streams) :
    List ModuleId → SlotTable → Except PipelineError (List Routes × SlotTable)
  | [], t => .ok ([], t)
  | id :: rest, t =>
    match routeModule w streams id t with
    | .error e => .error e
    | .ok (r, t) =>
      match route w streams rest t with
      | .error e => .error e
      | .ok (rs, t) => .ok (r :: rs, t)

def tapped (inputs : Table ModuleId InputDefinition) : List ModuleId :=
  inputs.flatMap fun e => (InputDefinition.requests e.2).filterMap fun r =>
    match r.2.tap with
    | .after m => some m
    | .source => none

/-- Every processor has an output or a modified input that somebody reads. -/
def checkDeadCode (decls : List Decl) (w : Wired) (order : List ModuleId) (routes : List Routes) :
    Except PipelineError Unit :=
  (order.zip routes).forM fun e =>
    if kind? decls e.1 = some .processor ∧ !e.2.outputs.any (·.2.isSome) ∧
        !(tapped w.inputs).contains e.1 then
      .error (.deadCode (name decls e.1) e.1)
    else .ok ()

def finish (decls : List Decl) (generation : Nat) (w : Wired) (a : Arrangement) :
    Except PipelineError Plan := do
  let streams := w.streams.reorder a.order
  let (routes, slots) ← route w streams a.order {}
  checkDeadCode decls w a.order routes
  pure {
    order := a.order
    routes
    slotCount := slots.next
    streams
    inputs := w.inputs
    generation
    stats := {
      total := decls.length
      sources := countKind decls .source
      processors := countKind decls .processor
      sinks := countKind decls .sink
      streams := streams.list.length
      slots := slots.next
      copies := slots.copies
      fillers := a.merged.fillers } }

end Compile

def compile (decls : List Decl) (generation : Nat) : Except PipelineError Plan := do
  let wired ← Compile.wire decls
  let arrangement ← Compile.arrange decls wired
  Compile.finish decls generation wired arrangement

end EventFlow

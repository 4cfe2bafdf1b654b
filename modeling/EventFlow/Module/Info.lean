import EventFlow.Id

/-!
What a module declares about itself: its kind, the streams it accepts and the types it emits.
`ModuleInfo.validate` holds the rules that a declaration must meet.
-/

namespace EventFlow

inductive Kind where
  | source
  | processor
  | sink
deriving DecidableEq, Inhabited

def Kind.label : Kind → String
  | source => "SOURCE"
  | processor => "PROCESSOR"
  | sink => "SINK"

inductive InputType where
  | any
  | fixed (type : EventType)
deriving DecidableEq, Inhabited

namespace InputType

def lt : InputType → InputType → Bool
  | _, any => false
  | any, fixed _ => true
  | fixed a, fixed b => decide (a < b)

def accepts : InputType → EventType → Bool
  | any, _ => true
  | fixed a, t => a == t

end InputType

inductive InputCount where
  | any
  | exactly (n : Nat)
deriving DecidableEq, Inhabited

structure InputSpec where
  type : InputType
  count : InputCount
  /-- The module changes the packets of this input in place. -/
  mutates : Bool := false
deriving DecidableEq, Inhabited

/-- `undefined` leaves the types to the wiring. -/
inductive OutputSpec where
  | undefined
  | fixed (type : EventType)
deriving DecidableEq, Inhabited

structure ModuleInfo where
  name : String
  description : String := ""
  version : Nat := 1
  kind : Kind
  inputs : List InputSpec := []
  outputs : List OutputSpec := []
deriving DecidableEq, Inhabited

inductive InfoError where
  | sourceWithInputs
  | sourceWithoutOutputs
  | sinkWithoutInputs
  | sinkWithOutputs
  | sinkMutates
  | processorWithoutInputs
  | processorWithoutEffect
  | zeroCount
  | anyNotAlone
  | anyCount
  | inputOrder
  | undefinedNotAlone
  | outputOrder
deriving DecidableEq

def InfoError.message : InfoError → String
  | sourceWithInputs => "SOURCE module cannot declare inputs"
  | sourceWithoutOutputs => "SOURCE module must declare at least one output"
  | sinkWithoutInputs => "SINK module must declare at least one input"
  | sinkWithOutputs => "SINK module cannot declare outputs"
  | sinkMutates => "SINK module inputs must all be read-only"
  | processorWithoutInputs => "PROCESSOR module must declare at least one input"
  | processorWithoutEffect => "PROCESSOR module without outputs must modify at least one input"
  | zeroCount => "input count cannot be zero"
  | anyNotAlone => "an input of any type must be the only input"
  | anyCount => "an input of any type must accept any or exactly one stream"
  | inputOrder => "input types must be unique and in ascending order"
  | undefinedNotAlone => "an undefined output must be the only output"
  | outputOrder => "output types must be unique and in ascending order"

def chained {α : Type} (r : α → α → Bool) : List α → Bool
  | a :: b :: l => r a b && chained r (b :: l)
  | _ => true

namespace ModuleInfo

def undefinedOutput (info : ModuleInfo) : Bool := info.outputs.head? == some .undefined

def fixedOutputs (info : ModuleInfo) : List EventType :=
  info.outputs.filterMap fun
    | .fixed t => some t
    | .undefined => none

def mutates (info : ModuleInfo) : Bool := info.inputs.any (·.mutates)

def checkKind (info : ModuleInfo) : Except InfoError Unit :=
  match info.kind with
  | .source =>
    if !info.inputs.isEmpty then .error .sourceWithInputs
    else if info.outputs.isEmpty then .error .sourceWithoutOutputs
    else .ok ()
  | .sink =>
    if info.inputs.isEmpty then .error .sinkWithoutInputs
    else if !info.outputs.isEmpty then .error .sinkWithOutputs
    else if info.mutates then .error .sinkMutates
    else .ok ()
  | .processor =>
    if info.inputs.isEmpty then .error .processorWithoutInputs
    else if info.outputs.isEmpty && !info.mutates then .error .processorWithoutEffect
    else .ok ()

def checkInputs (alone : Bool) : (before : Option InputSpec) → List InputSpec → Except InfoError Unit
  | _, [] => .ok ()
  | before, s :: rest =>
    if s.count = .exactly 0 then .error .zeroCount
    else if s.type = .any ∧ !alone then .error .anyNotAlone
    else if s.type = .any ∧ s.count ≠ .any ∧ s.count ≠ .exactly 1 then .error .anyCount
    else if before.any (fun p => !p.type.lt s.type) then .error .inputOrder
    else checkInputs alone (some s) rest

def checkOutputs (info : ModuleInfo) : Except InfoError Unit :=
  if info.outputs.contains .undefined then
    if info.outputs.length = 1 then .ok () else .error .undefinedNotAlone
  else if chained (fun a b => decide (a < b)) info.fixedOutputs then .ok ()
  else .error .outputOrder

/-- The rules for a declaration, the first broken one wins. -/
def validate (info : ModuleInfo) : Except InfoError Unit := do
  info.checkKind
  checkInputs (info.inputs.length == 1) none info.inputs
  info.checkOutputs

end ModuleInfo
end EventFlow

import EventFlow.Module.Info
import EventFlow.Streams
import EventFlow.Table
import EventFlow.Text.Blank

/-!
The two wiring texts of a module. `output` lists event types: `1,2`. `input` lists blocks of
producers with the types read from them, each perhaps tapped after a processor: `1[1,2a5] 4[2]`.
-/

namespace EventFlow

structure TapRequest where
  type : EventType
  tap : Tap
  copyNeeded : Bool := false
deriving DecidableEq, Inhabited

abbrev InputDefinition := Table ModuleId (List TapRequest)

def InputDefinition.requests (d : InputDefinition) : List (ModuleId × TapRequest) :=
  d.flatMap fun e => e.2.map fun r => (e.1, r)

inductive NumberError where
  | notANumber (text : String)
  | outOfRange (text : String)
deriving DecidableEq

def NumberError.message : NumberError → String
  | notANumber t => s!"'{t}' is not a number"
  | outOfRange t => s!"{t} is out of range 0..={maxId}"

inductive WiringError where
  | emptyType (text : String)
  | badType (text : String) (cause : NumberError)
  | repeatedOutput (type : EventType)
  | malformedBlock (block : String)
  | badProducer (block : String) (cause : NumberError)
  | repeatedProducer (id : ModuleId)
  | unknownProducer (id : ModuleId)
  | badTap (entry : String) (cause : NumberError)
  | unknownTap (id : ModuleId)
  | tapNotProcessor (id : ModuleId) (kind : Kind)
  | repeatedType (type : EventType) (block : String)
  | noStream (key : StreamKey)
  | noBlocks
deriving DecidableEq

def WiringError.message : WiringError → String
  | emptyType t => s!"empty type in '{t}'"
  | badType t e => s!"type '{t}': {e.message}"
  | repeatedOutput t => s!"duplicate type {t.label}"
  | malformedBlock b => s!"malformed block '{b}'"
  | badProducer b e => s!"{e.message} in '{b}'"
  | repeatedProducer p => s!"duplicate producer block for module {p.val}"
  | unknownProducer p => s!"unknown producer module {p.val}"
  | badTap t e => s!"tap point '{t}': {e.message}"
  | unknownTap m => s!"tap point {m.val} is not a configured module"
  | tapNotProcessor m k =>
    s!"tap point does not modify this stream: module {m.val} is a {k.label}, not a PROCESSOR"
  | repeatedType t b => s!"duplicate type {t.label} in block '{b}'"
  | noStream k => s!"no stream {k.label} exists"
  | noBlocks => "no producer blocks given"

namespace Wiring
open Text

def readNumber (cs : List Char) : Except NumberError Nat :=
  if !isNumber cs then .error (.notANumber (ofChars cs))
  else if maxId < digitsValue cs then .error (.outOfRange (ofChars cs))
  else .ok (digitsValue cs)

/-! ### Output types -/

def readTypes (text : List Char) (done : List EventType) :
    List (List Char) → Except WiringError (List EventType)
  | [] => .ok done
  | part :: rest =>
    let part := trim part
    if part.isEmpty then .error (.emptyType (ofChars (trim text)))
    else match readNumber part with
      | .error e => .error (.badType (ofChars part) e)
      | .ok n =>
        if done.contains ⟨n⟩ then .error (.repeatedOutput ⟨n⟩)
        else readTypes text (done ++ [⟨n⟩]) rest

def outputTypes (text : List Char) : Except WiringError (List EventType) :=
  (readTypes text [] (pieces (· == ',') text)).map
    fun ts => ts.mergeSort (fun a b => decide (a ≤ b))

/-! ### Input blocks -/

def splitBlock (block : List Char) : Option (List Char × List Char) := do
  let (producer, rest) ← cutAt '[' block
  let inner := rest.dropLast
  if rest.getLast? ≠ some ']' ∨ inner.isEmpty ∨ inner.contains '[' ∨ inner.contains ']' then none
  else some (producer, inner)

def readBlock (block : List Char) : Except WiringError (ModuleId × List Char) :=
  match splitBlock block with
  | none => .error (.malformedBlock (ofChars block))
  | some (producer, inner) =>
    match readNumber producer with
    | .error e => .error (.badProducer (ofChars block) e)
    | .ok n => .ok (⟨n⟩, inner)

/-- Reads the tap of an entry; a tap after the producer itself is the source. -/
def readTap (kind? : ModuleId → Option Kind) (producer : ModuleId) (entry tap : List Char) :
    Except WiringError Tap :=
  match readNumber tap with
  | .error e => .error (.badTap (ofChars entry) e)
  | .ok n =>
    match kind? ⟨n⟩ with
    | none => .error (.unknownTap ⟨n⟩)
    | some .processor => .ok (if (⟨n⟩ : ModuleId) = producer then .source else .after ⟨n⟩)
    | some k => .error (.tapNotProcessor ⟨n⟩ k)

def readEntry (kind? : ModuleId → Option Kind) (producer : ModuleId) (entry : List Char) :
    Except WiringError TapRequest :=
  let (type, tap?) : List Char × Option (List Char) :=
    match cutAt 'a' entry with
    | some (type, tap) => (type, some tap)
    | none => (entry, none)
  match readNumber type with
  | .error e => .error (.badType (ofChars entry) e)
  | .ok n =>
    match tap? with
    | none => .ok { type := ⟨n⟩, tap := .source }
    | some tap => (readTap kind? producer entry tap).map fun t => { type := ⟨n⟩, tap := t }

/-- Reads the entries of a block in turn and enrols the consumer on each stream on the way.
A failure keeps the streams as they were left. -/
def readEntries (kind? : ModuleId → Option Kind) (consumer producer : ModuleId)
    (block : List Char) :
    List (List Char) → List TapRequest → Streams → Except WiringError (List TapRequest) × Streams
  | [], done, streams => (.ok done, streams)
  | entry :: rest, done, streams =>
    match readEntry kind? producer entry with
    | .error e => (.error e, streams)
    | .ok r =>
      let key : StreamKey := ⟨producer, r.type⟩
      if done.any (·.type == r.type) then (.error (.repeatedType r.type (ofChars block)), streams)
      else if !streams.has key then (.error (.noStream key), streams)
      else readEntries kind? consumer producer block rest (done ++ [r])
        (streams.addUser key consumer)

def readBlocks (kind? : ModuleId → Option Kind) (consumer : ModuleId) :
    List (List Char) → InputDefinition → Streams → Except WiringError InputDefinition × Streams
  | [], done, streams => (.ok done, streams)
  | block :: rest, done, streams =>
    match readBlock block with
    | .error e => (.error e, streams)
    | .ok (producer, inner) =>
      if Table.has done producer then (.error (.repeatedProducer producer), streams)
      else if (kind? producer).isNone then (.error (.unknownProducer producer), streams)
      else
        match readEntries kind? consumer producer block (pieces (· == ',') inner) [] streams with
        | (.error e, streams) => (.error e, streams)
        | (.ok requests, streams) =>
          readBlocks kind? consumer rest (Table.put producer requests done) streams

/-- Reads an input text and enrols the consumer on every stream that it names. `kind?` knows the
modules of the pipeline. -/
def inputDefinition (kind? : ModuleId → Option Kind) (consumer : ModuleId) (text : List Char)
    (streams : Streams) : Except WiringError InputDefinition × Streams :=
  match readBlocks kind? consumer (words text) [] streams with
  | (.ok [], streams) => (.error .noBlocks, streams)
  | r => r

end Wiring

/-! ### Input specs -/

inductive SpecError where
  | needsInput
  | needsOneInput (given : Nat)
  | typeRefused (type : EventType)
  | needsType (type : EventType)
  | needsCount (count : Nat) (type : EventType) (given : Nat)
deriving DecidableEq

def SpecError.message : SpecError → String
  | needsInput => "module requires at least one input stream"
  | needsOneInput n => s!"module requires exactly one input stream, {n} given"
  | typeRefused t => s!"module does not accept input type {t.label}"
  | needsType t => s!"module requires at least one stream of type {t.label}"
  | needsCount c t n =>
    s!"module requires exactly {c} stream(s) of type {t.label}, {n} given"

namespace InputDefinition

def types (d : InputDefinition) : List EventType := d.requests.map (·.2.type)

def leastType? (p : EventType → Bool) (ts : List EventType) : Option EventType :=
  ((ts.filter p).mergeSort (fun a b => decide (a ≤ b))).head?

def checkCount (d : InputDefinition) (s : InputSpec) : Except SpecError Unit :=
  match s.type with
  | .any => .ok ()
  | .fixed t =>
    let given := d.types.count t
    match s.count with
    | .any => if given = 0 then .error (.needsType t) else .ok ()
    | .exactly n => if given = n then .ok () else .error (.needsCount n t given)

/-- A lone spec of any type counts all requests. -/
def checkAny (d : InputDefinition) : InputCount → Except SpecError Unit
  | .any => if d.types.isEmpty then .error .needsInput else .ok ()
  | .exactly 1 => if d.types.length = 1 then .ok () else .error (.needsOneInput d.types.length)
  | .exactly _ => .ok ()

def checkFixed (d : InputDefinition) (specs : List InputSpec) : Except SpecError Unit :=
  match leastType? (fun t => !specs.any (fun s => s.type == .fixed t)) d.types with
  | some t => .error (.typeRefused t)
  | none => specs.forM d.checkCount

def check (d : InputDefinition) (specs : List InputSpec) : Except SpecError Unit :=
  match specs with
  | [⟨.any, count, _⟩] => d.checkAny count
  | _ => d.checkFixed specs

def markCopies (d : InputDefinition) (specs : List InputSpec) : InputDefinition :=
  let mutated (t : EventType) : Bool := specs.any fun s => s.mutates && s.type.accepts t
  d.map fun e => (e.1, e.2.map fun r => { r with copyNeeded := r.copyNeeded || mutated r.type })

end InputDefinition
end EventFlow

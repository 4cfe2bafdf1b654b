import EventFlow.Decimal.Text
import EventFlow.Text.Quoted

/-!
The values of the predicate language, and everything that can go wrong with a script.
-/

namespace EventFlow.Script

structure Position where
  line : Nat := 1
  column : Nat := 1
deriving DecidableEq, Inhabited

def Position.label (p : Position) : String := s!"(line {p.line}, position {p.column})"

inductive Value where
  | unit
  | bool (b : Bool)
  | int (n : Int)
  | float (f : Float)
  | char (c : Char)
  | string (s : String)
  | array (items : List Value)
deriving Inhabited

namespace Value

def typeName : Value → String
  | unit => "()"
  | bool _ => "bool"
  | int _ => "i64"
  | float _ => "f64"
  | char _ => "char"
  | string _ => "string"
  | array _ => "array"

def argumentType : Value → String
  | string _ => "&str | ImmutableString | String"
  | v => v.typeName

/-- Whole numbers keep a zero behind the point; very small and very large ones get an exponent. -/
def floatText (f : Float) : String :=
  let size := f.abs
  if Decimal.isNaN f then "NaN"
  else if Decimal.isInfinite f then Decimal.signed f "inf"
  else if Decimal.isZero f then "0.0"
  else if 1e13 < size ∨ size < 1e-7 then
    let (ds, point) := Decimal.parts f .up
    Decimal.signed f (Decimal.scientific ds point)
  else if Decimal.isWhole f then Decimal.plain f ++ ".0"
  else Decimal.plain f

def charText (c : Char) : String :=
  let inner := if c = '\'' then "\\'" else if c = '"' then "\"" else Text.quoteChar c
  "'" ++ inner ++ "'"

mutual

def detail : Value → String
  | unit => "()"
  | bool b => if b then "true" else "false"
  | int n => toString n
  | float f => floatText f
  | char c => charText c
  | string s => Text.quote s
  | array items => "[" ++ details items ++ "]"

def details : List Value → String
  | [] => ""
  | [v] => v.detail
  | v :: w :: vs => v.detail ++ ", " ++ details (w :: vs)

end

def display : Value → String
  | unit => ""
  | char c => c.toString
  | string s => s
  | v => v.detail

end Value

inductive Limited where
  | string
  | array
deriving DecidableEq

def Limited.label : Limited → String
  | string => "Length of string"
  | array => "Size of array/BLOB"

inductive Fault where
  | unknownVariable (name : String)
  | unknownFunction (name : String) (arguments : List String)
  | wrongType (given expected : String)
  | constant (name : String)
  | overflow (operation : String) (text : String)
  | divisionByZero (text : String)
  | remainder (text : String)
  | exponentTooLarge (text : String)
  | negativeExponent (text : String)
  | thrown (text : String)
  | tooManyOperations
  | tooManyCalls
  | tooLarge (what : Limited)
deriving DecidableEq

namespace Fault

def message : Fault → String
  | unknownVariable n => s!"Variable not found: {n}"
  | unknownFunction n ts => s!"Function not found: {n} (" ++ ", ".intercalate ts ++ ")"
  | wrongType g e => s!"Data type incorrect: {g} (expecting {e})"
  | constant n => s!"Cannot modify constant: {n}"
  | overflow o t => s!"{o} overflow: {t}"
  | divisionByZero t => s!"Division by zero: {t}"
  | remainder t => s!"Modulo division by zero or overflow: {t}"
  | exponentTooLarge t => s!"Integer raised to too large an index: {t}"
  | negativeExponent t => s!"Integer raised to a negative index: {t}"
  | thrown t => if t.isEmpty then "Runtime error" else s!"Runtime error: {t}"
  | tooManyOperations => "Too many operations"
  | tooManyCalls => "Stack overflow"
  | tooLarge w => s!"{w.label} exceeds maximum limit"

/-- A broken limit ends a script as a whole and does not say in which calls. -/
def isLimit : Fault → Bool
  | tooManyOperations => true
  | tooManyCalls => true
  | tooLarge _ => true
  | _ => false

end Fault

/-! ### Sizes -/

namespace Value

def stringLimit : Nat := 1000

def arrayLimit : Nat := 1000

/-- What a value takes up: the items of arrays at every depth, and the bytes of texts. -/
structure Size where
  items : Nat := 0
  bytes : Nat := 0
deriving DecidableEq, Inhabited

namespace Size

def add (a b : Size) : Size := ⟨a.items + b.items, a.bytes + b.bytes⟩

def fault? (s : Size) : Option Fault :=
  if stringLimit < s.bytes then some (.tooLarge .string)
  else if arrayLimit < s.items then some (.tooLarge .array)
  else none

end Size

mutual

def size : Value → Size
  | string s => { bytes := s.utf8ByteSize }
  | array items => sizes items
  | _ => {}

/-- Each item counts as one beside what it holds. -/
def sizes : List Value → Size
  | [] => {}
  | v :: vs => (v.size.add { items := 1 }).add (sizes vs)

end

def bounded (v : Value) : Except Fault Value :=
  match v.size.fault? with
  | some f => .error f
  | none => .ok v

end Value

/-! ### Errors -/

inductive Error where
  | fault (cause : Fault) (pos : Position)
  | inCall (name : String) (cause : Error) (pos : Position)
deriving DecidableEq

namespace Error

def message : Error → String
  | fault c p => s!"{c.message} {p.label}"
  | inCall n e p => s!"{e.message}\nin call to function '{n}' {p.label}"

def atCall (name : String) (p : Position) : Error → Error
  | fault c q => if c.isLimit then fault c p else inCall name (fault c q) p
  | e => inCall name e p

end Error
end EventFlow.Script

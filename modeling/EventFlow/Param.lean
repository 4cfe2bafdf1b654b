import EventFlow.Decimal.Text
import EventFlow.Table
import EventFlow.Text.Quoted

/-!
The parameters of a module: named values of four types.
-/

namespace EventFlow

inductive ParamValue where
  | bool (b : Bool)
  | int (n : Int)
  | float (f : Float)
  | text (s : String)
deriving BEq, Inhabited

abbrev Params := Table String ParamValue

namespace ParamValue

def bool? : ParamValue → Option Bool
  | bool b => some b
  | _ => none

def int? : ParamValue → Option Int
  | int n => some n
  | _ => none

def float? : ParamValue → Option Float
  | float f => some f
  | int n => some (Decimal.ofInt n)
  | _ => none

def text? : ParamValue → Option String
  | text s => some s
  | _ => none

def typeName : ParamValue → String
  | bool _ => "bool"
  | int _ => "int"
  | float _ => "float"
  | text _ => "string"

def display : ParamValue → String
  | bool b => if b then "true" else "false"
  | int n => toString n
  | float f => Decimal.plain f
  | text s => Text.quote s

end ParamValue

namespace Params

/-- The value of a parameter of one type; a missing one and one of another type count the same. -/
def int (p : Params) (key : String) (default : Int) : Int :=
  ((Table.value? p key).bind ParamValue.int?).getD default

def float (p : Params) (key : String) (default : Float) : Float :=
  ((Table.value? p key).bind ParamValue.float?).getD default

def bool (p : Params) (key : String) (default : Bool) : Bool :=
  ((Table.value? p key).bind ParamValue.bool?).getD default

def text? (p : Params) (key : String) : Option String :=
  (Table.value? p key).bind ParamValue.text?

def withDefaults (p : Params) (defaults : List (String × ParamValue)) : Params :=
  defaults.foldl (fun q d => Table.putNew d.1 d.2 q) p

def withValues (p values : Params) : Params := values.foldl (fun q e => Table.put e.1 e.2 q) p

end Params
end EventFlow

import EventFlow.Script.Syntax

/-!
The operators and functions of scripts. Integers have 64 bits and never wrap; an integer next to a
float widens.
-/

namespace EventFlow.Script

namespace Value

def wordMin : Int := -9223372036854775808
def wordMax : Int := 9223372036854775807

def inWord (n : Int) : Bool := decide (wordMin ≤ n ∧ n ≤ wordMax)

end Value

namespace Operator

def isComparison : Operator → Bool
  | add | subtract | multiply | divide | remainder | power => false
  | equal | notEqual | less | lessEqual | greater | greaterEqual => true

def compare (o : Operator) (less equal greater : Bool) : Bool :=
  match o with
  | .equal => equal
  | .notEqual => !equal
  | .less => less
  | .lessEqual => less || equal
  | .greater => greater
  | .greaterEqual => greater || equal
  | _ => false

def compareApart (o : Operator) : Bool := o == .notEqual

def compareInts (o : Operator) (a b : Int) : Bool :=
  o.compare (decide (a < b)) (decide (a = b)) (decide (b < a))

def compareFloats (o : Operator) (a b : Float) : Bool := o.compare (a < b) (a == b) (b < a)

def compareTexts (o : Operator) (a b : String) : Bool :=
  o.compare (decide (a < b)) (a == b) (decide (b < a))

def compareBools (o : Operator) (a b : Bool) : Bool := o.compare (!a && b) (a == b) (a && !b)

def word (operation text : String) (n : Int) : Except Fault Value :=
  if Value.inWord n then .ok (.int n) else .error (.overflow operation text)

def exponentLimit : Int := 4294967295

def intPower (a b : Int) (text : String) : Except Fault Value :=
  if exponentLimit < b then .error (.exponentTooLarge text)
  else if b < 0 then .error (.negativeExponent text)
  else if a = 0 ∨ a = 1 then .ok (.int (if b = 0 then 1 else a))
  else if a = -1 then .ok (.int (if b % 2 = 0 then 1 else -1))
  else if 64 < b then .error (.overflow "Power" text)
  else word "Power" text (Int.pow a b.toNat)

def applyInts (o : Operator) (a b : Int) : Except Fault Value :=
  let text := s!"{a} {o.label} {b}"
  match o with
  | .add => word "Addition" text (a + b)
  | .subtract => word "Subtraction" text (a - b)
  | .multiply => word "Multiplication" text (a * b)
  | .divide =>
    if b = 0 then .error (.divisionByZero text) else word "Division" text (a.tdiv b)
  | .remainder =>
    if b = 0 ∨ (a = Value.wordMin ∧ b = -1) then .error (.remainder text) else .ok (.int (a.tmod b))
  | .power => intPower a b text
  | _ => .ok (.bool (o.compareInts a b))

def floatRemainder (a b : Float) : Float :=
  if Decimal.isNaN a || Decimal.isNaN b || Decimal.isInfinite a || Decimal.isZero b then 0.0 / 0.0
  else if Decimal.isInfinite b || Decimal.isZero a then a
  else
    let m := Decimal.Binary.ofBits (a.toBits.toNat % Nat.pow 2 63)
    let n := Decimal.Binary.ofBits (b.toBits.toNat % Nat.pow 2 63)
    let e := min m.exponent n.exponent
    let rest := (m.mantissa * Nat.pow 2 (m.exponent - e).toNat) %
      (n.mantissa * Nat.pow 2 (n.exponent - e).toNat)
    let size := (Float.ofNat rest).scaleB e
    if Decimal.isNegative a then -size else size

def applyFloats (o : Operator) (a b : Float) : Value :=
  match o with
  | .add => .float (a + b)
  | .subtract => .float (a - b)
  | .multiply => .float (a * b)
  | .divide => .float (a / b)
  | .remainder => .float (floatRemainder a b)
  | .power => .float (Float.pow a b)
  | _ => .bool (o.compareFloats a b)

def bounded (s : String) : Except Fault Value := (Value.string s).bounded

def applyTexts (o : Operator) (a b : String) : Option (Except Fault Value) :=
  match o with
  | .add => some (bounded (a ++ b))
  | .subtract => some (.ok (.string (a.replace b "")))
  | .multiply | .divide | .remainder | .power => none
  | _ => some (.ok (.bool (o.compareTexts a b)))

def applyChars (o : Operator) (a b : Char) : Option (Except Fault Value) :=
  match o with
  | .add => some (.ok (.string (a.toString ++ b.toString)))
  | .subtract | .multiply | .divide | .remainder | .power => none
  | _ => some (.ok (.bool (o.compareTexts a.toString b.toString)))

/-- Anything next to a text is appended to it. -/
def append (o : Operator) (a b : Value) : Option (Except Fault Value) :=
  match o, a, b with
  | .add, .string s, v => some (bounded (s ++ v.display))
  | .add, v, .string s => some (bounded (v.display ++ s))
  | _, _, _ => none

/-- The result of an operator; `none` when it does not take such values. -/
def apply (o : Operator) (a b : Value) : Option (Except Fault Value) :=
  match a, b with
  | .int m, .int n => some (o.applyInts m n)
  | .float f, .float g => some (.ok (o.applyFloats f g))
  | .int m, .float g => some (.ok (o.applyFloats (Decimal.ofInt m) g))
  | .float f, .int n => some (.ok (o.applyFloats f (Decimal.ofInt n)))
  | .bool x, .bool y => if o.isComparison then some (.ok (.bool (o.compareBools x y))) else none
  | .unit, .unit => if o.isComparison then some (.ok (.bool (o.compare false true false))) else none
  | .char c, .char d => o.applyChars c d
  | .string s, .string t => o.applyTexts s t
  | .string s, .char c => o.applyTexts s c.toString
  | .char c, .string s => if o = .subtract then none else o.applyTexts c.toString s
  | .array _, .array _ => none
  | _, _ => if o.isComparison then some (.ok (.bool o.compareApart)) else o.append a b

end Operator

namespace Value

mutual

def same : Value → Value → Bool
  | array xs, array ys => sameAll xs ys
  | unit, unit => true
  | a, b =>
    match Operator.apply .equal a b with
    | some (.ok (.bool x)) => x
    | _ => false

def sameAll : List Value → List Value → Bool
  | [], [] => true
  | x :: xs, y :: ys => same x y && sameAll xs ys
  | _, _ => false

end

end Value

namespace Native

def unknown (name : String) (arguments : List Value) : Fault :=
  .unknownFunction name (arguments.map Value.argumentType)

def negation (n : Int) : Except Fault Value :=
  if n = Value.wordMin then .error (.overflow "Negation" s!"-{n}") else .ok (.int (-n))

def negate : Value → Option (Except Fault Value)
  | .int n => some (negation n)
  | .float f => some (.ok (.float (-f)))
  | _ => none

def sign (n : Int) : Int := if n < 0 then -1 else if n = 0 then 0 else 1

def inFirstHalf (time period : Int) : Bool :=
  if period ≤ 0 then true else decide (time % period < period / 2)

def helper : String → List Value → Option Value
  | "in_rect", [.int x, .int y, .int x0, .int y0, .int x1, .int y1] =>
    some (.bool (decide (x0 ≤ x ∧ x ≤ x1 ∧ y0 ≤ y ∧ y ≤ y1)))
  | "between", [.int v, .int lo, .int hi] => some (.bool (decide (lo ≤ v ∧ v ≤ hi)))
  | "between", [.float v, .float lo, .float hi] => some (.bool (lo ≤ v && v ≤ hi))
  | "every", [.int time, .int period] => some (.bool (inFirstHalf time period))
  | _, _ => none

def general : String → List Value → Option (Except Fault Value)
  | "+", [.int n] => some (.ok (.int n))
  | "+", [.float f] => some (.ok (.float f))
  | "abs", [.int n] => some (if n < 0 then negation n else .ok (.int n))
  | "abs", [.float f] => some (.ok (.float f.abs))
  | "sign", [.int n] => some (.ok (.int (sign n)))
  | "max", [.int a, .int b] => some (.ok (.int (max a b)))
  | "min", [.int a, .int b] => some (.ok (.int (min a b)))
  | "max", [.float a, .float b] => some (.ok (.float (if a < b then b else a)))
  | "min", [.float a, .float b] => some (.ok (.float (if b < a then b else a)))
  | "is_odd", [.int n] => some (.ok (.bool (decide (n % 2 = 1))))
  | "is_even", [.int n] => some (.ok (.bool (decide (n % 2 = 0))))
  | "is_zero", [.int n] => some (.ok (.bool (decide (n = 0))))
  | "is_zero", [.float f] => some (.ok (.bool (f == 0)))
  | "to_float", [.int n] => some (.ok (.float (Decimal.ofInt n)))
  | "sqrt", [.float f] => some (.ok (.float f.sqrt))
  | "floor", [.float f] => some (.ok (.float f.floor))
  | "ceiling", [.float f] => some (.ok (.float f.ceil))
  | "round", [.float f] => some (.ok (.float f.round))
  | "len", [.string s] => some (.ok (.int s.length))
  | "len", [.array vs] => some (.ok (.int vs.length))
  | "is_empty", [.string s] => some (.ok (.bool s.isEmpty))
  | "is_empty", [.array vs] => some (.ok (.bool vs.isEmpty))
  | "to_string", [v] => some (.ok (.string v.display))
  | "type_of", [v] => some (.ok (.string v.typeName))
  | "print", [_] => some (.ok .unit)
  | "debug", [_] => some (.ok .unit)
  | _, _ => none

def call (name : String) (arguments : List Value) : Except Fault Value :=
  match helper name arguments with
  | some v => .ok v
  | none => (general name arguments).getD (.error (unknown name arguments))

def operate (o : Operator) (a b : Value) : Except Fault Value :=
  match o, a, b with
  | .equal, .array _, .array _ => .ok (.bool (a.same b))
  | .notEqual, .array _, .array _ => .ok (.bool (!a.same b))
  | .add, .array xs, .array ys => (Value.array (xs ++ ys)).bounded
  | _, _, _ => (o.apply a b).getD (.error (unknown o.label [a, b]))

/-- The new value of a variable. Anything that is added to an array becomes its last item, and another
array its last items. -/
def update (o : Option Operator) (old v : Value) : Except Fault Value :=
  match o, old, v with
  | none, _, v => .ok v
  | some .add, .array xs, .array ys => .ok (.array (xs ++ ys))
  | some .add, .array xs, v => .ok (.array (xs ++ [v]))
  | some o, old, v => operate o old v

end Native
end EventFlow.Script

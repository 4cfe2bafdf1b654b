import EventFlow.Word

/-!
What the modules find under them: arithmetic in 64 bits, memory for their tables, and an engine that
reads scripts. How the program was built and what it was linked with decides about all three, so
nothing is known of them here.
-/

namespace EventFlow

/-! ### Faults -/

inductive Operation where
  | add
  | subtract
  | multiply
  | divide
deriving DecidableEq, Inhabited

def Operation.label : Operation → String
  | add => "add"
  | subtract => "subtract"
  | multiply => "multiply"
  | divide => "divide"

inductive Fault where
  | overflow (operation : Operation)
  | outside (length place : Nat)
  | divisionByZero
  | remainderByZero
deriving DecidableEq, Inhabited

def Fault.text : Fault → String
  | overflow o => s!"attempt to {o.label} with overflow"
  | outside n i => s!"index out of bounds: the len is {n} but the index is {i}"
  | divisionByZero => "attempt to divide by zero"
  | remainderByZero => "attempt to calculate the remainder with a divisor of zero"

/-- What becomes of a result that does not have 64 bits. -/
inductive Overflow where
  | breaksOff
  | wraps
deriving DecidableEq, Inhabited

/-! ### Scripts -/

inductive ScriptValue where
  | int (n : Int)
  | bool (b : Bool)
deriving DecidableEq, Inhabited

inductive ScriptAnswer where
  | bool (b : Bool)
  | other (typeName : String)
deriving DecidableEq, Inhabited

/-- An engine that compiles scripts and evaluates them in scopes. Errors are texts. An evaluation may
also depend on the moment at which it is asked for, and moments are told apart by their numbers. -/
structure ScriptEngine where
  Ast : Type
  Scope : Type
  empty : Scope
  clear : Scope → Scope
  push : Scope → String → ScriptValue → Scope
  compile : String → Except String Ast
  eval : (moment : Nat) → Ast → Scope → Except String ScriptAnswer × Scope

/-! ### Hosts -/

class Host where
  overflow : Overflow
  /-- There is memory for a table. -/
  reserves : (entries bytesEach : Nat) → Bool
  scripts : ScriptEngine

namespace Word

/-- The quotient of signed numbers, cut towards zero. It never wraps. -/
def quotient (a b : Int) : Except Fault Int :=
  if b = 0 then .error .divisionByZero
  else if Signed (a.tdiv b) then .ok (a.tdiv b)
  else .error (.overflow .divide)

variable [Host]

def unsigned (o : Operation) (n : Nat) : Except Fault Nat :=
  if n < limit then .ok n
  else match Host.overflow with
    | .breaksOff => .error (.overflow o)
    | .wraps => .ok (n % limit)

def signed (o : Operation) (z : Int) : Except Fault Int :=
  if Signed z then .ok z
  else match Host.overflow with
    | .breaksOff => .error (.overflow o)
    | .wraps => .ok (z.bmod limit)

end Word
end EventFlow

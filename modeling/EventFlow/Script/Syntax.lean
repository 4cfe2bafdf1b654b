import EventFlow.Script.Value

/-!
The syntax of scripts: expressions, statements and functions, each with its place in the source.
-/

namespace EventFlow.Script

inductive Operator where
  | add
  | subtract
  | multiply
  | divide
  | remainder
  | power
  | equal
  | notEqual
  | less
  | lessEqual
  | greater
  | greaterEqual
deriving DecidableEq, Inhabited

def Operator.label : Operator → String
  | add => "+"
  | subtract => "-"
  | multiply => "*"
  | divide => "/"
  | remainder => "%"
  | power => "**"
  | equal => "=="
  | notEqual => "!="
  | less => "<"
  | lessEqual => "<="
  | greater => ">"
  | greaterEqual => ">="

mutual

inductive Expr where
  | literal (v : Value) (pos : Position)
  | ident (name : String) (pos : Position)
  | array (items : List Expr) (pos : Position)
  | binary (o : Operator) (left right : Expr) (pos : Position)
  | negate (e : Expr) (pos : Position)
  | not (e : Expr) (pos : Position)
  | both (left right : Expr) (pos : Position)
  | either (left right : Expr) (pos : Position)
  | call (name : String) (arguments : List Expr) (pos : Position)
  | block (body : List Stmt) (pos : Position)

inductive Stmt where
  | noop (pos : Position)
  | expr (e : Expr)
  | define (name : String) (constant : Bool) (value : Expr) (pos : Position)
  | assign (name : String) (target : Position) (o : Option Operator) (value : Expr) (pos : Position)
  | ifElse (condition : Expr) (yes no : List Stmt) (pos : Position)
  /-- Without a condition the loop ends only from within. -/
  | loop (condition : Option Expr) (body : List Stmt) (bodyPos pos : Position)
  | block (body : List Stmt) (pos : Position)
  | leave (value : Option Expr) (pos : Position)
  | again (pos : Position)
  | finish (value : Option Expr) (pos : Position)
  | throw (value : Option Expr) (pos : Position)

end

instance : Inhabited Expr := ⟨.literal .unit {}⟩
instance : Inhabited Stmt := ⟨.noop {}⟩

namespace Expr

def position : Expr → Position
  | literal _ p => p
  | ident _ p => p
  | array _ p => p
  | binary _ _ _ p => p
  | negate _ p => p
  | not _ p => p
  | both _ _ p => p
  | either _ _ p => p
  | call _ _ p => p
  | block _ p => p

def isNoCondition : Expr → Bool
  | literal (.bool _) _ => false
  | literal _ _ => true
  | array _ _ => true
  | _ => false

end Expr

def Stmt.position : Stmt → Position
  | .noop p => p
  | .expr e => e.position
  | .define _ _ _ p => p
  | .assign _ _ _ _ p => p
  | .ifElse _ _ _ p => p
  | .loop _ _ _ p => p
  | .block _ p => p
  | .leave _ p => p
  | .again p => p
  | .finish _ p => p
  | .throw _ p => p

structure Function where
  name : String
  parameters : List String
  body : List Stmt
deriving Inhabited

structure Program where
  body : List Stmt := []
  functions : List Function := []
deriving Inhabited

end EventFlow.Script

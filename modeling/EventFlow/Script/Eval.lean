import EventFlow.Script.Simplify

/-!
Running scripts. A script may perform `operationLimit` operations and nest `callLimit` calls of its
own functions; both limits are part of its meaning.
-/

namespace EventFlow.Script

structure Binding where
  name : String
  value : Value
  constant : Bool := false
deriving Inhabited

structure Machine where
  operations : Nat := 0
  scope : List Binding := []
deriving Inhabited

inductive Stop where
  | error (e : Error)
  | finished (v : Value)
  | left (v : Value)
  | again
deriving Inhabited

abbrev Eval (α : Type) := ExceptT Stop (StateM Machine) α

namespace Eval

def operationLimit : Nat := 10000

def callLimit : Nat := 16

def fail {α : Type} (f : Fault) (p : Position) : Eval α := throw (.error (.fault f p))

def count (p : Position) : Eval Unit := do
  modify fun m => { m with operations := m.operations + 1 }
  if operationLimit < (← get).operations then fail .tooManyOperations p

def lookup (n : String) (p : Position) : Eval Value := do
  match (← get).scope.find? fun b => b.name == n with
  | some b => pure b.value
  | none => fail (.unknownVariable n) p

def define (b : Binding) : Eval Unit := modify fun m => { m with scope := b :: m.scope }

def update (n : String) (v : Value) : List Binding → List Binding
  | [] => []
  | b :: bs => if b.name = n then { b with value := v } :: bs else b :: update n v bs

def assign (n : String) (v : Value) : Eval Unit :=
  modify fun m => { m with scope := update n v m.scope }

def inScope {α : Type} (e : Eval α) : Eval α := do
  let depth := (← get).scope.length
  try
    e
  finally
    modify fun m => { m with scope := m.scope.drop (m.scope.length - depth) }

def isolated {α : Type} (scope : List Binding) (e : Eval α) : Eval α := do
  let outer := (← get).scope
  modify fun m => { m with scope }
  try
    e
  finally
    modify fun m => { m with scope := outer }

def lift (r : Except Fault Value) (p : Position) : Eval Value :=
  match r with
  | .ok v => pure v
  | .error f => fail f p

def asBool (v : Value) (p : Position) : Eval Bool :=
  match v with
  | .bool b => pure b
  | v => fail (.wrongType v.typeName "bool") p

def returned (name : String) (p : Position) (body : Eval Value) : Eval Value := do
  try
    body
  catch
    | .finished v => pure v
    | .error e => throw (.error (e.atCall name p))
    | s => throw s

def round (body : Eval Value) : Eval (Option Value) := do
  try
    let _ ← body
    pure none
  catch
    | .again => pure none
    | .left v => pure (some v)
    | s => throw s

def checkSize (s : Value.Size) (p : Position) : Eval Unit :=
  match s.fault? with
  | some f => fail f p
  | none => pure ()

/-- Calls count one operation less when they stand as statements. -/
def isCall : Expr → Bool
  | .call .. => true
  | .binary .. => true
  | .negate .. => true
  | .not .. => true
  | _ => false

def operand? : Expr → Option (String × Position)
  | .ident n p => some (n, p)
  | _ => none

mutual

/-- Evaluates an expression. `level` counts the calls around it; the first argument bounds the depth
of the evaluation, which the limit on operations keeps below it. -/
def expr (functions : List Function) : Nat → (level : Nat) → Expr → Eval Value
  | 0, _, e => fail .tooManyOperations e.position
  | fuel + 1, level, e => do
    count e.position
    counted functions fuel level e

def counted (functions : List Function) : Nat → (level : Nat) → Expr → Eval Value
  | 0, _, e => fail .tooManyOperations e.position
  | fuel + 1, level, e =>
    match e with
    | .literal v _ => pure v
    | .ident n p => lookup n p
    | .array es _ => do pure (.array (← items functions fuel level {} es))
    | .binary o l r p => do
      let a ← expr functions fuel level l
      let b ← expr functions fuel level r
      lift (Native.operate o a b) p
    | .negate e p => do
      let vs ← arguments functions fuel level [e]
      count p
      match vs with
      | [v] => lift ((Native.negate v).getD (.error (Native.unknown "-" [v]))) p
      | vs => fail (Native.unknown "-" vs) p
    | .not e p => do
      match ← expr functions fuel level e with
      | .bool b => pure (.bool !b)
      | v => fail (Native.unknown "!" [v]) p
    | .both l r _ => do
      if ← asBool (← expr functions fuel level l) l.position then
        let b ← asBool (← expr functions fuel level r) r.position
        pure (.bool b)
      else pure (.bool false)
    | .either l r _ => do
      if ← asBool (← expr functions fuel level l) l.position then pure (.bool true)
      else
        let b ← asBool (← expr functions fuel level r) r.position
        pure (.bool b)
    | .call n es p => do
      let vs ← arguments functions fuel level es
      count p
      match functions.find? fun f => f.name == n && f.parameters.length == vs.length with
      | none => lift (Native.call n vs) p
      | some f =>
        if callLimit ≤ level then fail .tooManyCalls p
        let scope := ((f.parameters.zip vs).map fun b => { name := b.1, value := b.2 }).reverse
        returned n p (isolated scope (stmts functions fuel (level + 1) f.body))
    | .block body _ => block functions fuel level body

def exprs (functions : List Function) : Nat → (level : Nat) → List Expr → Eval (List Value)
  | 0, _, _ => fail .tooManyOperations {}
  | fuel + 1, level, es =>
    match es with
    | [] => pure []
    | e :: es => do
      let v ← expr functions fuel level e
      let vs ← exprs functions fuel level es
      pure (v :: vs)

def items (functions : List Function) :
    Nat → (level : Nat) → Value.Size → List Expr → Eval (List Value)
  | 0, _, _, _ => fail .tooManyOperations {}
  | fuel + 1, level, size, es =>
    match es with
    | [] => pure []
    | e :: es => do
      let v ← expr functions fuel level e
      let size := size.add (Value.sizes [v])
      checkSize size e.position
      let vs ← items functions fuel level size es
      pure (v :: vs)

/-- Evaluates arguments; a variable in the first place is looked up last. -/
def arguments (functions : List Function) : Nat → (level : Nat) → List Expr → Eval (List Value)
  | 0, _, _ => fail .tooManyOperations {}
  | fuel + 1, level, es =>
    match es with
    | [] => pure []
    | e :: rest =>
      match operand? e with
      | some (n, p) => do
        let vs ← exprs functions fuel level rest
        let v ← lookup n p
        pure (v :: vs)
      | none => exprs functions fuel level es

def stmts (functions : List Function) : Nat → (level : Nat) → List Stmt → Eval Value
  | 0, _, _ => fail .tooManyOperations {}
  | fuel + 1, level, ss =>
    match ss with
    | [] => pure .unit
    | [s] => stmt functions fuel level s
    | s :: ss => do
      let _ ← stmt functions fuel level s
      stmts functions fuel level ss

def block (functions : List Function) : Nat → (level : Nat) → List Stmt → Eval Value
  | 0, _, _ => fail .tooManyOperations {}
  | fuel + 1, level, ss => inScope (stmts functions fuel level ss)

def stmt (functions : List Function) : Nat → (level : Nat) → Stmt → Eval Value
  | 0, _, s => fail .tooManyOperations s.position
  | fuel + 1, level, s => do
    count s.position
    match s with
    | .noop _ => pure .unit
    | .expr e =>
      if isCall e then counted functions fuel level e else expr functions fuel level e
    | .define name constant e _ => do
      let value ← expr functions fuel level e
      define { name, value, constant }
      pure .unit
    | .assign n target o e p => do
      let value ← expr functions fuel level e
      let old ← lookup n target
      count target
      if (← get).scope.any fun b => b.name == n && b.constant then fail (.constant n) target
      let value ← lift (Native.update o old value) p
      if o.isSome then checkSize value.size target
      assign n value
      pure .unit
    | .ifElse c yes no _ => do
      if ← asBool (← expr functions fuel level c) c.position then block functions fuel level yes
      else block functions fuel level no
    | .loop c body q _ => loop functions fuel level c body q
    | .block body _ => block functions fuel level body
    | .leave none _ => throw (.left .unit)
    | .leave (some e) _ => do throw (.left (← expr functions fuel level e))
    | .again _ => throw .again
    | .finish none _ => throw (.finished .unit)
    | .finish (some e) _ => do throw (.finished (← expr functions fuel level e))
    | .throw none p => fail (.thrown "") p
    | .throw (some e) p => do
      let v ← expr functions fuel level e
      fail (.thrown v.display) p

def loop (functions : List Function) :
    Nat → (level : Nat) → Option Expr → List Stmt → Position → Eval Value
  | 0, _, _, _, p => fail .tooManyOperations p
  | fuel + 1, level, c, body, p => do
    let goOn ← match c with
      | none =>
        if body.isEmpty then count p
        pure true
      | some c => asBool (← expr functions fuel level c) c.position
    if goOn then
      match ← round (block functions fuel level body) with
      | some v => pure v
      | none => loop functions fuel level c body p
    else pure .unit

end

/-- Deeper than any evaluation within the limit on operations gets. -/
def depthBound : Nat := 10 * operationLimit + 1000

def answer : Except Stop Value → Except Error Value
  | .ok v => .ok v
  | .error (.finished v) => .ok v
  | .error (.left v) => .ok v
  | .error .again => .ok .unit
  | .error (.error e) => .error e

def program (p : Program) (scope : List Binding) : Except Error Value × List Binding :=
  let (r, machine) := (stmts p.functions depthBound 0 p.body).run.run { scope }
  (answer r, machine.scope)

end Eval
end EventFlow.Script

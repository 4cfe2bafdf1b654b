import EventFlow.Script.Operators
import EventFlow.Script.Token

/-!
Reading scripts. Operators bind by `precedence`; only `**` binds to the right. Every reader takes
the tokens left and answers with those left after it; the first argument of the recursive ones
exceeds the number of calls that the tokens can take.
-/

namespace EventFlow.Script

abbrev Tokens := List Placed

inductive Connective where
  | operator (o : Operator)
  | both
  | either
deriving DecidableEq

namespace Connective

def precedence : Connective → Nat
  | either => 30
  | both => 60
  | operator o =>
    match o with
    | .equal | .notEqual => 90
    | .less | .lessEqual | .greater | .greaterEqual => 130
    | .add | .subtract => 150
    | .multiply | .divide | .remainder => 180
    | .power => 190

def bindsRight : Connective → Bool
  | operator .power => true
  | _ => false

def ofSymbol? : String → Option Connective
  | "||" => some either
  | "&&" => some both
  | "==" => some (operator .equal)
  | "!=" => some (operator .notEqual)
  | "<" => some (operator .less)
  | "<=" => some (operator .lessEqual)
  | ">" => some (operator .greater)
  | ">=" => some (operator .greaterEqual)
  | "+" => some (operator .add)
  | "-" => some (operator .subtract)
  | "*" => some (operator .multiply)
  | "/" => some (operator .divide)
  | "%" => some (operator .remainder)
  | "**" => some (operator .power)
  | _ => none

def next? : Tokens → Option (Connective × Position × Tokens)
  | ⟨.symbol s, p⟩ :: rest => (ofSymbol? s).map fun c => (c, p, rest)
  | _ => none

/-- Whether the next token is a connective that takes the operand before it away from one with the
given precedence. -/
def takesFrom (precedence : Nat) (bindsRight : Bool) (ts : Tokens) : Bool :=
  match next? ts with
  | none => false
  | some (c, _, _) => precedence < c.precedence || (bindsRight && precedence == c.precedence)

/-- Both sides of `&&` and of `||` must be able to be true or false. -/
def build (c : Connective) (left right : Expr) (p : Position) : Option Expr :=
  match c with
  | operator o => some (.binary o left right p)
  | both => if left.isNoCondition || right.isNoCondition then none else some (.both left right p)
  | either => if left.isNoCondition || right.isNoCondition then none else some (.either left right p)

end Connective

namespace Parser

def expect (s : String) : Tokens → Option Tokens
  | ⟨.symbol t, _⟩ :: rest => if s = t then some rest else none
  | _ => none

def depthLimit : Nat := 64

def assignment? : String → Option (Option Operator)
  | "=" => some none
  | "+=" => some (some .add)
  | "-=" => some (some .subtract)
  | "*=" => some (some .multiply)
  | "/=" => some (some .divide)
  | "%=" => some (some .remainder)
  | "**=" => some (some .power)
  | _ => none

def closesItself : Stmt → Bool
  | .ifElse .. => true
  | .loop .. => true
  | .block .. => true
  | .noop _ => true
  | .expr (.block ..) => true
  | _ => false

def condition (e : Expr) : Option Expr := if e.isNoCondition then none else some e

def atEnd : Tokens → Bool
  | [] => true
  | ⟨.symbol s, _⟩ :: _ => s = ";" || s = "\x7d"
  | _ => false

def negated (p : Position) : Expr → Expr
  | .literal (.int n) _ => .literal (if n = Value.wordMin then .float (-(Decimal.ofInt n)) else .int (-n)) p
  | .literal (.float f) _ => .literal (.float (-f)) p
  | e => .negate e p

mutual

def readExpr : Nat → (depth : Nat) → Tokens → Option (Expr × Tokens)
  | 0, _, _ => none
  | fuel + 1, depth, ts =>
    if depthLimit ≤ depth then none
    else do
      let (e, ts) ← readUnary fuel (depth + 1) ts
      readBinary fuel (depth + 1) 1 false e ts

def readBinary : Nat → (depth precedence : Nat) → (bindsRight : Bool) → Expr → Tokens → Option (Expr × Tokens)
  | 0, _, _, _, _, _ => none
  | fuel + 1, depth, precedence, bindsRight, left, ts =>
    if Connective.takesFrom precedence bindsRight ts then do
      let (c, p, ts) ← Connective.next? ts
      let (right, ts) ← readUnary fuel depth ts
      let (right, ts) ←
        if Connective.takesFrom c.precedence c.bindsRight ts then
          readBinary fuel depth c.precedence c.bindsRight right ts
        else some (right, ts)
      let e ← c.build left right p
      readBinary fuel depth precedence bindsRight e ts
    else some (left, ts)

def readUnary : Nat → (depth : Nat) → Tokens → Option (Expr × Tokens)
  | 0, _, _ => none
  | fuel + 1, depth, ts =>
    match ts with
    | ⟨.symbol "-", p⟩ :: rest =>
      if depthLimit ≤ depth then none
      else (readUnary fuel (depth + 1) rest).map fun r => (negated p r.1, r.2)
    | ⟨.symbol "+", p⟩ :: rest =>
      if depthLimit ≤ depth then none
      else (readUnary fuel (depth + 1) rest).map fun r =>
        (match r.1 with
          | .literal (.int n) q => .literal (.int n) q
          | .literal (.float f) q => .literal (.float f) q
          | e => .call "+" [e] p, r.2)
    | ⟨.symbol "!", p⟩ :: rest =>
      if depthLimit ≤ depth then none
      else (readUnary fuel (depth + 1) rest).map fun r => (.not r.1 p, r.2)
    | _ => readPrimary fuel depth ts

def readPrimary : Nat → (depth : Nat) → Tokens → Option (Expr × Tokens)
  | 0, _, _ => none
  | fuel + 1, depth, ts =>
    match ts with
    | ⟨.value v, p⟩ :: rest => some (.literal v p, rest)
    | ⟨.symbol "(", p⟩ :: ⟨.symbol ")", _⟩ :: rest => some (.literal .unit p, rest)
    | ⟨.symbol "(", _⟩ :: rest => do
      let (e, rest) ← readExpr fuel depth rest
      let rest ← expect ")" rest
      pure (e, rest)
    | ⟨.symbol "[", p⟩ :: rest => do
      let (items, rest) ← readItems fuel depth "]" rest
      if Value.arrayLimit ≤ items.length then none else pure (.array items p, rest)
    | ⟨.name n, p⟩ :: ⟨.symbol "(", _⟩ :: rest => do
      let (arguments, rest) ← readItems fuel depth ")" rest
      pure (.call n arguments p, rest)
    | ⟨.name n, p⟩ :: rest => some (.ident n p, rest)
    | ⟨.symbol "\x7b", p⟩ :: _ => do
      let (body, rest) ← readBlock fuel depth false ts
      pure (.block body p, rest)
    | ⟨.keyword "if", p⟩ :: _ => do
      let (s, rest) ← readStmt fuel depth false ts
      pure (.block [s] p, rest)
    | ⟨.keyword "while", p⟩ :: _ => do
      let (s, rest) ← readStmt fuel depth false ts
      pure (.block [s] p, rest)
    | ⟨.keyword "loop", p⟩ :: _ => do
      let (s, rest) ← readStmt fuel depth false ts
      pure (.block [s] p, rest)
    | _ => none

def readItems : Nat → (depth : Nat) → (close : String) → Tokens → Option (List Expr × Tokens)
  | 0, _, _, _ => none
  | fuel + 1, depth, close, ts =>
    match expect close ts with
    | some rest => some ([], rest)
    | none => do
      let (e, rest) ← readExpr fuel depth ts
      match expect "," rest with
      | some rest =>
        let (es, rest) ← readItems fuel depth close rest
        pure (e :: es, rest)
      | none =>
        let rest ← expect close rest
        pure ([e], rest)

/-- Reads a block in braces. `inLoop` says whether a loop can be left from here. -/
def readBlock : Nat → (depth : Nat) → (inLoop : Bool) → Tokens → Option (List Stmt × Tokens)
  | 0, _, _, _ => none
  | fuel + 1, depth, inLoop, ts => do
    let rest ← expect "\x7b" ts
    if depthLimit ≤ depth then none
    readStmts fuel (depth + 1) inLoop rest

def readStmts : Nat → (depth : Nat) → (inLoop : Bool) → Tokens → Option (List Stmt × Tokens)
  | 0, _, _, _ => none
  | fuel + 1, depth, inLoop, ts =>
    match expect "\x7d" ts with
    | some rest => some ([], rest)
    | none => do
      let (s, rest) ← readStmt fuel depth inLoop ts
      match s with
      | .noop _ => readStmts fuel depth inLoop rest
      | _ =>
        match expect ";" rest, expect "\x7d" rest with
        | some rest, _ =>
          let (ss, rest) ← readStmts fuel depth inLoop rest
          pure (s :: ss, rest)
        | none, some rest => pure ([s], rest)
        | none, none =>
          if closesItself s then
            let (ss, rest) ← readStmts fuel depth inLoop rest
            pure (s :: ss, rest)
          else none

def readIf : Nat → (depth : Nat) → (inLoop : Bool) → Position → Tokens → Option (Stmt × Tokens)
  | 0, _, _, _, _ => none
  | fuel + 1, depth, inLoop, p, ts => do
    let (c, rest) ← readExpr fuel depth ts
    let c ← condition c
    let (yes, rest) ← readBlock fuel depth inLoop rest
    match rest with
    | ⟨.keyword "else", _⟩ :: ⟨.keyword "if", q⟩ :: rest =>
      if depthLimit ≤ depth then none
      let (no, rest) ← readIf fuel (depth + 1) inLoop q rest
      pure (.ifElse c yes [no] p, rest)
    | ⟨.keyword "else", _⟩ :: rest =>
      let (no, rest) ← readBlock fuel depth inLoop rest
      pure (.ifElse c yes no p, rest)
    | rest => pure (.ifElse c yes [] p, rest)

def readResult : Nat → (depth : Nat) → Tokens → Option (Option Expr × Tokens)
  | 0, _, _ => none
  | fuel + 1, depth, ts =>
    if atEnd ts then some (none, ts)
    else (readExpr fuel depth ts).map fun r => (some r.1, r.2)

def readDefinition : Nat → (depth : Nat) → (constant : Bool) → Position → Tokens → Option (Stmt × Tokens)
  | 0, _, _, _, _ => none
  | fuel + 1, depth, constant, p, ts =>
    match ts with
    | ⟨.name n, _⟩ :: ⟨.symbol "=", _⟩ :: rest => do
      let (e, rest) ← readExpr fuel depth rest
      pure (.define n constant e p, rest)
    | ⟨.name n, _⟩ :: rest => some (.define n constant (.literal .unit {}) p, rest)
    | _ => none

def readAssignment : Nat → (depth : Nat) → Tokens → Option (Stmt × Tokens)
  | 0, _, _ => none
  | fuel + 1, depth, ts => do
    let (e, rest) ← readExpr fuel depth ts
    match rest with
    | ⟨.symbol s, p⟩ :: after =>
      match assignment? s, e with
      | none, _ => pure (.expr e, rest)
      | some o, .ident n q =>
        let (value, rest) ← readExpr fuel depth after
        pure (.assign n q o value p, rest)
      | some _, _ => none
    | _ => pure (.expr e, rest)

def readStmt : Nat → (depth : Nat) → (inLoop : Bool) → Tokens → Option (Stmt × Tokens)
  | 0, _, _, _ => none
  | fuel + 1, depth, inLoop, ts =>
    match ts with
    | ⟨.symbol ";", p⟩ :: rest => some (.noop p, rest)
    | ⟨.symbol "\x7b", p⟩ :: _ => (readBlock fuel depth inLoop ts).map fun r => (.block r.1 p, r.2)
    | ⟨.keyword "if", p⟩ :: rest => readIf fuel depth inLoop p rest
    | ⟨.keyword "while", p⟩ :: rest => do
      let (c, rest) ← readExpr fuel depth rest
      let c ← condition c
      let (body, after) ← readBlock fuel depth true rest
      pure (.loop (some c) body ((rest.head?.map (·.pos)).getD p) p, after)
    | ⟨.keyword "loop", p⟩ :: rest => do
      let (body, after) ← readBlock fuel depth true rest
      pure (.loop none body ((rest.head?.map (·.pos)).getD p) p, after)
    | ⟨.keyword "break", p⟩ :: rest =>
      if inLoop then (readResult fuel depth rest).map fun r => (.leave r.1 p, r.2) else none
    | ⟨.keyword "continue", p⟩ :: rest => if inLoop then some (.again p, rest) else none
    | ⟨.keyword "return", p⟩ :: rest =>
      (readResult fuel depth rest).map fun r => (.finish r.1 p, r.2)
    | ⟨.keyword "throw", p⟩ :: rest =>
      (readResult fuel depth rest).map fun r => (.throw r.1 p, r.2)
    | ⟨.keyword "let", p⟩ :: rest => readDefinition fuel depth false p rest
    | ⟨.keyword "const", p⟩ :: rest => readDefinition fuel depth true p rest
    | _ => readAssignment fuel depth ts

end

/-! ### Programs -/

def readParameters : Nat → Tokens → Option (List String × Tokens)
  | 0, _ => none
  | fuel + 1, ts =>
    match ts with
    | ⟨.symbol ")", _⟩ :: rest => some ([], rest)
    | ⟨.name n, _⟩ :: ⟨.symbol ",", _⟩ :: rest => do
      let (ns, rest) ← readParameters fuel rest
      if ns.contains n then none else pure (n :: ns, rest)
    | ⟨.name n, _⟩ :: ⟨.symbol ")", _⟩ :: rest => some ([n], rest)
    | _ => none

def readFunction (fuel : Nat) (ts : Tokens) : Option (Function × Tokens) :=
  match ts with
  | ⟨.name name, _⟩ :: ⟨.symbol "(", _⟩ :: rest => do
    let (parameters, rest) ← readParameters fuel rest
    let (body, rest) ← readBlock fuel 0 false rest
    pure ({ name, parameters, body }, rest)
  | _ => none

def isDefined (p : Program) (f : Function) : Bool :=
  p.functions.any fun g => g.name == f.name && g.parameters.length == f.parameters.length

def readProgram : Nat → Program → Tokens → Option Program
  | 0, _, _ => none
  | _ + 1, done, [] => some done
  | fuel + 1, done, ⟨.keyword "fn", _⟩ :: rest => do
    let (f, rest) ← readFunction fuel rest
    if isDefined done f then none
    readProgram fuel { done with functions := done.functions ++ [f] } rest
  | fuel + 1, done, ts => do
    let (s, rest) ← readStmt fuel 0 false ts
    match s with
    | .noop _ => readProgram fuel done rest
    | _ =>
      let done := { done with body := done.body ++ [s] }
      match rest with
      | [] => some done
      | ⟨.symbol ";", _⟩ :: after =>
        readProgram fuel done (if closesItself s then rest else after)
      | _ => if closesItself s then readProgram fuel done rest else none

/-- More calls than the tokens can take. -/
def fuelFor (ts : Tokens) : Nat := 16 * (ts.length + 4)

def parse? (text : String) : Option Program :=
  match Token.scan text with
  | .error _ => none
  | .ok ts => readProgram (fuelFor ts) {} ts

end Parser
end EventFlow.Script

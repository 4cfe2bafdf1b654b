import EventFlow.Script.Operators

/-!
Simplification of scripts before they run: operators on literals are computed, conditions that are
literals are decided, and statements without effect are dropped. What a script says about an event
may depend on it: a dropped statement can no longer fail.
-/

namespace EventFlow.Script

namespace Expr

def literal? : Expr → Option Value
  | literal v _ => some v
  | _ => none

def isTrue : Expr → Bool
  | literal (.bool true) _ => true
  | _ => false

def isFalse : Expr → Bool
  | literal (.bool false) _ => true
  | _ => false

def fold (o : Operator) (left right : Expr) (p : Position) : Expr :=
  match left, right with
  | literal a _, literal b _ =>
    match o.apply a b with
    | some (.ok v) => literal v p
    | _ => binary o left right p
  | _, _ => binary o left right p

def gather (items : List Expr) (p : Position) : Expr :=
  match items.mapM literal? with
  | some vs => literal (.array vs) p
  | none => array items p

/-- A conjunction: what is true on one side leaves the other, what is false on the left stays. -/
def joinBoth (left right : Expr) (p : Position) : Expr :=
  if left.isTrue then right
  else if left.isFalse then left
  else if right.isTrue then left
  else both left right p

def joinEither (left right : Expr) (p : Position) : Expr :=
  if left.isFalse then right
  else if left.isTrue then left
  else if right.isFalse then left
  else either left right p

end Expr

mutual

def Expr.isPure : Expr → Bool
  | .literal _ _ => true
  | .ident _ _ => true
  | .array items _ => arePure items
  | .both l r _ => l.isPure && r.isPure
  | .either l r _ => l.isPure && r.isPure
  | .block body _ => areIdle body
  | _ => false

def arePure : List Expr → Bool
  | [] => true
  | e :: es => e.isPure && arePure es

def Stmt.isIdle : Stmt → Bool
  | .noop _ => true
  | .expr e => e.isPure
  | .ifElse c yes no _ => c.isPure && areIdle yes && areIdle no
  | .block body _ => areIdle body
  | _ => false

def areIdle : List Stmt → Bool
  | [] => true
  | s :: ss => s.isIdle && areIdle ss

end

namespace Stmt

def isPureDefinition : Stmt → Bool
  | define _ _ e _ => e.isPure
  | _ => false

def isDefinition : Stmt → Bool
  | define .. => true
  | _ => false

def isFixed : Stmt → Bool
  | noop _ => true
  | expr (.literal ..) => true
  | _ => false

def ofBlock (body : List Stmt) (p : Position) : Stmt :=
  match body with
  | [] => noop p
  | [s] => if s.isDefinition then block body p else s
  | body => block body p

end Stmt

/-- Drops the idle statements; the last one stays if its value counts. Where the variables end with
the statements (`inner`), definitions that nothing reads are dropped too. -/
def dropIdle (inner keepLast : Bool) : List Stmt → List Stmt
  | [] => []
  | [s] =>
    if inner && s.isPureDefinition then (if keepLast then [.noop s.position] else [])
    else if s.isIdle && !keepLast then []
    else [s]
  | s :: t :: rest =>
    let tail := dropIdle inner keepLast (t :: rest)
    if s.isIdle || (inner && s.isPureDefinition && tail.all Stmt.isFixed) then tail else s :: tail

mutual

def Expr.simplify : Expr → Expr
  | .literal v p => .literal v p
  | .ident n p => .ident n p
  | .array items p => Expr.gather (simplifyExprs items) p
  | .binary o l r p => Expr.fold o l.simplify r.simplify p
  | .negate e p => .negate e.simplify p
  | .not e p => .not e.simplify p
  | .both l r p => Expr.joinBoth l.simplify r.simplify p
  | .either l r p => Expr.joinEither l.simplify r.simplify p
  | .call n es p => .call n (simplifyExprs es) p
  | .block body p => .block (dropIdle true true (simplifyStmts true body)) p

def simplifyExprs : List Expr → List Expr
  | [] => []
  | e :: es => e.simplify :: simplifyExprs es

/-- `keep` says whether the value of the statement counts. -/
def Stmt.simplify (keep : Bool) : Stmt → Stmt
  | .noop p => .noop p
  | .expr e =>
    match e.simplify with
    | .block body p => .block body p
    | e => .expr e
  | .define n c e p => .define n c e.simplify p
  | .assign n t o e p => .assign n t o e.simplify p
  | .ifElse c yes no p =>
    let c := c.simplify
    let yes := dropIdle true keep (simplifyStmts keep yes)
    let no := dropIdle true keep (simplifyStmts keep no)
    if c.isTrue then .ofBlock yes p
    else if c.isFalse then .ofBlock no p
    else if yes.isEmpty && no.isEmpty then
      (if keep then .block [.expr c, .noop p] p else .expr c)
    else .ifElse c yes no p
  | .loop none body q p => .loop none (dropIdle true false (simplifyStmts false body)) q p
  | .loop (some c) body q p =>
    let c := c.simplify
    let body := dropIdle true false (simplifyStmts false body)
    if c.isFalse then .noop p
    else if c.isTrue then .loop none body q p
    else .loop (some c) body q p
  | .block body p => .ofBlock (dropIdle true keep (simplifyStmts keep body)) p
  | .leave none p => .leave none p
  | .leave (some e) p => .leave (some e.simplify) p
  | .again p => .again p
  | .finish none p => .finish none p
  | .finish (some e) p => .finish (some e.simplify) p
  | .throw none p => .throw none p
  | .throw (some e) p => .throw (some e.simplify) p

def simplifyStmts (keep : Bool) : List Stmt → List Stmt
  | [] => []
  | s :: ss => s.simplify keep :: simplifyStmts keep ss

end

def simplifyBody (inner : Bool) (body : List Stmt) : List Stmt :=
  dropIdle inner true (simplifyStmts true body)

def Program.simplify (p : Program) : Program where
  body := simplifyBody false p.body
  functions := p.functions.map fun f => { f with body := simplifyBody true f.body }

end EventFlow.Script

import EventFlow.Host
import EventFlow.Packet
import EventFlow.Text.Blank

/-!
Predicates over events, written as scripts. A script sees the event as the variables `x`, `y`,
`polarity`, `value` and `timestamp`, and answers with a truth value.
-/

namespace EventFlow

inductive PredicateError where
  | empty
  | compilation (cause : String)
  | evaluation (cause : String)
  | notBool (typeName : String)
deriving DecidableEq, Inhabited

def PredicateError.message : PredicateError → String
  | empty => "empty predicate"
  | compilation cause => s!"Compilation error: {cause}"
  | evaluation cause => cause
  | notBool t => s!"predicate returned {t} instead of bool"

structure Predicate [Host] where
  text : String
  ast : Host.scripts.Ast

namespace Predicate

variable [Host]

def compile (text : String) : Except PredicateError Predicate :=
  if Text.isBlankText text then .error .empty
  else match Host.scripts.compile text with
    | .error cause => .error (.compilation cause)
    | .ok ast => .ok { text, ast }

def bindings (e : Event) : List (String × ScriptValue) :=
  [("x", .int e.x), ("y", .int e.y), ("polarity", .bool e.polarity), ("value", .int e.value),
    ("timestamp", .int e.timestamp)]

def bind (scope : Host.scripts.Scope) (e : Event) : Host.scripts.Scope :=
  (bindings e).foldl (fun s v => Host.scripts.push s v.1 v.2) scope

def verdict : Except String ScriptAnswer → Except PredicateError Bool
  | .error cause => .error (.evaluation cause)
  | .ok (.bool b) => .ok b
  | .ok (.other t) => .error (.notBool t)

/-- Asks a predicate about an event in a scope that other events have used, and tells what scope the
script leaves. -/
def ask (p : Predicate) (moment : Nat) (e : Event) (scope : Host.scripts.Scope) :
    Except PredicateError Bool × Host.scripts.Scope :=
  let (r, scope) := Host.scripts.eval moment p.ast (bind (Host.scripts.clear scope) e)
  (verdict r, scope)

def holds (p : Predicate) (e : Event) : Except PredicateError Bool :=
  (p.ask 0 e Host.scripts.empty).1

def library : List (String × String) :=
  [("Pass all", "true"), ("ON only", "polarity"), ("OFF only", "!polarity"),
    ("Center window", "in_rect(x, y, 56, 26, 183, 153)"),
    ("Duty cycle 10 ms", "every(timestamp, 10000)")]

end Predicate
end EventFlow

import EventFlow.Wiring

/-!
The compiled plan: the execution order, and for each module the slots it reads from and writes to.
-/

namespace EventFlow

structure InputRoute where
  stream : StreamKey
  tap : Tap
  slot : Slot
  /-- The slot that is copied into `slot` first. -/
  copyFrom : Option Slot := none
  writable : Bool := false
deriving DecidableEq, Inhabited

inductive Placement where
  | slot (s : Slot)
  | unused
  | undeclared
deriving DecidableEq, Inhabited

structure Routes where
  inputs : List InputRoute := []
  /-- The slot of every declared type; `none` when nobody reads it. -/
  outputs : List (EventType × Option Slot) := []
deriving DecidableEq, Inhabited

def Routes.placement (r : Routes) (t : EventType) : Placement :=
  match r.outputs.find? (fun o => o.1 == t) with
  | some (_, some s) => .slot s
  | some (_, none) => .unused
  | none => .undeclared

structure PlanStats where
  total : Nat := 0
  sources : Nat := 0
  processors : Nat := 0
  sinks : Nat := 0
  streams : Nat := 0
  slots : Nat := 0
  copies : Nat := 0
  fillers : Nat := 0
deriving DecidableEq, Inhabited

structure Plan where
  order : List ModuleId := []
  /-- Parallel to `order`. -/
  routes : List Routes := []
  slotCount : Nat := 0
  streams : Streams := {}
  inputs : Table ModuleId InputDefinition := []
  generation : Nat := 0
  stats : PlanStats := {}
deriving DecidableEq, Inhabited

namespace Plan

def isEmpty (p : Plan) : Bool := p.order.isEmpty

def position? (p : Plan) (id : ModuleId) : Option Nat := p.order.idxOf? id

def routesOf? (p : Plan) (id : ModuleId) : Option Routes := (p.position? id).bind (p.routes[·]?)

def hasStream (p : Plan) (producer : ModuleId) (t : EventType) : Bool :=
  p.streams.has ⟨producer, t⟩

def producers (p : Plan) (id : ModuleId) : List ModuleId :=
  ((Table.value? p.inputs id).map Table.keys).getD []

def consumers (p : Plan) (id : ModuleId) : List ModuleId := p.streams.consumers id

end Plan
end EventFlow

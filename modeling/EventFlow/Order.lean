import EventFlow.DependencyTree

/-!
The execution order: `flatten` reads it off a tree, `normalize` repairs it with the least movement
so that every module follows those it reads from.
-/

namespace EventFlow

inductive OrderError where
  | dependsOnItself (id : ModuleId)
  | waiting (ids : List ModuleId)
deriving DecidableEq

def OrderError.message : OrderError → String
  | dependsOnItself m => s!"module {m.label} depends on itself"
  | waiting ms =>
    "modules " ++ ", ".intercalate (ms.map ModuleId.label) ++ " wait on each other across streams"

namespace Order

/-- The levels of a tree in turn, in each the modules with the fewest copies first. -/
def flatten (t : DependencyTree) (copies : ModuleId → Nat) : List ModuleId :=
  t.levels.flatMap fun level => level.mergeSort fun a b => decide (copies a ≤ copies b)

def place? (order : List ModuleId) (id : ModuleId) : Option Nat :=
  (order.reverse.idxOf? id).map (order.length - 1 - ·)

def before (order : List ModuleId) (after : ModuleId → List ModuleId) (i : Nat) : List Nat :=
  match order[i]? with
  | none => []
  | some m => if place? order m = some i then (after m).filterMap (place? order) else []

/-- Takes again and again the first place that waits for none of the others left. Returns the
places taken and those that wait on each other. Counters with a queue of the ready places find the
same (`Order.counting_settles`). -/
def settle (left : List (Nat × List Nat)) : List Nat × List Nat :=
  match _h : left.find? (fun e => e.2.all fun d => !left.any (·.1 == d)) with
  | none => ([], left.map (·.1))
  | some e =>
    let (placed, stuck) := settle (left.erase e)
    (e.1 :: placed, stuck)
termination_by left.length
decreasing_by
  have mem := List.mem_of_find?_eq_some _h
  have := List.length_pos_of_mem mem
  rw [List.length_erase_of_mem mem]
  omega

/-- The order with every module after the modules that `after` gives for it. An order that has
this already stays as it is. -/
def normalize (order : List ModuleId) (after : ModuleId → List ModuleId) :
    Except OrderError (List ModuleId) :=
  let places := (List.range order.length).map fun i => (i, before order after i)
  match places.find? (fun e => e.2.contains e.1) with
  | some (i, _) => .error (.dependsOnItself (order.getD i default))
  | none =>
    let name (i : Nat) : ModuleId := order.getD i default
    match settle places with
    | (placed, []) => .ok (placed.map name)
    | (_, stuck) => .error (.waiting (ModuleId.sorted (stuck.map name)))

end Order
end EventFlow

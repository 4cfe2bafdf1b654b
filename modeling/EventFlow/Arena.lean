import EventFlow.DependencyTree
import EventFlow.Table

/-!
A dependency tree in an arena. Levels hold links, a link may own the level below it, and both refer
to each other by their positions, so that a module is found at once and a whole subtree is moved by
turning two references. Positions and depths are unbounded here. In 32 bits, with one number that stands
for none, everything is the same as long as there are fewer than 2^32 - 1 levels and as many links.
-/

namespace EventFlow

structure ArenaLevel where
  depth : Nat := 0
  /-- The link that owns the level; the first level has none. -/
  parent : Option Nat := none
  links : List Nat := []
deriving DecidableEq, Inhabited

structure ArenaLink where
  module : Option ModuleId := none
  owner : Nat := 0
  next : Option Nat := none
deriving DecidableEq, Inhabited

structure Arena where
  levels : List ArenaLevel := [{}]
  links : List ArenaLink := []
  index : Table ModuleId Nat := []
  fillers : Nat := 0
deriving DecidableEq, Inhabited

namespace Arena

def level (a : Arena) (n : Nat) : ArenaLevel := a.levels[n]?.getD {}

def link (a : Arena) (l : Nat) : ArenaLink := a.links[l]?.getD {}

def modifyLevel (a : Arena) (n : Nat) (f : ArenaLevel → ArenaLevel) : Arena :=
  { a with levels := a.levels.modify n f }

def modifyLink (a : Arena) (l : Nat) (f : ArenaLink → ArenaLink) : Arena :=
  { a with links := a.links.modify l f }

/-! ### Views -/

def contains (a : Arena) (id : ModuleId) : Bool := a.index.has id

def depthOf (a : Arena) (l : Nat) : Nat := (a.level (a.link l).owner).depth

def depth? (a : Arena) (id : ModuleId) : Option Nat := (a.index.value? id).map a.depthOf

def head (a : Arena) (n : Nat) : Option ModuleId := (a.level n).parent.bind fun l => (a.link l).module

def row (a : Arena) (n : Nat) : List ModuleId :=
  (a.level n).links.filterMap fun l => (a.link l).module

def below (a : Arena) (n : Nat) : List Nat := (a.level n).links.filterMap fun l => (a.link l).next

/-- The modules above a level, nearest first; no way up passes more levels than there are. -/
def climb (a : Arena) : (fuel : Nat) → Nat → List ModuleId
  | 0, _ => []
  | fuel + 1, n =>
    match (a.level n).parent with
    | none => []
    | some l => (a.link l).module.toList ++ a.climb fuel (a.link l).owner

def ancestors (a : Arena) (l : Nat) : List ModuleId := a.climb a.levels.length (a.link l).owner

def above? (a : Arena) (id : ModuleId) : Option (List ModuleId) :=
  (a.index.value? id).map a.ancestors

/-- The levels of a stack and all below them, the last level of each last. -/
def unstack (a : Arena) : (fuel : Nat) → List Nat → List Nat
  | 0, _ => []
  | _, [] => []
  | fuel + 1, n :: stack => n :: a.unstack fuel ((a.below n).reverse ++ stack)

def subtree (a : Arena) (n : Nat) : List Nat := a.unstack (a.levels.length + 1) [n]

def descendants (a : Arena) (l : Nat) : List ModuleId :=
  match (a.link l).next with
  | none => []
  | some n => (a.subtree n).flatMap a.row

def roundsFrom (a : Arena) : (fuel : Nat) → List Nat → List (List Nat)
  | 0, _ => []
  | _, [] => []
  | fuel + 1, ns => ns :: a.roundsFrom fuel (ns.flatMap a.below)

def rounds (a : Arena) : List (List Nat) := a.roundsFrom a.levels.length [0]

def rows (a : Arena) : List (List ModuleId) := a.rounds.map fun ns => ns.flatMap a.row

def render (a : Arena) : (fuel : Nat) → Nat → String
  | 0, _ => ""
  | fuel + 1, n =>
    let depth := (a.level n).depth
    String.join <| (a.level n).links.map fun l =>
      "".pushn ' ' (2 * depth) ++ ((a.link l).module.map ModuleId.label).getD "-" ++
        s!" (depth {depth})\n" ++ ((a.link l).next.map (a.render fuel)).getD ""

def text (a : Arena) : String := a.render a.levels.length 0

/-! ### Placing modules -/

def pushLink (a : Arena) (n : Nat) (module : Option ModuleId) : Arena × Nat :=
  let l := a.links.length
  ({ levels := a.levels.modify n fun v => { v with links := v.links ++ [l] }
     links := a.links ++ [{ module, owner := n }]
     index := match module with
       | some id => a.index.put id l
       | none => a.index
     fillers := a.fillers }, l)

def nextLevel (a : Arena) (l : Nat) : Arena × Nat :=
  match (a.link l).next with
  | some n => (a, n)
  | none =>
    let n := a.levels.length
    ({ a with
        levels := a.levels ++ [{ depth := a.depthOf l + 1, parent := some l }]
        links := a.links.modify l fun k => { k with next := some n } }, n)

def sortLinks (a : Arena) (n : Nat) : Arena :=
  a.modifyLevel n fun v => { v with
    links := v.links.mergeSort fun k l =>
      DependencyTree.linkLe (a.link k).module (a.link l).module }

def pushBelow (a : Arena) (l : Nat) (module : Option ModuleId) : Arena × Nat :=
  let (a, n) := a.nextLevel l
  a.pushLink n module

def addTop (a : Arena) (id : ModuleId) : Arena := (a.pushLink 0 (some id)).1.sortLinks 0

def addBelow (a : Arena) (l : Nat) (id : ModuleId) : Arena :=
  let (a, n) := a.nextLevel l
  (a.pushLink n (some id)).1.sortLinks n

/-! ### Moving modules -/

def vacate (a : Arena) (l : Nat) (id : ModuleId) : Arena :=
  { a with
    links := a.links.modify l fun k => { k with module := none, next := none }
    index := a.index.erase id
    fillers := a.fillers + 1 }

def pushFiller (a : Arena) (l : Nat) : Arena × Nat :=
  let (a, k) := a.pushBelow l none
  ({ a with fillers := a.fillers + 1 }, k)

def hang (id : ModuleId) : Nat → Arena → Nat → Arena × Nat
  | 0, a, l => a.pushBelow l (some id)
  | n + 1, a, l =>
    let (a, k) := a.pushFiller l
    hang id n a k

def adopt (a : Arena) (l s : Nat) : Arena :=
  (a.modifyLink l fun k => { k with next := some s }).modifyLevel s fun v =>
    { v with parent := some l }

def shiftDepth (a : Arena) (s delta : Nat) : Arena :=
  (a.subtree s).foldl (fun a n => a.modifyLevel n fun v => { v with depth := v.depth + delta }) a

/-- Moves a module and all below it to a greater depth; a filler stays in its place. -/
def pushDown (a : Arena) (id : ModuleId) (target : Nat) : Arena :=
  match a.index.value? id with
  | none => a
  | some l =>
    if target ≤ a.depthOf l then a
    else
      let (b, moved) := hang id (target - a.depthOf l - 1) (a.vacate l id) l
      match (a.link l).next with
      | none => b
      | some s => (b.adopt moved s).shiftDepth s (target - a.depthOf l)

/-! ### The tree of one stream -/

def ofProducer (id : ModuleId) : Arena := (({} : Arena).pushLink 0 (some id)).1

def placeReaders (key : StreamKey) (m : ModuleId) :
    List ModuleId → Arena → Except TreeError Arena
  | [], a => .ok a
  | id :: ids, a =>
    if a.contains id then .error (.reachedTwice id key)
    else
      match a.index.value? m with
      | none => placeReaders key m ids a
      | some l => placeReaders key m ids (a.addBelow l id)

/-- Places the readers of each queued module below it. `waiting` holds the users not yet placed. -/
def grow (key : StreamKey) (a : Arena) (waiting : List (ModuleId × Tap)) (queue : List ModuleId) :
    Except TreeError (Arena × List (ModuleId × Tap)) :=
  match queue with
  | [] => .ok (a, waiting)
  | m :: queue =>
    let readers := ModuleId.sorted ((DependencyTree.readersAt key m waiting).map (·.1))
    match placeReaders key m readers a with
    | .error e => .error e
    | .ok a => grow key a (DependencyTree.othersAt key m waiting) (queue ++ readers)
termination_by queue.length + waiting.length
decreasing_by
  have := DependencyTree.length_readersAt_add_othersAt key m waiting
  simp only [List.length_append, ModuleId.sorted, List.length_mergeSort, List.length_map,
    List.length_cons]
  omega

def ofStream (key : StreamKey) (users : List (ModuleId × Tap)) : Except TreeError Arena :=
  match grow key (ofProducer key.producer) users [key.producer] with
  | .error e => .error e
  | .ok (a, []) => .ok a
  | .ok (a, left) =>
    .error (.stranded key (ModuleId.sorted ((left.map (·.1)).filter (!a.contains ·))))

/-! ### Merging -/

structure Visit where
  parent : Option ModuleId
  id : ModuleId
  link : Nat
deriving DecidableEq

def visitsOf (a : Arena) (n : Nat) : List Visit :=
  (a.level n).links.filterMap fun l => (a.link l).module.map fun id => ⟨a.head n, id, l⟩

def visits (a : Arena) : List Visit := a.rounds.flatten.flatMap a.visitsOf

/-- Works one module of `src` in: a placed module is pushed below its new parent, any other is
added. -/
def mergeOne (a src : Arena) (v : Visit) : Except TreeError Arena :=
  match a.index.value? v.id with
  | some l =>
    match (src.descendants v.link).find? (a.ancestors l).contains with
    | some d => .error (.reversed d v.id)
    | none =>
      match v.parent.bind a.depth?, a.depth? v.id with
      | some p, some d => .ok (if d ≤ p then a.pushDown v.id (p + 1) else a)
      | _, _ => .ok a
  | none =>
    match v.parent with
    | none => .ok (a.addTop v.id)
    | some p =>
      match a.index.value? p with
      | some l => .ok (a.addBelow l v.id)
      | none => .error (.notPlaced v.id p)

/-- Works modules in until one fails; the tree keeps what was placed before. -/
def mergeVisits (a src : Arena) : List Visit → Arena × Option TreeError
  | [] => (a, none)
  | v :: vs =>
    match a.mergeOne src v with
    | .error e => (a, some e)
    | .ok a => mergeVisits a src vs

def merge (a src : Arena) : Arena × Option TreeError := a.mergeVisits src src.visits

end Arena
end EventFlow

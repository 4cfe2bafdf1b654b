import EventFlow.Streams

/-!
Dependency trees: a module stands below the module whose packets it reads. Every stream has a tree
of its own (`ofStream`); `merge` works one tree into another and pushes modules down behind chains
of fillers, so that every module ends deeper than all it reads from.
-/

namespace EventFlow

/-- Trees side by side: the first tree's top module, the trees below it, and the remaining trees.
A top without a module is a filler, which only makes what is below it deeper. -/
inductive DependencyTree where
  | nil
  | link (module : Option ModuleId) (below rest : DependencyTree)
deriving DecidableEq, Inhabited

inductive TreeError where
  | reachedTwice (id : ModuleId) (key : StreamKey)
  | stranded (key : StreamKey) (ids : List ModuleId)
  | reversed (dependent id : ModuleId)
  | notPlaced (id parent : ModuleId)
  | unreached (keys : List String)
deriving DecidableEq

def TreeError.message : TreeError → String
  | reachedTwice m k => s!"module {m.label} reached twice in stream {k.label}"
  | stranded k ms =>
    s!"stream {k.label}: tap points of modules {ModuleId.details ms}" ++
      " form a cycle and never reach the producer"
  | reversed d m => s!"module {d.label} must run after {m.label}, which already runs before it"
  | notPlaced m p => s!"module {m.label} depends on {p.label}, which is not yet placed"
  | unreached ks =>
    "streams " ++ ", ".intercalate ks ++
      " come from processors that are never reached from any source"

namespace DependencyTree

/-! ### Views -/

def modules : DependencyTree → List ModuleId
  | nil => []
  | link m below rest => m.toList ++ below.modules ++ rest.modules

def contains (t : DependencyTree) (id : ModuleId) : Bool := t.modules.contains id

def fillers : DependencyTree → Nat
  | nil => 0
  | link m below rest => (if m.isNone then 1 else 0) + below.fillers + rest.fillers

def height : DependencyTree → Nat
  | nil => 0
  | link _ below rest => max (below.height + 1) rest.height

def linksAt : Nat → DependencyTree → List (Option ModuleId)
  | _, nil => []
  | 0, link m _ rest => m :: linksAt 0 rest
  | n + 1, link _ below rest => linksAt n below ++ linksAt (n + 1) rest

def levels (t : DependencyTree) : List (List ModuleId) :=
  (List.range (max 1 t.height)).map fun n => (t.linksAt n).filterMap id

def depthFrom (id : ModuleId) : Nat → DependencyTree → Option Nat
  | _, nil => none
  | d, link m below rest =>
    if m = some id then some d else (depthFrom id (d + 1) below).or (depthFrom id d rest)

def depth? (t : DependencyTree) (id : ModuleId) : Option Nat := t.depthFrom id 0

def above? (id : ModuleId) : DependencyTree → Option (List ModuleId)
  | nil => none
  | link m below rest =>
    if m = some id then some []
    else ((above? id below).map (m.toList ++ ·)).or (above? id rest)

def row : DependencyTree → List ModuleId
  | nil => []
  | link m _ rest => m.toList ++ rest.row

def deep : DependencyTree → List ModuleId
  | nil => []
  | link _ below rest => rest.deep ++ (below.row ++ below.deep)

/-- The modules of a tree in the order in which they are tested against the modules above. -/
def descendants (below : DependencyTree) : List ModuleId := below.row ++ below.deep

def render (d : Nat) : DependencyTree → String
  | nil => ""
  | link m below rest =>
    "".pushn ' ' (2 * d) ++ (m.map ModuleId.label).getD "-" ++ s!" (depth {d})\n" ++
      below.render (d + 1) ++ rest.render d

def text (t : DependencyTree) : String := t.render 0

/-! ### Placing modules -/

def linkLe : Option ModuleId → Option ModuleId → Bool
  | none, _ => true
  | some _, none => false
  | some a, some b => decide (a ≤ b)

def toList : DependencyTree → List (Option ModuleId × DependencyTree)
  | nil => []
  | link m below rest => (m, below) :: rest.toList

def ofList : List (Option ModuleId × DependencyTree) → DependencyTree
  | [] => nil
  | (m, below) :: l => link m below (ofList l)

def addTop (id : ModuleId) (t : DependencyTree) : DependencyTree :=
  ofList <| (t.toList ++ [(some id, nil)]).mergeSort fun a b => linkLe a.1 b.1

def addBelow (parent id : ModuleId) : DependencyTree → DependencyTree
  | nil => nil
  | link m below rest =>
    if m = some parent then link m (below.addTop id) rest
    else link m (below.addBelow parent id) (rest.addBelow parent id)

def chain (id : ModuleId) (below : DependencyTree) : Nat → DependencyTree
  | 0 => link (some id) below nil
  | n + 1 => link none (chain id below n) nil

def pushFrom (id : ModuleId) (target : Nat) : Nat → DependencyTree → DependencyTree
  | _, nil => nil
  | d, link m below rest =>
    if m = some id then
      if d < target then link none (chain id below (target - d - 1)) rest else link m below rest
    else link m (pushFrom id target (d + 1) below) (pushFrom id target d rest)

/-- Moves a module and all below it to a greater depth; a filler stays in its place. -/
def pushDown (t : DependencyTree) (id : ModuleId) (target : Nat) : DependencyTree :=
  t.pushFrom id target 0

/-! ### The tree of one stream -/

def readersAt (key : StreamKey) (m : ModuleId) (users : List (ModuleId × Tap)) :
    List (ModuleId × Tap) :=
  users.filter fun u => decide (u.2.module key.producer = m)

def othersAt (key : StreamKey) (m : ModuleId) (users : List (ModuleId × Tap)) :
    List (ModuleId × Tap) :=
  users.filter fun u => !decide (u.2.module key.producer = m)

theorem length_readersAt_add_othersAt (key : StreamKey) (m : ModuleId)
    (users : List (ModuleId × Tap)) :
    (readersAt key m users).length + (othersAt key m users).length = users.length := by
  induction users with
  | nil => rfl
  | cons u users ih =>
    by_cases h : u.2.module key.producer = m <;> simp_all [readersAt, othersAt] <;> omega

def placeReaders (key : StreamKey) (m : ModuleId) :
    List ModuleId → DependencyTree → Except TreeError DependencyTree
  | [], t => .ok t
  | id :: ids, t =>
    if t.contains id then .error (.reachedTwice id key) else placeReaders key m ids (t.addBelow m id)

/-- Places the readers of each queued module below it. `waiting` holds the users not yet placed. -/
def grow (key : StreamKey) (t : DependencyTree) (waiting : List (ModuleId × Tap))
    (queue : List ModuleId) : Except TreeError (DependencyTree × List (ModuleId × Tap)) :=
  match queue with
  | [] => .ok (t, waiting)
  | m :: queue =>
    match placeReaders key m (ModuleId.sorted ((readersAt key m waiting).map (·.1))) t with
    | .error e => .error e
    | .ok t =>
      grow key t (othersAt key m waiting)
        (queue ++ ModuleId.sorted ((readersAt key m waiting).map (·.1)))
termination_by queue.length + waiting.length
decreasing_by
  have := length_readersAt_add_othersAt key m waiting
  simp only [List.length_append, ModuleId.sorted, List.length_mergeSort, List.length_map,
    List.length_cons]
  omega

/-- The tree of a stream: every user below the module after which it taps the stream. -/
def ofStream (key : StreamKey) (users : List (ModuleId × Tap)) : Except TreeError DependencyTree :=
  match grow key (link (some key.producer) nil nil) users [key.producer] with
  | .error e => .error e
  | .ok (t, []) => .ok t
  | .ok (t, left) =>
    .error (.stranded key (ModuleId.sorted ((left.map (·.1)).filter (!t.contains ·))))

/-! ### Merging -/

structure Visit where
  parent : Option ModuleId
  id : ModuleId
  below : DependencyTree

def visitsAt : Nat → (parent : Option ModuleId) → DependencyTree → List Visit
  | _, _, nil => []
  | 0, p, link m below rest => (m.map (⟨p, ·, below⟩)).toList ++ visitsAt 0 p rest
  | n + 1, p, link m below rest => visitsAt n m below ++ visitsAt (n + 1) p rest

def visits (t : DependencyTree) : List Visit :=
  (List.range t.height).flatMap fun n => t.visitsAt n none

def mergeOne (t : DependencyTree) (v : Visit) : Except TreeError DependencyTree :=
  match t.above? v.id with
  | some above =>
    match v.below.descendants.find? above.contains with
    | some d => .error (.reversed d v.id)
    | none =>
      match v.parent.bind t.depth?, t.depth? v.id with
      | some p, some d => .ok (if d ≤ p then t.pushDown v.id (p + 1) else t)
      | _, _ => .ok t
  | none =>
    match v.parent with
    | none => .ok (t.addTop v.id)
    | some p => if t.contains p then .ok (t.addBelow p v.id) else .error (.notPlaced v.id p)

/-- Works modules in until one fails; the tree keeps what was placed before. -/
def mergeVisits (t : DependencyTree) : List Visit → DependencyTree × Option TreeError
  | [] => (t, none)
  | v :: vs =>
    match t.mergeOne v with
    | .error e => (t, some e)
    | .ok t => mergeVisits t vs

def merge (t src : DependencyTree) : DependencyTree × Option TreeError := t.mergeVisits src.visits

end DependencyTree

structure StreamTree where
  key : StreamKey
  fromProcessor : Bool
  tree : DependencyTree
deriving DecidableEq, Inhabited

namespace DependencyTree

/-- One round over the waiting trees: those whose producer is placed are merged, the others wait
on in their order. -/
def mergeRound : List StreamTree → DependencyTree → Except TreeError (DependencyTree × List StreamTree)
  | [], t => .ok (t, [])
  | s :: rest, t =>
    if t.contains s.key.producer then
      match t.merge s.tree with
      | (_, some e) => .error e
      | (t, none) => mergeRound rest t
    else
      (mergeRound rest t).map fun r => (r.1, s :: r.2)

def unreachedKeys (waiting : List StreamTree) : List String :=
  ((waiting.map (·.key.label)).mergeSort (fun a b => decide (a ≤ b))).eraseDups

def mergeWaiting (waiting : List StreamTree) (t : DependencyTree) :
    Except TreeError DependencyTree :=
  if waiting.isEmpty then .ok t
  else
    match mergeRound waiting t with
    | .error e => .error e
    | .ok (t, left) =>
      if left.length < waiting.length then mergeWaiting left t
      else .error (.unreached (unreachedKeys left))
termination_by waiting.length

/-- Merges the trees of all streams: those of sources first, then those of processors as soon as
their producer is placed. -/
def mergeAll (trees : List StreamTree) : Except TreeError DependencyTree :=
  let start (t : DependencyTree) (s : StreamTree) : Except TreeError DependencyTree :=
    match t.merge s.tree with
    | (_, some e) => .error e
    | (t, none) => .ok t
  match (trees.filter (!·.fromProcessor)).foldlM start nil with
  | .error e => .error e
  | .ok t => mergeWaiting (trees.filter (·.fromProcessor)) t

end DependencyTree
end EventFlow

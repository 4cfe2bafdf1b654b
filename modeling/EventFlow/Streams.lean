import EventFlow.Id

/-!
The registry of streams: every stream once, ascending by key, with the modules that consume it.
-/

namespace EventFlow

structure Stream where
  key : StreamKey
  fromProcessor : Bool := false
  /-- Consumers, in the order in which they were enrolled or last reordered. -/
  users : List ModuleId := []
deriving DecidableEq, Inhabited

structure Streams where
  list : List Stream := []
deriving DecidableEq, Inhabited

inductive UserError where
  | ownProducer (key : StreamKey)
  | repeatedUser (user : ModuleId) (key : StreamKey)
deriving DecidableEq

def UserError.message : UserError → String
  | ownProducer k => s!"stream {k.label} is consumed by its own producer {k.producer.label}"
  | repeatedUser u k => s!"module {u.label} appears twice in the users of stream {k.label}"

namespace Streams

def insert (s : Stream) : List Stream → List Stream
  | [] => [s]
  | t :: l => if s.key < t.key then s :: t :: l else t :: insert s l

def find? (r : Streams) (k : StreamKey) : Option Stream := r.list.find? (fun s => s.key = k)

def has (r : Streams) (k : StreamKey) : Bool := (r.find? k).isSome

/-- Adds a stream without users; the first registration of a key stands. -/
def register (r : Streams) (k : StreamKey) (fromProcessor : Bool) : Streams :=
  if r.has k then r else ⟨insert { key := k, fromProcessor } r.list⟩

def addUser (r : Streams) (k : StreamKey) (user : ModuleId) : Streams :=
  ⟨r.list.map fun s => if s.key = k then { s with users := s.users ++ [user] } else s⟩

def unused (r : Streams) : List StreamKey :=
  (r.list.filter (·.users.isEmpty)).map (·.key)

def prune (r : Streams) : Streams := ⟨r.list.filter (!·.users.isEmpty)⟩

def hasFrom (r : Streams) (producer : ModuleId) : Bool :=
  r.list.any fun s => s.key.producer == producer

def repeated? : List ModuleId → Option ModuleId
  | a :: b :: l => if a = b then some a else repeated? (b :: l)
  | _ => none

def checkStream (s : Stream) : Except UserError Unit :=
  if s.users.contains s.key.producer then .error (.ownProducer s.key)
  else match repeated? (ModuleId.sorted s.users) with
    | some u => .error (.repeatedUser u s.key)
    | none => .ok ()

def checkUsers (r : Streams) : Except UserError Unit := r.list.forM checkStream

/-- The place of a module in an order; modules that are missing from it come last. -/
def rank (order : List ModuleId) (id : ModuleId) : Nat :=
  match order.reverse.idxOf? id with
  | some i => order.length - 1 - i
  | none => order.length

def reorder (r : Streams) (order : List ModuleId) : Streams :=
  ⟨r.list.map fun s =>
    { s with users := s.users.mergeSort (fun a b => decide (rank order a ≤ rank order b)) }⟩

def dedupSorted : List ModuleId → List ModuleId
  | a :: b :: l => if a = b then dedupSorted (b :: l) else a :: dedupSorted (b :: l)
  | l => l

def consumers (r : Streams) (producer : ModuleId) : List ModuleId :=
  dedupSorted <| ModuleId.sorted <|
    (r.list.filter (·.key.producer = producer)).flatMap (·.users)

end Streams
end EventFlow

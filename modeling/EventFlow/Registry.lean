import EventFlow.Streams

/-!
The registry of streams as its callers meet it. The stream of a key is sought by halving, which
relies on the order of the streams.
-/

namespace EventFlow

/-! ### Halving -/

/-- Where a list of `n` elements holds what is sought, or where it would have to be put. -/
inductive Spot (n : Nat) where
  | held (i : Fin n)
  | gap (i : Fin (n + 1))
deriving DecidableEq

section
variable {α : Type} (compare : α → Ordering) (list : List α)

/-- Of `size` places from `base` on, the last one whose element is not behind what is sought. -/
def halve (base size : Nat) (nonempty : 0 < size) (inside : base + size ≤ list.length) :
    Fin list.length :=
  if one : size = 1 then ⟨base, by omega⟩
  else if compare list[base + size / 2] = .gt then
    halve base (size - size / 2) (by omega) (by omega)
  else
    halve (base + size / 2) (size - size / 2) (by omega) (by omega)
termination_by size

def Spot.at {n : Nat} (i : Fin n) : Ordering → Spot n
  | .eq => .held i
  | .lt => .gap i.succ
  | .gt => .gap i.castSucc

/-- Seeks the element that compares as `eq`, in a list in which those before it compare as `lt` and
those behind it as `gt`. -/
def search : Spot list.length :=
  if nonempty : 0 < list.length then
    let i := halve compare list 0 list.length nonempty (by omega)
    .at i (compare (list.get i))
  else .gap 0

end

def StreamKey.compare (a b : StreamKey) : Ordering := compareOfLessAndEq a b

/-! ### Requests -/

namespace Streams

inductive Request where
  | register (key : StreamKey) (fromProcessor : Bool)
  | find (key : StreamKey)
  | has (key : StreamKey)
  | addUser (key : StreamKey) (user : ModuleId)
  | prune
  | hasFrom (producer : ModuleId)
  | reorder (order : List ModuleId)
  | consumers (producer : ModuleId)

inductive Answer where
  | done
  | flag (b : Bool)
  | stream (s : Option Stream)
  | keys (ks : List StreamKey)
  | modules (ids : List ModuleId)
deriving DecidableEq

def locate (r : Streams) (k : StreamKey) : Spot r.list.length :=
  search (fun s => s.key.compare k) r.list

def lookUp (r : Streams) (k : StreamKey) : Option Stream :=
  match r.locate k with
  | .held i => some (r.list.get i)
  | .gap _ => none

/-- Meets a request. A key that is registered already is refused, as is a user of an unknown one. -/
def serve (r : Streams) : Request → Streams × Answer
  | .register k fromProcessor =>
    match r.locate k with
    | .held _ => (r, .flag false)
    | .gap i => (⟨r.list.insertIdx i { key := k, fromProcessor }⟩, .flag true)
  | .find k => (r, .stream (r.lookUp k))
  | .has k => (r, .flag (r.lookUp k).isSome)
  | .addUser k user =>
    match r.locate k with
    | .held i => (⟨r.list.modify i fun s => { s with users := s.users ++ [user] }⟩, .flag true)
    | .gap _ => (r, .flag false)
  | .prune => (r.prune, .keys r.unused)
  | .hasFrom producer => (r, .flag (r.hasFrom producer))
  | .reorder order => (r.reorder order, .done)
  | .consumers producer => (r, .modules (r.consumers producer))

def inTurn {σ : Type} (serve : σ → Request → σ × Answer) (s : σ) : List Request → σ × List Answer
  | [] => (s, [])
  | q :: qs =>
    let (s, answer) := serve s q
    let (s, answers) := inTurn serve s qs
    (s, answer :: answers)

end Streams
end EventFlow

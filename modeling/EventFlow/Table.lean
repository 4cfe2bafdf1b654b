/-!
Association lists in strictly ascending key order. `put` keeps the order, so two tables with the
same entries are the same list.
-/

namespace EventFlow

abbrev Table (κ α : Type) := List (κ × α)

namespace Table

variable {κ α : Type}

def put [LT κ] [DecidableLT κ] (k : κ) (a : α) : Table κ α → Table κ α
  | [] => [(k, a)]
  | (l, b) :: t =>
    if k < l then (k, a) :: (l, b) :: t
    else if l < k then (l, b) :: put k a t
    else (k, a) :: t

def value? [DecidableEq κ] (t : Table κ α) (k : κ) : Option α :=
  (t.find? (fun e => decide (e.1 = k))).map (·.2)

def has [DecidableEq κ] (t : Table κ α) (k : κ) : Bool := (t.value? k).isSome

/-- Sets the value of a key that has none. -/
def putNew [LT κ] [DecidableLT κ] [DecidableEq κ] (k : κ) (a : α) (t : Table κ α) : Table κ α :=
  if t.has k then t else t.put k a

def erase [DecidableEq κ] (t : Table κ α) (k : κ) : Table κ α := t.filter fun e => decide (e.1 ≠ k)

def keys (t : Table κ α) : List κ := t.map (·.1)

def ofList [LT κ] [DecidableLT κ] (entries : List (κ × α)) : Table κ α :=
  entries.foldl (fun t e => put e.1 e.2 t) []

end Table
end EventFlow

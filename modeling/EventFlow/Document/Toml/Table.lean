import EventFlow.Document.Node

/-!
The tables of a TOML document while it is read. How a table came into being decides who may add to
it: a header may complete a table that longer headers only implied, dotted keys may add to tables
that dotted keys made, and what is written as one value is closed.
-/

namespace EventFlow.Toml

inductive Origin where
  /-- The document itself, an element of an array of tables, or a table with a header. -/
  | header
  /-- A longer header passes through it. -/
  | implied
  | dottedKey
deriving DecidableEq, Inhabited

inductive Item where
  | value (n : Node)
  | table (origin : Origin) (fields : List (String × Item))
  /-- An array of tables, the last one first. -/
  | tables (elements : List (List (String × Item)))
deriving Inhabited

abbrev Fields := List (String × Item)

namespace Fields

def get? (fs : Fields) (k : String) : Option Item := List.lookup k fs

def set (k : String) (item : Item) : Fields → Fields
  | [] => [(k, item)]
  | (l, i) :: fs => if l = k then (k, item) :: fs else (l, i) :: set k item fs

/-- Changes the table at the end of a path, through the last elements of arrays of tables. Missing
tables are made on the way. -/
def within (dotted : Bool) (f : Origin → Fields → Option Fields) :
    List String → Origin → Fields → Option Fields
  | [], origin, fs => f origin fs
  | k :: path, _, fs =>
    match fs.get? k with
    | none =>
      let origin := if dotted then Origin.dottedKey else .implied
      (within dotted f path origin []).map fun inner => fs.set k (.table origin inner)
    | some (.value _) => none
    | some (.tables []) => none
    | some (.tables (last :: others)) =>
      (within dotted f path .header last).map fun inner => fs.set k (.tables (inner :: others))
    | some (.table origin inner) =>
      if dotted ∧ origin = .header then none
      else (within dotted f path origin inner).map fun inner => fs.set k (.table origin inner)

/-- Adds a value under a dotted key. Without dots it goes into a table that dotted keys did not
make, and with dots into one that they made. -/
def addValue (path : List String) (k : String) (n : Node) (origin : Origin) (fs : Fields) :
    Option Fields :=
  within true
    (fun origin fs =>
      if decide (origin = .dottedKey) = path.isEmpty then none
      else if (fs.get? k).isSome then none
      else some (fs.set k (.value n)))
    path origin fs

def openTable (path : List String) (k : String) : Fields → Option Fields :=
  within false
    (fun _ fs =>
      match fs.get? k with
      | none => some (fs.set k (.table .header []))
      | some (.table .implied inner) => some (fs.set k (.table .header inner))
      | some _ => none)
    path .header

def openElement (path : List String) (k : String) : Fields → Option Fields :=
  within false
    (fun _ fs =>
      match fs.get? k with
      | none => some (fs.set k (.tables [[]]))
      | some (.tables elements) => some (fs.set k (.tables ([] :: elements)))
      | some _ => none)
    path .header

end Fields

mutual

def Item.node : Item → Node
  | .value n => n
  | .table _ fs => .table (fieldNodes fs)
  | .tables elements => .list (elementNodes elements).reverse

def fieldNodes : List (String × Item) → List (String × Node)
  | [] => []
  | (k, i) :: fs => (k, i.node) :: fieldNodes fs

def elementNodes : List (List (String × Item)) → List Node
  | [] => []
  | fs :: elements => .table (fieldNodes fs) :: elementNodes elements

end
end EventFlow.Toml

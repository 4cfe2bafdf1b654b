import EventFlow.Document.Json

/-!
What a document says, in whatever format it is written.
-/

namespace EventFlow

inductive Node where
  | null
  | bool (b : Bool)
  | int (n : Int)
  | float (f : Float)
  | text (s : String)
  | list (items : List Node)
  | table (fields : List (String × Node))
  /-- A number too large for a double, or a text with half a surrogate pair. -/
  | unusable
deriving Inhabited

namespace Json

mutual

def node : Json → Node
  | .null => .null
  | .bool b => .bool b
  | .number n =>
    match n.scalar? with
    | some (.int i) => .int i
    | some (.float f) => .float f
    | none => .unusable
  | .string (some s) => .text s
  | .string none => .unusable
  | .array js => .list (nodes js)
  | .object fs =>
    match fieldNodes fs with
    | some fs => .table fs
    | none => .unusable

def nodes : List Json → List Node
  | [] => []
  | j :: js => node j :: nodes js

def fieldNodes : List (Option String × Json) → Option (List (String × Node))
  | [] => some []
  | (none, _) :: _ => none
  | (some k, j) :: fs => (fieldNodes fs).map ((k, node j) :: ·)

end

mutual

/-- A float that is not finite becomes null. -/
def ofNode : Node → Json
  | .null => .null
  | .bool b => .bool b
  | .int n => ofInt n
  | .float f => if Decimal.isNaN f || Decimal.isInfinite f then .null else .number (.ofFloat f)
  | .text s => ofString s
  | .list ns => .array (ofNodes ns)
  | .table fs => .object (ofFields fs)
  | .unusable => .null

def ofNodes : List Node → List Json
  | [] => []
  | n :: ns => ofNode n :: ofNodes ns

def ofFields : List (String × Node) → List (Option String × Json)
  | [] => []
  | (k, n) :: fs => (some k, ofNode n) :: ofFields fs

end
end Json
end EventFlow

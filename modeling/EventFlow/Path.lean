/-!
The paths of files, as text with parts between slashes.
-/

namespace EventFlow.Path

def between (c : Char) (s : String) : List String := (s.toList.splitOn c).map String.ofList

def pieces (path : String) : List String := between '/' path

/-- The parts that lead somewhere: no empty ones, and none that stand for the place itself. -/
def parts (path : String) : List String := (pieces path).filter fun p => p != "" && p != "."

def isAbsolute (path : String) : Bool := path.startsWith "/"

def asksDirectory (path : String) : Bool :=
  match (pieces path).getLast? with
  | some "" => true
  | some "." => true
  | _ => false

/-- The last part, unless it leads upwards. -/
def fileName? (path : String) : Option String :=
  match (parts path).getLast? with
  | some ".." => none
  | name => name

def extension? (path : String) : Option String :=
  match (fileName? path).map fun n => (between '.' n).reverse with
  | some (last :: rest) =>
    if rest.isEmpty || rest == [""] then none else some last
  | _ => none

def join (base path : String) : String :=
  if isAbsolute path then path
  else if base == "" || base.endsWith "/" then base ++ path
  else base ++ "/" ++ path

end EventFlow.Path

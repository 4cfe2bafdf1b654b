import EventFlow.Document.Node
import EventFlow.Path

/-!
The formats of configuration files. How a document is written in them, and read, is for others to say.
-/

namespace EventFlow

inductive Format where
  | json
  | toml
deriving DecidableEq, Inhabited

namespace Format

/-- Files are TOML unless their names end in `.json`, in whatever case. -/
def ofPath (path : String) : Format :=
  if (Path.extension? path).any fun e => e.map Char.toLower == "json" then json else toml

/-- Whether a list that stands for a record must not hold more than its fields. -/
def isExact : Format → Bool
  | json => true
  | toml => false

end Format

class Formats where
  read? : Format → String → Option Node
  write? : Format → Node → Option String

end EventFlow

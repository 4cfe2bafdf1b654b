import EventFlow.Config.Basic
import EventFlow.Path
import EventFlow.Table

/-!
A tree of files as a value. All paths start at its root.
-/

namespace EventFlow

abbrev Place := List String

structure Files where
  directories : List Place := []
  /-- What files hold; `none` stands for bytes that are no text. -/
  contents : List (Place × Option String) := []
deriving DecidableEq, Inhabited

inductive Entry where
  | directory
  | file (content : Option String)
deriving DecidableEq

namespace Files

def entry? (fs : Files) (p : Place) : Option Entry :=
  if p.isEmpty ∨ fs.directories.contains p then some .directory
  else (fs.contents.lookup p).map .file

def descend (p : Place) (part : String) : Place :=
  if part = ".." then p.dropLast else p ++ [part]

/-- Where the parts of a path lead. All but the last of them have to lead to directories. -/
def walk (fs : Files) : Place → List String → Except FileError Place
  | p, [] => .ok p
  | p, part :: parts =>
    match fs.entry? p with
    | none => .error .missing
    | some (.file _) => .error .notDirectory
    | some .directory => walk fs (descend p part) parts

def read (fs : Files) (path : String) : Except FileError String :=
  if path.isEmpty then .error .missing
  else match fs.walk [] (Path.parts path) with
    | .error e => .error e
    | .ok p =>
      match fs.entry? p with
      | none => .error .missing
      | some .directory => .error .directory
      | some (.file content) =>
        if Path.asksDirectory path then .error .notDirectory
        else match content with
          | none => .error .notText
          | some text => .ok text

def makeDirectories (fs : Files) : Place → List String → Except FileError Files
  | _, [] => .ok fs
  | p, part :: parts =>
    let p := descend p part
    match fs.entry? p with
    | some .directory => makeDirectories fs p parts
    | some (.file _) => .error .notDirectory
    | none => makeDirectories { fs with directories := p :: fs.directories } p parts

def leadsSomewhere (fs : Files) (parts : List String) : Bool :=
  match fs.walk [] parts with
  | .ok p => (fs.entry? p).isSome
  | .error _ => false

def put (fs : Files) (p : Place) (content : Option String) : Files :=
  { fs with contents := (p, content) :: fs.contents.filter fun f => f.1 != p }

def write (fs : Files) (path : String) (text : String) : Except FileError Files :=
  match fs.walk [] (Path.parts path) with
  | .error e => .error e
  | .ok p =>
    match fs.entry? p with
    | some .directory => .error .directory
    | some (.file _) =>
      if Path.asksDirectory path then .error .notDirectory else .ok (fs.put p (some text))
    | none =>
      if path.endsWith "/" then .error .directory
      else if Path.asksDirectory path then .error .missing
      else if fs.leadsSomewhere (Path.parts path).dropLast then .ok (fs.put p (some text))
      else .error .missing

def withDirectory (fs : Files) (parts : List String) : Files :=
  match fs.makeDirectories [] parts with
  | .ok fs => fs
  | .error _ => fs

def ofList (directories : List String) (files : List (String × Option String)) : Files :=
  let start : Files := directories.foldl (fun fs d => fs.withDirectory (Path.parts d)) {}
  files.foldl (fun fs f =>
    let parts := Path.parts f.1
    (fs.withDirectory parts.dropLast).put parts f.2) start

end Files
end EventFlow

import EventFlow.Document.Toml.Number
import EventFlow.Document.Toml.Table
import EventFlow.Document.Toml.Text

/-!
Reading a TOML document, line by line. The document is a tree of tables; a header says where the
lines after it go.
-/

namespace EventFlow.Toml

def skipComment (cs : List Char) : List Char := cs.dropWhile isPlain

def skipGap : (fuel : Nat) → List Char → List Char
  | 0, cs => cs
  | fuel + 1, cs =>
    match skipSpaces cs with
    | '#' :: r => skipGap fuel (skipComment r)
    | r =>
      match lineBreak? r with
      | some rest => skipGap fuel rest
      | none => r

def readWord (word : String) (b : Bool) (cs : List Char) : Option (Node × List Char) :=
  (wordRest? word cs).map fun rest => (.bool b, rest)

mutual

/-- Reads a value below `depth` arrays and inline tables. The readers of values, items and pairs
need no more `fuel` than the length of the text that they read. -/
def readValue : (fuel depth : Nat) → List Char → Option (Node × List Char)
  | 0, _, _ => none
  | fuel + 1, depth, cs =>
    match cs with
    | [] => none
    | '[' :: r =>
      if depthLimit ≤ depth then none
      else
        match skipGap r.length r with
        | ']' :: rest => some (.list [], rest)
        | r => (readItems fuel (depth + 1) r).map fun a => (.list a.1, a.2)
    | '\x7b' :: r =>
      if depthLimit ≤ depth then none
      else
        match skipSpaces r with
        | '\x7d' :: rest => some (.table [], rest)
        | r => (readPairs fuel (depth + 1) [] r).map fun t => (.table (fieldNodes t.1), t.2)
    | 't' :: _ => readWord "true" true cs
    | 'f' :: _ => readWord "false" false cs
    | '"' :: _ => (readString cs).map fun s => (.text s.1, s.2)
    | '\'' :: _ => (readString cs).map fun s => (.text s.1, s.2)
    | _ => readNumber cs

def readItems : (fuel depth : Nat) → List Char → Option (List Node × List Char)
  | 0, _, _ => none
  | fuel + 1, depth, cs => do
    let (n, rest) ← readValue fuel depth cs
    match skipGap rest.length rest with
    | ']' :: r => pure ([n], r)
    | ',' :: r =>
      match skipGap r.length r with
      | ']' :: r => pure ([n], r)
      | r =>
        let (ns, rest) ← readItems fuel depth r
        pure (n :: ns, rest)
    | _ => none

def readPairs : (fuel depth : Nat) → Fields → List Char → Option (Fields × List Char)
  | 0, _, _, _ => none
  | fuel + 1, depth, fs, cs => do
    let (path, k, rest) ← readKey cs
    let '=' :: r := rest | none
    let (n, rest) ← readValue fuel depth (skipSpaces r)
    let fs ← Fields.addValue path k n .header fs
    match skipSpaces rest with
    | '\x7d' :: r => pure (fs, r)
    | ',' :: r => readPairs fuel depth fs r
    | _ => none

end

def lineEnd? (cs : List Char) : Option (List Char) :=
  let rest := match skipSpaces cs with
    | '#' :: r => skipComment r
    | r => r
  if rest.isEmpty then some [] else lineBreak? rest

def addUnder (header path : List String) (k : String) (n : Node) (root : Fields) : Option Fields :=
  Fields.within false (Fields.addValue path k n) header .header root

/-- Reads what stands on one line: the header that holds from there on, the tables and the rest. -/
def readLine (header : List String) (root : Fields) (cs : List Char) :
    Option (List String × Fields × List Char) :=
  match cs with
  | '[' :: '[' :: r => do
    let (path, k, rest) ← readKey r
    let ']' :: ']' :: rest := rest | none
    let rest ← lineEnd? rest
    let root ← Fields.openElement path k root
    pure (path ++ [k], root, rest)
  | '[' :: r => do
    let (path, k, rest) ← readKey r
    let ']' :: rest := rest | none
    let rest ← lineEnd? rest
    let root ← Fields.openTable path k root
    pure (path ++ [k], root, rest)
  | cs => do
    let (path, k, rest) ← readKey cs
    let '=' :: r := rest | none
    let (n, rest) ← readValue r.length 0 (skipSpaces r)
    let rest ← lineEnd? rest
    let root ← addUnder header path k n root
    pure (header, root, rest)

def readAll : (fuel : Nat) → (header : List String) → Fields → List Char → Option Fields
  | 0, _, _, _ => none
  | fuel + 1, header, root, cs =>
    match skipGap cs.length cs with
    | [] => some root
    | cs => do
      let (header, root, rest) ← readLine header root cs
      readAll fuel header root rest

/-- The document that a text consists of. A byte order mark in front of it does not count. -/
def parse? (text : String) : Option Node :=
  let cs := match text.toList with
    | '\ufeff' :: r => r
    | r => r
  (readAll (cs.length + 1) [] [] cs).map fun root => .table (fieldNodes root)

end EventFlow.Toml

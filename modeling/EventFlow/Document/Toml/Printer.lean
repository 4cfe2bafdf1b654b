import EventFlow.Document.Toml.Text
import EventFlow.Document.Node

/-!
Writing a TOML document: the values of a table first, then a section for every table in it. A text
is written in the plainest way that can hold it.
-/

namespace EventFlow.Toml

/-! ### Texts and keys -/

def longestRun (c : Char) : (current : Nat) → List Char → Nat
  | n, [] => n
  | n, d :: r => if d = c then longestRun c (n + 1) r else max n (longestRun c 0 r)

def isControl (allowBreak : Bool) (c : Char) : Bool :=
  !isPlain c && !(allowBreak && c == '\n')

def upperHex (n : Nat) : List Char :=
  (Nat.toDigits 16 n).map Char.toUpper

def codeText (c : Char) : String :=
  let ds := upperHex c.toNat
  "\\u" ++ String.ofList (List.replicate (4 - ds.length) '0' ++ ds)

def escapeText (c : Char) : String :=
  if c = '\\' then "\\\\"
  else if c = '\x08' then "\\b"
  else if c = '\t' then "\\t"
  else if c = '\n' then "\\n"
  else if c = '\x0c' then "\\f"
  else if c = '\r' then "\\r"
  else if isPlain c then c.toString
  else codeText c

/-- Escapes what a string between quotes cannot hold. Up to `allowed` quotes in a row, of which
`seen` have just passed, stay as they are. -/
def escaped (lines : Bool) (allowed : Nat) : (seen : Nat) → List Char → String
  | _, [] => ""
  | seen, c :: r =>
    if c = '"' then
      if allowed ≤ seen then "\\\"" ++ escaped lines allowed 0 r
      else "\"" ++ escaped lines allowed (seen + 1) r
    else if lines && c == '\n' then "\n" ++ escaped lines allowed 0 r
    else escapeText c ++ escaped lines allowed 0 r

def basic (cs : List Char) : String := "\"" ++ escaped false 0 0 cs ++ "\""

def literal (cs : List Char) : String := "'" ++ String.ofList cs ++ "'"

def opening (cs : List Char) : String := if cs.contains '\n' then "\n" else ""

def basicLines (cs : List Char) : String :=
  "\"\"\"" ++ opening cs ++ escaped true 2 0 cs ++ "\"\"\""

def literalLines (cs : List Char) : String :=
  "'''" ++ opening cs ++ String.ofList cs ++ "'''"

/-- Quotes if nothing needs an escape, else apostrophes if they can hold the text, else three of
either, and escapes only where nothing else will do. -/
def stringText (s : String) : String :=
  let cs := s.toList
  let control := cs.any (isControl true)
  let broken := cs.contains '\n'
  let quotes := longestRun '"' 0 cs
  let apostrophes := longestRun '\'' 0 cs
  if !control && !cs.contains '\\' && quotes == 0 && !broken then basic cs
  else if !control && apostrophes == 0 && !broken then literal cs
  else if !control && !cs.contains '\\' && quotes ≤ 2 then basicLines cs
  else if !control && apostrophes ≤ 2 then literalLines cs
  else if broken then basicLines cs
  else basic cs

def keyText (k : String) : String :=
  let cs := k.toList
  let control := cs.any (isControl false)
  if !cs.isEmpty && cs.all isBare then k
  else if !control && !cs.contains '\\' && !cs.contains '"' then basic cs
  else if !control && !cs.contains '\'' then literal cs
  else basic cs

/-! ### Values and sections -/

def floatText (f : Float) : String :=
  if Decimal.isNaN f then "nan"
  else if Decimal.isWhole f then Decimal.plain f ++ ".0"
  else Decimal.plain f

def valueText? : Node → Option String
  | .bool b => some (if b then "true" else "false")
  | .int n =>
    if -9223372036854775808 ≤ n ∧ n ≤ 9223372036854775807 then some (toString n) else none
  | .float f => some (floatText f)
  | .text s => some (stringText s)
  | .list [] => some "[]"
  | _ => none

/-- What is written in sections of its own: a table, and a list of tables that holds any. -/
def isSection : Node → Bool
  | .table _ => true
  | .list (n :: ns) => (n :: ns).all fun n => match n with
    | .table _ => true
    | _ => false
  | _ => false

def valueLines? (fs : List (String × Node)) : Option (List String) :=
  (fs.filter fun f => !isSection f.2).mapM fun f =>
    (valueText? f.2).map fun v => keyText f.1 ++ " = " ++ v

def pathText (path : List String) : String := ".".intercalate (path.map keyText)

/-- The lines of a table with a header. A table that only holds others needs none. -/
def section? (path : List String) (fs : List (String × Node)) : Option (List (List String)) :=
  (valueLines? fs).map fun lines =>
    if lines.isEmpty && !fs.isEmpty then [] else [("[" ++ pathText path ++ "]") :: lines]

def elementSection? (path : List String) (fs : List (String × Node)) :
    Option (List (List String)) :=
  (valueLines? fs).map fun lines => [("[[" ++ pathText path ++ "]]") :: lines]

mutual

def sectionsOf? (path : List String) : Node → Option (List (List String))
  | .table fs => do
    let own ← section? path fs
    let inner ← fieldSections? path fs
    pure (own ++ inner)
  | .list ns => elementSections? path ns
  | _ => some []

def fieldSections? (path : List String) : List (String × Node) → Option (List (List String))
  | [] => some []
  | (k, n) :: fs => do
    let own ← if isSection n then sectionsOf? (path ++ [k]) n else some []
    let others ← fieldSections? path fs
    pure (own ++ others)

def elementSections? (path : List String) : List Node → Option (List (List String))
  | [] => some []
  | .table fs :: ns => do
    let own ← elementSection? path fs
    let inner ← fieldSections? path fs
    let others ← elementSections? path ns
    pure (own ++ inner ++ others)
  | _ :: _ => none

end

def blockText (lines : List String) : String := String.join (lines.map (· ++ "\n"))

/-- The text of a document, with a blank line between sections; `none` if something in it has no
written form. -/
def write? : Node → Option String
  | .table fs => do
    let own ← valueLines? fs
    let sections ← fieldSections? [] fs
    let blocks := if own.isEmpty then sections else own :: sections
    pure ("\n".intercalate (blocks.map blockText))
  | _ => none

end EventFlow.Toml

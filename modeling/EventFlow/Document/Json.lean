import EventFlow.Decimal.Text
import EventFlow.Text.Quoted

/-!
JSON documents. Reading keeps numbers and strings as they were written, so that a number out of
range or half a surrogate pair matters only to those who use it.
-/

namespace EventFlow

structure JsonNumber where
  negative : Bool := false
  whole : List Char
  fraction : List Char := []
  exponent : Option (Bool × List Char) := none
deriving DecidableEq, Inhabited

inductive Json where
  | null
  | bool (b : Bool)
  | number (n : JsonNumber)
  /-- `none` stands for a string with half a surrogate pair. -/
  | string (s : Option String)
  | array (items : List Json)
  | object (fields : List (Option String × Json))
deriving Inhabited

inductive Scalar where
  | int (n : Int)
  | float (f : Float)
deriving Inhabited

namespace JsonNumber

def wordLimit : Nat := 18446744073709551615

def gather : Nat → List Char → Nat × Nat
  | n, [] => (n, 0)
  | n, c :: r =>
    let next := 10 * n + (c.toNat - '0'.toNat)
    if wordLimit < next then (n, r.length + 1) else gather next r

/-- Divides by `10 ^ 308` as often as the exponent allows, then scales by what is left of it. -/
def scale : Nat → Float → Int → Option Float
  | 0, f, _ => some f
  | k + 1, f, e =>
    if e.natAbs ≤ 308 then
      if 0 ≤ e then
        let g := f * Decimal.toDouble 1 e
        if Decimal.isInfinite g then none else some g
      else some (f / Decimal.toDouble 1 (-e))
    else if Decimal.isZero f then some f
    else if 0 ≤ e then none
    else scale k (f / Decimal.toDouble 1 308) (e + 308)

def exponentLimit : Nat := 2147483647

/-- The double of a coefficient and an exponent. It is computed in doubles and need not be the
nearest one. -/
def toFloat? (negative : Bool) (coefficient : Nat) (start : Int) (exponent : Option (Bool × List Char)) :
    Option Float :=
  let sign (f : Float) : Float := if negative then -f else f
  let f := coefficient.toUInt64.toFloat
  match exponent with
  | none => (scale 10000000 f start).map sign
  | some (minus, ds) =>
    let e := Text.digitsValue ds
    if exponentLimit < e then
      if coefficient ≠ 0 ∧ !minus then none else some (sign 0)
    else
      let total := if minus then start - e else start + e
      (scale 10000000 f total).map sign

/-- An integer without fraction and exponent stays one if it fits in 64 bits; minus zero does
not. `none` when the number is too large for a double. -/
def scalar? (n : JsonNumber) : Option Scalar :=
  let (w, left) := gather 0 n.whole
  if n.fraction.isEmpty ∧ n.exponent.isNone ∧ left = 0 then
    if !n.negative then some (.int w)
    else if w = 0 ∨ Nat.pow 2 63 < w then some (.float (-(w.toUInt64.toFloat)))
    else some (.int (-(w : Int)))
  else
    let (c, skipped) := gather w n.fraction
    (toFloat? n.negative c (left - (n.fraction.length - skipped : Nat)) n.exponent).map .float

def ofInt (i : Int) : JsonNumber :=
  { negative := decide (i < 0), whole := Nat.toDigits 10 i.natAbs }

/-- Positional with a point from `1e-5` to below `1e16`, else with an exponent. -/
def ofFloat (f : Float) : JsonNumber :=
  let negative := Decimal.isNegative f
  if Decimal.isZero f then { negative, whole := ['0'], fraction := ['0'] }
  else
    let (ds, point) := Decimal.parts f .toEven
    let cs := ds.toList
    if (cs.length : Int) ≤ point ∧ point ≤ 16 then
      { negative, whole := cs ++ List.replicate (point - cs.length).toNat '0', fraction := ['0'] }
    else if 0 < point ∧ point ≤ 16 then
      { negative, whole := cs.take point.toNat, fraction := cs.drop point.toNat }
    else if -5 < point ∧ point ≤ 0 then
      { negative, whole := ['0'], fraction := List.replicate (-point).toNat '0' ++ cs }
    else
      { negative, whole := cs.take 1, fraction := cs.drop 1,
        exponent := some (decide (point - 1 < 0), Nat.toDigits 10 (point - 1).natAbs) }

def text (n : JsonNumber) : String :=
  let fraction := if n.fraction.isEmpty then "" else "." ++ String.ofList n.fraction
  let exponent := match n.exponent with
    | none => ""
    | some (minus, ds) => (if minus then "e-" else "e") ++ String.ofList ds
  (if n.negative then "-" else "") ++ String.ofList n.whole ++ fraction ++ exponent

end JsonNumber

namespace Json

/-! ### Reading -/

def skipBlanks : List Char → List Char :=
  List.dropWhile fun c => c == ' ' || c == '\n' || c == '\t' || c == '\r'

def digits (cs : List Char) : List Char × List Char := cs.span Char.isDigit

def readExponent (cs : List Char) : Option ((Bool × List Char) × List Char) :=
  let (minus, cs) : Bool × List Char := match cs with
    | '+' :: r => (false, r)
    | '-' :: r => (true, r)
    | r => (false, r)
  let (ds, rest) := digits cs
  if ds.isEmpty then none else some ((minus, ds), rest)

def readTail (negative : Bool) (whole cs : List Char) : Option (JsonNumber × List Char) := do
  let (fraction, cs) ← match cs with
    | '.' :: r =>
      let (ds, rest) := digits r
      if ds.isEmpty then none else some (ds, rest)
    | r => some ([], r)
  match cs with
  | 'e' :: r | 'E' :: r =>
    let (exponent, rest) ← readExponent r
    pure ({ negative, whole, fraction, exponent := some exponent }, rest)
  | r => pure ({ negative, whole, fraction }, r)

def readNumber (cs : List Char) : Option (JsonNumber × List Char) :=
  let (negative, cs) : Bool × List Char := match cs with
    | '-' :: r => (true, r)
    | r => (false, r)
  match digits cs with
  | ([], _) => none
  | ('0' :: _ :: _, _) => none
  | (whole, rest) => readTail negative whole rest

def unit? (a b c d : Char) : Option Nat := Text.baseValue? 16 [a, b, c, d]

def escape? : Char → Option Char
  | '"' => some '"'
  | '\\' => some '\\'
  | '/' => some '/'
  | 'b' => some '\x08'
  | 'f' => some '\x0c'
  | 'n' => some '\n'
  | 'r' => some '\r'
  | 't' => some '\t'
  | _ => none

def isHigh (u : Nat) : Bool := 0xD800 ≤ u && u < 0xDC00
def isLow (u : Nat) : Bool := 0xDC00 ≤ u && u < 0xE000

def push (c : Char) (s : Option (List Char)) : Option (List Char) := s.map (c :: ·)

def readString : List Char → Option (Option (List Char) × List Char)
  | [] => none
  | '"' :: r => some (some [], r)
  | '\\' :: 'u' :: a :: b :: c :: d :: '\\' :: 'u' :: e :: f :: g :: h :: r => do
    let u ← unit? a b c d
    if isHigh u then
      let v ← unit? e f g h
      let (s, rest) ← readString r
      if isLow v then
        pure (push (Char.ofNat (0x10000 + (u - 0xD800) * 1024 + (v - 0xDC00))) s, rest)
      else pure (none, rest)
    else
      let (s, rest) ← readString ('\\' :: 'u' :: e :: f :: g :: h :: r)
      pure (if isLow u then none else push (Char.ofNat u) s, rest)
  | '\\' :: 'u' :: a :: b :: c :: d :: r => do
    let u ← unit? a b c d
    let (s, rest) ← readString r
    pure (if isHigh u || isLow u then none else push (Char.ofNat u) s, rest)
  | '\\' :: c :: r => do
    let c ← escape? c
    let (s, rest) ← readString r
    pure (push c s, rest)
  | c :: r => do
    if c.toNat < 0x20 then none
    let (s, rest) ← readString r
    pure (push c s, rest)

def readWord (word : String) (j : Json) (cs : List Char) : Option (Json × List Char) :=
  if word.toList.isPrefixOf cs then some (j, cs.drop word.length) else none

mutual

/-- Reads a value that starts at the first character. The readers of values, items and fields need
no more `fuel` than the length of the text that they read. -/
def readValue : Nat → List Char → Option (Json × List Char)
  | 0, _ => none
  | fuel + 1, cs =>
    match cs with
    | '"' :: r => (readString r).map fun s => (.string (s.1.map String.ofList), s.2)
    | '[' :: r =>
      match skipBlanks r with
      | ']' :: rest => some (.array [], rest)
      | r => (readItems fuel r).map fun a => (.array a.1, a.2)
    | '\x7b' :: r =>
      match skipBlanks r with
      | '\x7d' :: rest => some (.object [], rest)
      | r => (readFields fuel r).map fun o => (.object o.1, o.2)
    | 't' :: _ => readWord "true" (.bool true) cs
    | 'f' :: _ => readWord "false" (.bool false) cs
    | 'n' :: _ => readWord "null" .null cs
    | _ => (readNumber cs).map fun n => (.number n.1, n.2)

def readItems : Nat → List Char → Option (List Json × List Char)
  | 0, _ => none
  | fuel + 1, cs => do
    let (j, rest) ← readValue fuel cs
    match skipBlanks rest with
    | ']' :: r => pure ([j], r)
    | ',' :: r =>
      let (js, rest) ← readItems fuel (skipBlanks r)
      pure (j :: js, rest)
    | _ => none

def readFields : Nat → List Char → Option (List (Option String × Json) × List Char)
  | 0, _ => none
  | fuel + 1, cs => do
    let '"' :: r := cs | none
    let (k, rest) ← readString r
    let ':' :: r := skipBlanks rest | none
    let (j, rest) ← readValue fuel (skipBlanks r)
    let field := (k.map String.ofList, j)
    match skipBlanks rest with
    | '\x7d' :: r => pure ([field], r)
    | ',' :: r =>
      let (fs, rest) ← readFields fuel (skipBlanks r)
      pure (field :: fs, rest)
    | _ => none

end

def parse? (text : String) : Option Json :=
  let cs := text.toList
  match readValue (cs.length + 1) (skipBlanks cs) with
  | some (j, rest) => if (skipBlanks rest).isEmpty then some j else none
  | none => none

/-! ### Writing -/

def ofInt (i : Int) : Json := .number (.ofInt i)

def ofNat (n : Nat) : Json := .number (.ofInt n)

def ofString (s : String) : Json := .string (some s)

def escapeChar (c : Char) : String :=
  if c = '"' then "\\\""
  else if c = '\\' then "\\\\"
  else if c = '\n' then "\\n"
  else if c = '\r' then "\\r"
  else if c = '\t' then "\\t"
  else if c = '\x08' then "\\b"
  else if c = '\x0c' then "\\f"
  else if c.toNat < 0x10 then "\\u000" ++ Text.hexDigits c.toNat
  else if c.toNat < 0x20 then "\\u00" ++ Text.hexDigits c.toNat
  else c.toString

def quoted (s : String) : String := "\"" ++ String.join (s.toList.map escapeChar) ++ "\""

def indent (d : Nat) : String := "\n" ++ "".pushn ' ' (2 * d)

mutual

/-- Two spaces of indentation for each level; empty arrays and objects on one line. -/
def prettyAt (d : Nat) : Json → String
  | .null => "null"
  | .bool b => if b then "true" else "false"
  | .number n => n.text
  | .string s => quoted (s.getD "")
  | .array [] => "[]"
  | .array (j :: js) => "[" ++ indent (d + 1) ++ prettyAt (d + 1) j ++ prettyItems d js ++ indent d ++ "]"
  | .object [] => "\x7b\x7d"
  | .object ((k, j) :: fs) =>
    "\x7b" ++ indent (d + 1) ++ quoted (k.getD "") ++ ": " ++ prettyAt (d + 1) j ++ prettyFields d fs ++
      indent d ++ "\x7d"

def prettyItems (d : Nat) : List Json → String
  | [] => ""
  | j :: js => "," ++ indent (d + 1) ++ prettyAt (d + 1) j ++ prettyItems d js

def prettyFields (d : Nat) : List (Option String × Json) → String
  | [] => ""
  | (k, j) :: fs =>
    "," ++ indent (d + 1) ++ quoted (k.getD "") ++ ": " ++ prettyAt (d + 1) j ++ prettyFields d fs

end

def pretty (j : Json) : String := prettyAt 0 j

mutual

def compact : Json → String
  | .null => "null"
  | .bool b => if b then "true" else "false"
  | .number n => n.text
  | .string s => quoted (s.getD "")
  | .array js => "[" ++ ",".intercalate (compactItems js) ++ "]"
  | .object fs => "\x7b" ++ ",".intercalate (compactFields fs) ++ "\x7d"

def compactItems : List Json → List String
  | [] => []
  | j :: js => compact j :: compactItems js

def compactFields : List (Option String × Json) → List String
  | [] => []
  | (k, j) :: fs => (quoted (k.getD "") ++ ":" ++ compact j) :: compactFields fs

end
end Json
end EventFlow

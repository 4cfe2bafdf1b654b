import EventFlow.Decimal.Text
import EventFlow.Document.Node
import EventFlow.Text.Blank
import EventFlow.Text.Hex

/-!
The numbers, dates and times of TOML. A reader answers with what it has read and the rest.
-/

namespace EventFlow.Toml

/-- Digits after one another or with single underscores between them, without the underscores. -/
def readRun (ok : Char → Bool) : List Char → Option (List Char × List Char)
  | [] => some ([], [])
  | '_' :: c :: r => if ok c then (readRun ok r).map fun s => (c :: s.1, s.2) else none
  | c :: r =>
    if ok c then (readRun ok r).map fun s => (c :: s.1, s.2)
    else if c = '_' then none
    else some ([], c :: r)

def readDigits (ok : Char → Bool) : List Char → Option (List Char × List Char)
  | c :: r => if ok c then (readRun ok r).map fun s => (c :: s.1, s.2) else none
  | [] => none

def readSign : List Char → Bool × List Char
  | '+' :: r => (false, r)
  | '-' :: r => (true, r)
  | r => (false, r)

def readWhole : List Char → Option (List Char × List Char)
  | '0' :: r => some (['0'], r)
  | cs => readDigits Char.isDigit cs

def word? (n : Int) : Option Node :=
  if -9223372036854775808 ≤ n ∧ n ≤ 9223372036854775807 then some (.int n) else none

def readBased (base : Nat) (cs : List Char) : Option (Node × List Char) := do
  let (ds, rest) ← readDigits (fun c => (Text.hexValue? c).any (· < base)) cs
  let n ← Text.baseValue? base ds
  let node ← word? n
  pure (node, rest)

def readInt : List Char → Option (Node × List Char)
  | '0' :: 'x' :: r => readBased 16 r
  | '0' :: 'o' :: r => readBased 8 r
  | '0' :: 'b' :: r => readBased 2 r
  | cs => do
    let (minus, r) := readSign cs
    let (ds, rest) ← readWhole r
    let n : Int := Text.digitsValue ds
    let node ← word? (if minus then -n else n)
    pure (node, rest)

def wordRest? (word : String) (cs : List Char) : Option (List Char) :=
  if word.toList.isPrefixOf cs then some (cs.drop word.length) else none

def readExponent : List Char → Option (Int × List Char)
  | 'e' :: r | 'E' :: r => do
    let (minus, r) := readSign r
    let (ds, rest) ← readDigits Char.isDigit r
    let n : Int := Text.digitsValue ds
    pure (if minus then -n else n, rest)
  | _ => none

/-- A number with a point, an exponent or both. One that is too large is refused, unless it is
negative. -/
def readDecimal (cs : List Char) : Option (Node × List Char) := do
  let (minus, r) := readSign cs
  let (whole, r) ← readWhole r
  let (fraction, r) ← match r with
    | '.' :: r => (readDigits Char.isDigit r).map fun s => (some s.1, s.2)
    | r => some (none, r)
  let (exponent, r) := match readExponent r with
    | some (e, rest) => (some e, rest)
    | none => (none, r)
  if fraction.isNone ∧ exponent.isNone then none
  let ds := fraction.getD []
  let f := Decimal.toDouble (Text.digitsValue (whole ++ ds)) (exponent.getD 0 - ds.length)
  if Decimal.isInfinite f ∧ !minus then none
  pure (.float (if minus then -f else f), r)

def notANumber : Float := Float.ofBits 0x7FF8000000000000

def readSpecial (cs : List Char) : Option (Node × List Char) :=
  let (minus, r) := readSign cs
  match wordRest? "inf" r, wordRest? "nan" r with
  | some rest, _ => some (.float (if minus then -Decimal.infinity else Decimal.infinity), rest)
  | none, some rest => some (.float notANumber, rest)
  | none, none => none

/-! ### Dates and times -/

def readTwo (lo hi : Nat) : List Char → Option (Nat × List Char)
  | a :: b :: r =>
    let n := Text.digitsValue [a, b]
    if a.isDigit ∧ b.isDigit ∧ lo ≤ n ∧ n ≤ hi then some (n, r) else none
  | _ => none

def isLeapYear (year : Nat) : Bool :=
  year % 4 == 0 && (year % 100 != 0 || year % 400 == 0)

def daysIn (year month : Nat) : Nat :=
  if month = 2 then (if isLeapYear year then 29 else 28)
  else if [4, 6, 9, 11].contains month then 30
  else 31

def padded (width n : Nat) : String :=
  let ds := Nat.toDigits 10 n
  String.ofList (List.replicate (width - ds.length) '0' ++ ds)

def readDate : List Char → Option (String × List Char)
  | a :: b :: c :: d :: '-' :: r => do
    if !([a, b, c, d].all Char.isDigit) then none
    let year := Text.digitsValue [a, b, c, d]
    let (month, r) ← readTwo 1 12 r
    let '-' :: r := r | none
    let (day, r) ← readTwo 1 31 r
    if daysIn year month < day then none
    pure (s!"{padded 4 year}-{padded 2 month}-{padded 2 day}", r)
  | _ => none

/-- Nine digits of a fraction count; zeros at its end are dropped. -/
def fractionText (ds : List Char) : String :=
  match ((ds.take 9).reverse.dropWhile (· == '0')).reverse with
  | [] => ""
  | ds => "." ++ String.ofList ds

def readTime (cs : List Char) : Option (String × List Char) := do
  let (hour, r) ← readTwo 0 23 cs
  let ':' :: r := r | none
  let (minute, r) ← readTwo 0 59 r
  let ':' :: r := r | none
  let (second, r) ← readTwo 0 60 r
  let (fraction, r) := match r with
    | '.' :: s =>
      match s.span Char.isDigit with
      | ([], _) => ("", r)
      | (ds, rest) => (fractionText ds, rest)
    | r => ("", r)
  pure (s!"{padded 2 hour}:{padded 2 minute}:{padded 2 second}" ++ fraction, r)

def readOffset : List Char → Option (String × List Char)
  | 'Z' :: r => some ("Z", r)
  | 'z' :: r => some ("Z", r)
  | cs => do
    let (minus, r) := readSign cs
    let (hour, r) ← readTwo 0 23 r
    let ':' :: r := r | none
    let (minute, r) ← readTwo 0 59 r
    let sign := if minus && hour + minute != 0 then "-" else "+"
    pure (s!"{sign}{padded 2 hour}:{padded 2 minute}", r)

def momentKey : String := "$__toml_private_datetime"

def moment (text : String) : Node := .table [(momentKey, .text text)]

def isDateSeparator (c : Char) : Bool := c == 'T' || c == 't' || c == ' '

def readMoment (cs : List Char) : Option (Node × List Char) :=
  match readDate cs with
  | none => (readTime cs).map fun t => (moment t.1, t.2)
  | some (date, rest) =>
    match rest with
    | [] => some (moment date, [])
    | c :: r =>
      if isDateSeparator c then
        match readTime r with
        | none => some (moment date, c :: r)
        | some (time, rest) =>
          let (offset, rest) := (readOffset rest).getD ("", rest)
          some (moment (date ++ "T" ++ time ++ offset), rest)
      else some (moment date, c :: r)

def readNumber (cs : List Char) : Option (Node × List Char) :=
  (readMoment cs).or ((readDecimal cs).or ((readSpecial cs).or (readInt cs)))

end EventFlow.Toml

import EventFlow.Script.Syntax
import EventFlow.Text.Blank
import EventFlow.Text.Hex

/-!
The tokens of a script. A minus sign in front of a digit belongs to the number unless the token
before it can end an operand.
-/

namespace EventFlow.Script

inductive Token where
  | value (v : Value)
  | name (s : String)
  | keyword (s : String)
  | symbol (s : String)
deriving Inhabited

structure Placed where
  token : Token
  pos : Position
deriving Inhabited

namespace Token

def keywords : List String :=
  ["true", "false", "let", "const", "if", "else", "while", "loop", "break", "continue", "return",
    "throw", "fn"]

def reserved : List String :=
  ["do", "until", "for", "in", "switch", "import", "export", "private", "try", "catch", "this",
    "global", "as", "is_shared", "eval", "Fn", "call", "curry", "var", "static", "shared", "goto",
    "match", "case", "public", "protected", "new", "use", "with", "is", "module", "package",
    "super", "thread", "spawn", "go", "await", "async", "sync", "yield", "default", "void", "null",
    "nil", "begin", "end", "exit", "unless", "each", "then", "interface", "struct", "enum", "class",
    "abstract", "extends", "implements", "type", "where", "func", "function"]

def symbols : List String :=
  ["**=", "===", "!==", "...", "**", "==", "!=", "<=", ">=", "&&", "||", "+=", "-=", "*=", "/=",
    "%=", "++", "--", "->", "<-", "=>", ":=", "::", "..", "+", "-", "*", "/", "%", "!", "<", ">",
    "=", "(", ")", "[", "]", ",", ";"]

/-- Whether an operand may end here, so that a minus sign after it subtracts. -/
def endsOperand : Token → Bool
  | value _ => true
  | name _ => true
  | keyword s => !(["if", "while", "return", "throw"].contains s)
  | symbol s => [")", "]", "\x7d", "!", "++", "--"].contains s

end Token

namespace Position

def next (p : Position) (c : Char) : Position :=
  if c = '\n' then ⟨p.line + 1, 1⟩ else { p with column := p.column + 1 }

def skip (p : Position) (cs : List Char) : Position := cs.foldl next p

end Position

namespace Token

def skipComment : (depth : Nat) → Position → List Char → List Char × Position
  | _, p, [] => ([], p)
  | d, p, '*' :: '/' :: r =>
    let p := (p.next '*').next '/'
    if d ≤ 1 then (r, p) else skipComment (d - 1) p r
  | d, p, '/' :: '*' :: r => skipComment (d + 1) ((p.next '/').next '*') r
  | d, p, c :: r => skipComment d (p.next c) r

def isNameStart (c : Char) : Bool := c.isAlpha || c == '_'

def isNamePart (c : Char) : Bool := c.isAlphanum || c == '_'

/-! ### Numbers -/

def intLimit : Nat := 9223372036854775807

/-- An integer; one that does not fit in 64 bits becomes a float. -/
def ofDigits (negative : Bool) (ds : List Char) : Value :=
  let n := Text.digitsValue ds
  if negative then
    if n ≤ intLimit + 1 then .int (-(n : Int)) else .float (-(Decimal.toDouble n 0))
  else if n ≤ intLimit then .int n
  else .float (Decimal.toDouble n 0)

def isDigitPart (c : Char) : Bool := c.isDigit || c == '_'

def withoutGaps (cs : List Char) : List Char := cs.filter (· != '_')

def readExponent (cs : List Char) : Option (Int × List Char) :=
  let (sign, ds, rest) : Int × List Char × List Char := match cs with
    | '-' :: r => (-1, r.takeWhile isDigitPart, r.dropWhile isDigitPart)
    | '+' :: r => (1, r.takeWhile isDigitPart, r.dropWhile isDigitPart)
    | r => (1, r.takeWhile isDigitPart, r.dropWhile isDigitPart)
  if (withoutGaps ds).isEmpty then none
  else some (sign * Text.digitsValue (withoutGaps ds), rest)

def pointEnds : List Char → Bool
  | [] => false
  | c :: _ => !(isNameStart c || c == '.')

def readNumber (negative : Bool) (cs : List Char) : Option (Value × List Char) :=
  let based (base : Nat) (r : List Char) : Option (Value × List Char) := do
    let ds := withoutGaps (r.takeWhile fun c => (Text.hexValue? c).isSome || c == '_')
    if ds.isEmpty then none
    let n ← Text.baseValue? base ds
    if intLimit * 2 + 1 < n then none
    let signed : Int := if n ≤ intLimit then n else (n : Int) - 18446744073709551616
    pure (.int (if negative then -signed else signed),
      r.dropWhile fun c => (Text.hexValue? c).isSome || c == '_')
  match cs with
  | '0' :: 'x' :: r => based 16 r
  | '0' :: 'X' :: r => based 16 r
  | '0' :: 'o' :: r => based 8 r
  | '0' :: 'b' :: r => based 2 r
  | _ =>
    let whole := withoutGaps (cs.takeWhile isDigitPart)
    let rest := cs.dropWhile isDigitPart
    let (fraction?, rest) : Option (List Char) × List Char := match rest with
      | '.' :: r =>
        match r.takeWhile isDigitPart with
        | [] => if pointEnds r then (some [], r) else (none, rest)
        | '_' :: _ => (none, rest)
        | ds => (some (withoutGaps ds), r.dropWhile isDigitPart)
      | r => (none, r)
    let (exponent?, rest) : Option Int × List Char := match rest with
      | 'e' :: r =>
        match readExponent r with
        | some (e, r) => (some e, r)
        | none => (none, rest)
      | r => (none, r)
    match fraction?, exponent? with
    | none, none => some (ofDigits negative whole, rest)
    | _, _ =>
      let fraction := fraction?.getD []
      let f := Decimal.toDouble (Text.digitsValue (whole ++ fraction))
        (exponent?.getD 0 - fraction.length)
      some (.float (if negative then -f else f), rest)

/-! ### Texts -/

def readCode (digits : Nat) (cs : List Char) : Option (Char × List Char) := do
  let ds := cs.take digits
  if ds.length < digits then none
  let n ← Text.baseValue? 16 ds
  if n.isValidChar then pure (Char.ofNat n, cs.drop digits) else none

def readEscape : List Char → Option (Char × List Char)
  | 't' :: r => some ('\t', r)
  | 'n' :: r => some ('\n', r)
  | 'r' :: r => some ('\r', r)
  | '\\' :: r => some ('\\', r)
  | '"' :: r => some ('"', r)
  | '\'' :: r => some ('\'', r)
  | 'x' :: r => readCode 2 r
  | 'u' :: r => readCode 4 r
  | 'U' :: r => readCode 8 r
  | _ => none

/-- Reads up to a closing mark on the same line. Every call has less text before it than the first
argument. -/
def readText (close : Char) : Nat → List Char → Option (List Char × List Char)
  | 0, _ => none
  | fuel + 1, cs =>
    match cs with
    | [] => none
    | c :: r =>
      if c = close then
        match r with
        | d :: s =>
          if d = close then (readText close fuel s).map fun t => (c :: t.1, t.2) else some ([], r)
        | [] => some ([], r)
      else if c = '\\' then do
        let (d, r) ← readEscape r
        let (t, r) ← readText close fuel r
        pure (d :: t, r)
      else if c = '\n' then none
      else (readText close fuel r).map fun t => (c :: t.1, t.2)

def ofWord (s : String) : Option Token :=
  if s = "true" then some (.value (.bool true))
  else if s = "false" then some (.value (.bool false))
  else if keywords.contains s then some (.keyword s)
  else if reserved.contains s then none
  else if s.toList.all (· == '_') then none
  else some (.name s)

def readToken (unary : Bool) (cs : List Char) : Option (Token × List Char) :=
  match cs with
  | [] => none
  | '"' :: r => do
    let (t, rest) ← readText '"' (r.length + 1) r
    let s := String.ofList t
    if Value.stringLimit < s.utf8ByteSize then none else pure (.value (.string s), rest)
  | '\'' :: r => do
    let (t, rest) ← readText '\'' (r.length + 1) r
    match t with
    | [c] => pure (.value (.char c), rest)
    | _ => none
  | c :: r =>
    if c.isDigit then (readNumber false cs).map fun n => (.value n.1, n.2)
    else if c = '-' ∧ unary ∧ (r.head?.any Char.isDigit) then
      (readNumber true r).map fun n => (.value n.1, n.2)
    else if isNameStart c then
      (ofWord (String.ofList (cs.takeWhile isNamePart))).map fun t => (t, cs.dropWhile isNamePart)
    else if c = '\x7b' ∨ c = '\x7d' then some (.symbol c.toString, r)
    else
      (symbols.find? fun s => s.toList.isPrefixOf cs).map fun s => (.symbol s, cs.drop s.length)

def scanFrom : Nat → Position → (unary : Bool) → List Char → Except Position (List Placed)
  | 0, p, _, _ => .error p
  | fuel + 1, p, unary, cs =>
    match cs with
    | [] => .ok []
    | '/' :: '/' :: r =>
      scanFrom fuel (p.skip ('/' :: '/' :: r.takeWhile (· != '\n'))) unary (r.dropWhile (· != '\n'))
    | '/' :: '*' :: r =>
      let (rest, p) := skipComment 1 ((p.next '/').next '*') r
      scanFrom fuel p unary rest
    | c :: r =>
      if Text.isBlank c then scanFrom fuel (p.next c) unary r
      else match readToken unary cs with
        | none => .error p
        | some (t, rest) =>
          match scanFrom fuel (p.skip (cs.take (cs.length - rest.length))) (!t.endsOperand) rest with
          | .error q => .error q
          | .ok ts => .ok (⟨t, p⟩ :: ts)

def scan (text : String) : Except Position (List Placed) :=
  scanFrom (text.length + 1) {} true text.toList

end Token
end EventFlow.Script

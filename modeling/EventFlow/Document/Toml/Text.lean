import EventFlow.Text.Hex

/-!
The keys and strings of TOML. A reader answers with what it has read and the rest of the text.
-/

namespace EventFlow.Toml

def isPlain (c : Char) : Bool := c == '\t' || (0x20 ≤ c.toNat && c.toNat != 0x7F)

def isSpace (c : Char) : Bool := c == ' ' || c == '\t'

def skipSpaces (cs : List Char) : List Char := cs.dropWhile isSpace

def lineBreak? : List Char → Option (List Char)
  | '\n' :: r => some r
  | '\r' :: '\n' :: r => some r
  | _ => none

def push (c : Char) (r : Option (List Char × List Char)) : Option (List Char × List Char) :=
  r.map fun s => (c :: s.1, s.2)

def charOf? (code : Nat) : Option Char :=
  if code < 0xD800 ∨ (0xE000 ≤ code ∧ code < 0x110000) then some (Char.ofNat code) else none

def codeChar? (digits : List Char) : Option Char := (Text.baseValue? 16 digits).bind charOf?

def escape? : Char → Option Char
  | 'b' => some '\x08'
  | 't' => some '\t'
  | 'n' => some '\n'
  | 'f' => some '\x0c'
  | 'r' => some '\r'
  | '"' => some '"'
  | '\\' => some '\\'
  | _ => none

def readBasic : List Char → Option (List Char × List Char)
  | [] => none
  | '"' :: r => some ([], r)
  | '\\' :: 'u' :: a :: b :: c :: d :: r =>
    (codeChar? [a, b, c, d]).bind fun x => push x (readBasic r)
  | '\\' :: 'U' :: a :: b :: c :: d :: e :: f :: g :: h :: r =>
    (codeChar? [a, b, c, d, e, f, g, h]).bind fun x => push x (readBasic r)
  | '\\' :: c :: r => (escape? c).bind fun x => push x (readBasic r)
  | c :: r => if isPlain c then push c (readBasic r) else none

def readLiteral : List Char → Option (List Char × List Char)
  | [] => none
  | '\'' :: r => some ([], r)
  | c :: r => if isPlain c then push c (readLiteral r) else none

def joinsLines (cs : List Char) : Bool := (lineBreak? (skipSpaces cs)).isSome

/-- Reads a string of several lines with escapes. Up to two quotes may stand in front of the closing
ones. After a backslash at the end of a line, blanks and line breaks are skipped. -/
def readLines : (skipping : Bool) → List Char → Option (List Char × List Char)
  | _, [] => none
  | _, '"' :: '"' :: '"' :: '"' :: '"' :: r => some (['"', '"'], r)
  | _, '"' :: '"' :: '"' :: '"' :: r => some (['"'], r)
  | _, '"' :: '"' :: '"' :: r => some ([], r)
  | true, '\r' :: '\n' :: r => readLines true r
  | false, '\r' :: '\n' :: r => push '\n' (readLines false r)
  | true, '\n' :: r => readLines true r
  | false, '\n' :: r => push '\n' (readLines false r)
  | _, '\\' :: 'u' :: a :: b :: c :: d :: r =>
    (codeChar? [a, b, c, d]).bind fun x => push x (readLines false r)
  | _, '\\' :: 'U' :: a :: b :: c :: d :: e :: f :: g :: h :: r =>
    (codeChar? [a, b, c, d, e, f, g, h]).bind fun x => push x (readLines false r)
  | _, '\\' :: r =>
    if joinsLines r then readLines true r
    else
      match r with
      | [] => none
      | c :: r => (escape? c).bind fun x => push x (readLines false r)
  | skipping, c :: r =>
    if skipping && isSpace c then readLines true r
    else if isPlain c then push c (readLines false r)
    else none

def readLiteralLines : List Char → Option (List Char × List Char)
  | [] => none
  | '\'' :: '\'' :: '\'' :: '\'' :: '\'' :: r => some (['\'', '\''], r)
  | '\'' :: '\'' :: '\'' :: '\'' :: r => some (['\''], r)
  | '\'' :: '\'' :: '\'' :: r => some ([], r)
  | '\r' :: '\n' :: r => push '\n' (readLiteralLines r)
  | '\n' :: r => push '\n' (readLiteralLines r)
  | c :: r => if isPlain c then push c (readLiteralLines r) else none

def afterOpening (cs : List Char) : List Char := (lineBreak? cs).getD cs

def readString : List Char → Option (String × List Char)
  | '"' :: '"' :: '"' :: r => (readLines false (afterOpening r)).map fun s => (String.ofList s.1, s.2)
  | '\'' :: '\'' :: '\'' :: r =>
    (readLiteralLines (afterOpening r)).map fun s => (String.ofList s.1, s.2)
  | '"' :: r => (readBasic r).map fun s => (String.ofList s.1, s.2)
  | '\'' :: r => (readLiteral r).map fun s => (String.ofList s.1, s.2)
  | _ => none

/-! ### Keys -/

def isBare (c : Char) : Bool := c.isAlphanum || c == '_' || c == '-'

def readSimpleKey : List Char → Option (String × List Char)
  | '"' :: r => (readBasic r).map fun s => (String.ofList s.1, s.2)
  | '\'' :: r => (readLiteral r).map fun s => (String.ofList s.1, s.2)
  | cs =>
    match cs.span isBare with
    | ([], _) => none
    | (k, rest) => some (String.ofList k, rest)

def readKeys : (fuel : Nat) → List Char → Option (List String × List Char)
  | 0, _ => none
  | fuel + 1, cs => do
    let (k, rest) ← readSimpleKey (skipSpaces cs)
    match skipSpaces rest with
    | '.' :: r =>
      let (ks, rest) ← readKeys fuel r
      pure (k :: ks, rest)
    | rest => pure ([k], rest)

/-- No path of keys and no nesting of values goes deeper than this. -/
def depthLimit : Nat := 79

def readKey (cs : List Char) : Option (List String × String × List Char) :=
  match readKeys (cs.length + 1) cs with
  | none => none
  | some (ks, rest) =>
    if depthLimit < ks.length then none
    else (ks.getLast?).map fun k => (ks.dropLast, k, rest)

end EventFlow.Toml

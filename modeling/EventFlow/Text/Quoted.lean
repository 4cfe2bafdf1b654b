import EventFlow.Text.Blank
import EventFlow.Text.Hex
import EventFlow.Text.Printable

/-!
Text in double quotes, with escapes for everything that would not show as itself.
-/

namespace EventFlow.Text

def quoteChar (c : Char) : String :=
  if c = '\x00' then "\\0"
  else if c = '\t' then "\\t"
  else if c = '\r' then "\\r"
  else if c = '\n' then "\\n"
  else if c = '\\' then "\\\\"
  else if c = '"' then "\\\""
  else if c.toNat < 0x7F ∧ 0x20 ≤ c.toNat then c.toString
  else if inRanges combiningRanges c.toNat ∨ inRanges hiddenRanges c.toNat then
    "\\u\x7b" ++ hexDigits c.toNat ++ "\x7d"
  else c.toString

def quote (s : String) : String := "\"" ++ String.join (s.toList.map quoteChar) ++ "\""

def quoteList (l : List String) : String := "[" ++ ", ".intercalate (l.map quote) ++ "]"

end EventFlow.Text

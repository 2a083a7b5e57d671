import MergeCost.Text.Unprintable
import MergeCost.Text.Extender
import MergeCost.Text.Ignorable

/-!
Texts within messages: in quotation marks, with everything escaped that would not show as itself.
-/

namespace MergeCost.Text

/-- A code point in lower-case hexadecimal digits. -/
def codeEscape (c : Char) : String :=
  "\\u\x7b" ++ String.ofList (Nat.toDigits 16 c.toNat) ++ "\x7d"

def escapeChar (c : Char) : String :=
  if c = '\x00' then "\\0"
  else if c = '\t' then "\\t"
  else if c = '\n' then "\\n"
  else if c = '\r' then "\\r"
  else if c = '\x22' then "\\\x22"
  else if c = '\x5c' then "\\\\"
  else if isExtender c || isIgnorable c || isUnprintable c then codeEscape c
  else c.toString

def quoted (text : String) : String :=
  "\x22" ++ String.join (text.toList.map escapeChar) ++ "\x22"

end MergeCost.Text

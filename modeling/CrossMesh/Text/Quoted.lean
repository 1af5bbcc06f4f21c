import CrossMesh.Text.GraphemeExtend
import CrossMesh.Text.Unprintable

/-!
# Quoted text

A text between double quotes, on one line.  Quotes and backslashes get a backslash, the common control characters
their letter, and a character that would not show up on its own is written by its number.
-/

namespace CrossMesh

/-- How a quoted text writes one character. -/
def quotedChar (c : Char) : String :=
  if c = '"' then "\\\""
  else if c = '\\' then "\\\\"
  else if c = '\n' then "\\n"
  else if c = '\r' then "\\r"
  else if c = '\t' then "\\t"
  else if c = '\x00' then "\\0"
  else if ' ' ≤ c ∧ c ≤ '~' then c.toString
  else if ExtendsGrapheme c ∨ Unprintable c then "\\u\x7b" ++ String.ofList (Nat.toDigits 16 c.toNat) ++ "\x7d"
  else c.toString

def quoted (s : String) : String := "\"" ++ String.join (s.toList.map quotedChar) ++ "\""

end CrossMesh

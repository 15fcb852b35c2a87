import Emission.Text.Unprinted

/-!
Strings as descriptions show them: in double quotes, with quotes and backslashes escaped, characters without
a printed form written by their escapes, and every other character as it is.
-/
namespace Emission.Text

/-- The number of a character in braces, in the lower-case hexadecimal digits that it needs. -/
def codeEscape (c : Char) : String :=
  "\\u\x7b" ++ String.ofList (Nat.toDigits 16 c.toNat) ++ "\x7d"

def escape (c : Char) : String :=
  if c = '"' then "\\\""
  else if c = '\\' then "\\\\"
  else if c = '\n' then "\\n"
  else if c = '\t' then "\\t"
  else if c = '\r' then "\\r"
  else if c.toNat = 0 then "\\0"
  else if isUnprinted c then codeEscape c
  else c.toString

def quoted (s : String) : String :=
  "\"" ++ String.join (s.toList.map escape) ++ "\""

end Emission.Text

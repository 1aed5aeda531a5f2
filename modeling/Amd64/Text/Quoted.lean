import Amd64.Text.Hex
import Amd64.Text.Invisible

namespace Amd64

/-!
# Quoted text

Messages quote what the user typed: between double quotes, with backslashes before quotes and backslashes,
and with escapes for characters that cannot be seen.
-/

/-- A character between quotes. -/
def quotedChar (c : Char) : String :=
  if c = '"' then "\\\""
  else if c = '\\' then "\\\\"
  else if c = '\n' then "\\n"
  else if c = '\r' then "\\r"
  else if c = '\t' then "\\t"
  else if c.toNat = 0 then "\\0"
  else if isInvisible c then "\\u\x7b" ++ hex c.toNat ++ "\x7d"
  else c.toString

/-- Text between quotes. -/
def quoted (s : String) : String :=
  "\"" ++ String.join (s.toList.map quotedChar) ++ "\""

end Amd64

import ClientPlan.Text.Characters

/-!
# Quoted text in messages

A message quotes a text so that each of its characters can be seen: quotes, backslashes and the
usual controls have short escapes, all else that has no visible form of its own is written by its
code point.
-/

namespace ClientPlan.Text

/-- The form of one character between double quotes. -/
def visibleForm (c : Char) : String :=
  if c = '\x00' then "\\0"
  else if c = '\t' then "\\t"
  else if c = '\n' then "\\n"
  else if c = '\r' then "\\r"
  else if c = '"' then "\\\""
  else if c = '\\' then "\\\\"
  else if ' ' ≤ c && c ≤ '~' then c.toString
  else if isExtending c || isInvisible c then
    "\\u\x7b" ++ String.ofList (Nat.toDigits 16 c.toNat) ++ "\x7d"
  else c.toString

/-- A text between double quotes, each of its characters visible. -/
def quoted (text : String) : String :=
  "\"" ++ String.join (text.toList.map visibleForm) ++ "\""

end ClientPlan.Text

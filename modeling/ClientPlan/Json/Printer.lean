import ClientPlan.Json.Value

/-!
# Writing JSON

A value is written on one line without blanks, or over several lines with each container's parts
indented by two spaces. Only quotes, backslashes and controls are escaped in texts.
-/

namespace ClientPlan.Json

/-- A hexadecimal digit. -/
def hexDigit (value : Nat) : Char := Nat.digitChar value

/-- The form of a character inside a written text. -/
def writtenChar (c : Char) : List Char :=
  if c = '"' then ['\\', '"']
  else if c = '\\' then ['\\', '\\']
  else if c = '\x08' then ['\\', 'b']
  else if c = '\x0c' then ['\\', 'f']
  else if c = '\n' then ['\\', 'n']
  else if c = '\r' then ['\\', 'r']
  else if c = '\t' then ['\\', 't']
  else if c < ' ' then ['\\', 'u', '0', '0', hexDigit (c.toNat / 16), hexDigit (c.toNat % 16)]
  else [c]

/-- A written text. -/
def writtenText (text : String) : String :=
  "\"" ++ String.ofList (text.toList.flatMap writtenChar) ++ "\""

/-- A written number. -/
def Number.written : Number → String
  | .integer value => toString value
  | .floating negative magnitude => Decimal.signedText messageLayout negative magnitude

/-- How the parts of a container are laid out. -/
inductive Spacing where
  /-- Everything on one line. -/
  | compact
  /-- Each part on a line of its own, at a depth. -/
  | indented (depth : Nat)

namespace Spacing

/-- The layout inside a container. -/
def inner : Spacing → Spacing
  | .compact => .compact
  | .indented depth => .indented (depth + 1)

/-- What stands before a part or a closing bracket. -/
def lineStart : Spacing → String
  | .compact => ""
  | .indented depth => "\n" ++ String.ofList (List.replicate (2 * depth) ' ')

/-- What stands between a key and its value. -/
def colon : Spacing → String
  | .compact => ":"
  | .indented _ => ": "

/-- The parts of a container between its brackets. -/
def enclose (spacing : Spacing) (opening closing : String) (parts : List String) : String :=
  if parts.isEmpty then opening ++ closing
  else
    opening ++ ",".intercalate (parts.map (spacing.inner.lineStart ++ ·)) ++ spacing.lineStart ++
      closing

end Spacing

namespace Value

mutual

/-- A value as written. -/
def written (spacing : Spacing) : Value → String
  | .null => "null"
  | .boolean value => if value then "true" else "false"
  | .number value => value.written
  | .text value => writtenText value
  | .list items => spacing.enclose "[" "]" (writtenItems spacing.inner items)
  | .object members => spacing.enclose "\x7b" "\x7d" (writtenMembers spacing.inner members)

/-- The items of a list as written. -/
def writtenItems (spacing : Spacing) : List Value → List String
  | [] => []
  | item :: rest => item.written spacing :: writtenItems spacing rest

/-- The members of an object as written. -/
def writtenMembers (spacing : Spacing) : List (String × Value) → List String
  | [] => []
  | (key, value) :: rest =>
    (writtenText key ++ spacing.colon ++ value.written spacing) :: writtenMembers spacing rest

end

/-- A value on one line. -/
def compact (value : Value) : String := value.written .compact

/-- A value over several lines. -/
def pretty (value : Value) : String := value.written (.indented 0)

end Value

end ClientPlan.Json

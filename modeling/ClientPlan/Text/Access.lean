/-!
# Access to a property

A property is read off an object by a dot if its name is a plain identifier, and by a quoted name in
brackets otherwise.
-/

namespace ClientPlan.Text

/-- Whether a character may begin a plain identifier. -/
def opensIdentifier (c : Char) : Bool := c.isAlpha || c == '_' || c == '$'

/-- Whether a character may stand in a plain identifier. -/
def inIdentifier (c : Char) : Bool := c.isAlphanum || c == '_' || c == '$'

/-- Whether a name is a plain identifier. -/
def isIdentifier : List Char → Bool
  | [] => false
  | c :: rest => opensIdentifier c && rest.all inIdentifier

/-- A character between double quotes: a quote or a backslash has a backslash before it. -/
def escapedChar (c : Char) : List Char :=
  if c = '"' ∨ c = '\\' then ['\\', c] else [c]

/-- The text that reads a property off an object. -/
def access (object property : String) : String :=
  if isIdentifier property.toList then object ++ "." ++ property
  else object ++ "[\"" ++ String.ofList (property.toList.flatMap escapedChar) ++ "\"]"

end ClientPlan.Text

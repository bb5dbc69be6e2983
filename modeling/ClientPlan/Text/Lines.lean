/-!
# Lines of a text

A line ends at a line feed, and a carriage return right before that feed belongs to the ending. What
follows the last feed is a line unless it is empty.
-/

namespace ClientPlan.Text

/-- A reversed line without the carriage return at its end. -/
def dropReturn : List Char → List Char
  | '\r' :: line => line
  | line => line

/-- The lines of a text after `line`, which holds the characters since the last feed reversed. -/
def linesAfter (line : List Char) : List Char → List (List Char)
  | [] => if line.isEmpty then [] else [line.reverse]
  | c :: rest =>
    if c = '\n' then (dropReturn line).reverse :: linesAfter [] rest
    else linesAfter (c :: line) rest

/-- The lines of a text. -/
def lines (text : String) : List String :=
  (linesAfter [] text.toList).map String.ofList

end ClientPlan.Text

import ClientPlan.Text.Quoted

/-!
# Shape errors

A well-formed document may still lack the shape its reader expects. Each cause has one wording,
shared by all document formats. What else a reader says, of the place of the error or of a malformed
document, is its own and a parameter here.
-/

namespace ClientPlan

/-- What a document holds at a place. -/
inductive Found where
  | null
  | boolean (value : Bool)
  | integer (value : Int)
  | floating (decimal : String)
  | text (value : String)
  | sequence
  | map
deriving DecidableEq, Repr

/-- Why a document lacks the expected shape. -/
inductive ShapeError where
  | invalidType (found : Found) (wanted : String)
  | invalidValue (found : Found) (wanted : String)
  | invalidLength (length : Nat) (wanted : String)
  | unknownVariant (name : String) (known : List String)
  | unknownField (name : String) (known : List String)
  | missingField (name : String)
  | duplicateField (name : String)
deriving DecidableEq, Repr

/-- A name between backquotes. -/
def backquoted (name : String) : String := "`" ++ name ++ "`"

/-- A list of names to choose from. -/
def oneOf : List String → String
  | [name] => backquoted name
  | [first, second] => backquoted first ++ " or " ++ backquoted second
  | names => "one of " ++ ", ".intercalate (names.map backquoted)

/-- How a message names what was found. -/
def Found.description : Found → String
  | .null => "null"
  | .boolean value => "boolean " ++ backquoted (if value then "true" else "false")
  | .integer value => "integer " ++ backquoted (toString value)
  | .floating decimal => "floating point " ++ backquoted decimal
  | .text value => "string " ++ Text.quoted value
  | .sequence => "sequence"
  | .map => "map"

/-- The wording of a shape error. -/
def ShapeError.message : ShapeError → String
  | .invalidType found wanted => "invalid type: " ++ found.description ++ ", expected " ++ wanted
  | .invalidValue found wanted => "invalid value: " ++ found.description ++ ", expected " ++ wanted
  | .invalidLength length wanted => "invalid length " ++ toString length ++ ", expected " ++ wanted
  | .unknownVariant name known =>
    "unknown variant " ++ backquoted name ++ ", expected " ++ oneOf known
  | .unknownField name known => "unknown field " ++ backquoted name ++ ", expected " ++ oneOf known
  | .missingField name => "missing field " ++ backquoted name
  | .duplicateField name => "duplicate field " ++ backquoted name

/-- The words of a reader for the documents that it refuses. -/
structure DocumentWording where
  /-- What it says of a malformed text. -/
  malformed : (text : String) → String
  /-- What it says before the message of a shape error. -/
  before : (text : String) → String
  /-- What it says after the message of a shape error. -/
  after : (text : String) → String

namespace DocumentWording

/-- Leaves out the words of the reader. -/
def omitted : DocumentWording := ⟨fun _ => "", fun _ => "", fun _ => ""⟩

/-- What a reader says of a text that lacks the expected shape. -/
def shape (wording : DocumentWording) (text : String) (error : ShapeError) : String :=
  wording.before text ++ error.message ++ wording.after text

end DocumentWording

end ClientPlan

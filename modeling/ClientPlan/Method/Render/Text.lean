import ClientPlan.Method.Plan
import ClientPlan.Text.Access
import ClientPlan.Text.Lines

/-!
# Plans for readers

A method is a line with its signature and notes, followed by each output parameter and, below it,
the mappings that rebuild it.
-/

namespace ClientPlan

/-- An argument with its type. An optional one has a question mark. -/
def Argument.text (argument : Argument) : String :=
  argument.name ++ (if argument.required then "" else "?") ++ ": " ++ argument.type.text

/-- The place a value is read from. -/
def Source.text (source : Source) : String :=
  match source.property with
  | some property => Text.access source.argument.name property.name
  | none => source.argument.name

/-- The place a value is written to. -/
def Target.text (target : Target) : String :=
  match target.propertyName with
  | some name => Text.access target.argument.name name
  | none => target.argument.name

/-- A mapping: what is written, then what is read. -/
def Mapping.text (mapping : Mapping) : String :=
  mapping.target.text ++ " <- " ++ mapping.source.text

/-- A line break and an indent of two spaces before each text. -/
def indented (texts : List String) : String := String.join (texts.map ("\n  " ++ ·))

/-- A transformation: its output, and its mappings on lines of their own. -/
def Transformation.text (transformation : Transformation) : String :=
  transformation.output.text ++ indented (transformation.mappings.map Mapping.text)

namespace ClientMethod

/-- The notes of a method: its variant, how it is sent, and its content type. -/
def notes (method : ClientMethod) : List String :=
  (if method.kind = .protocol then [method.kind.name] else []) ++
    (method.httpMethod.map (·.verb)).toList ++ method.path.toList ++
    ["(" ++ method.contentType ++ ")"]

/-- The line of a method. -/
def signatureText (method : ClientMethod) : String :=
  method.name ++ "(" ++ ", ".intercalate (method.parameters.map Argument.text) ++ ")  // " ++
    " ".intercalate method.notes

/-- A method and its transformations, line by line. -/
def text (method : ClientMethod) : String :=
  method.signatureText ++
    indented (method.transformations.flatMap fun transformation => Text.lines transformation.text)

end ClientMethod

/-- A plan: its methods, with a blank line between them. -/
def planText (methods : List ClientMethod) : String :=
  "\n\n".intercalate (methods.map ClientMethod.text)

end ClientPlan

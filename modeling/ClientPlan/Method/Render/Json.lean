import ClientPlan.Json.Printer
import ClientPlan.Method.Plan

/-!
# Plans as JSON

Objects hold their fields in declaration order. An absent optional field is left out.
-/

namespace ClientPlan

open Json (Value)

/-- The member of an optional field. -/
def optionalMember (key : String) (value : Option Value) : List (String × Value) :=
  (value.map fun value => (key, value)).toList

/-- A type as JSON: its text. -/
def ClientType.json (type : ClientType) : Value := .text type.text

/-- An argument as JSON. -/
def Argument.json (argument : Argument) : Value :=
  .object <|
    [ ("name", .text argument.name), ("clientType", argument.type.json),
      ("required", .boolean argument.required) ] ++
    optionalMember "location" (argument.location.map fun location => .text location.name) ++
    [("isConstant", .boolean argument.isConstant)]

/-- A field of a model as JSON. -/
def ModelProperty.json (property : ModelProperty) : Value :=
  .object
    [ ("name", .text property.name), ("serializedName", .text property.serializedName),
      ("clientType", property.type.json), ("required", .boolean property.required) ]

/-- A model as JSON. -/
def Model.json (model : Model) : Value :=
  .object [("name", .text model.name), ("properties", .list (model.properties.map (·.json)))]

/-- A source as JSON. -/
def Source.json (source : Source) : Value :=
  .object <|
    ("parameter", source.argument.json) ::
      optionalMember "property" (source.property.map (·.json))

/-- A target as JSON. -/
def Target.json (target : Target) : Value :=
  .object <|
    ("parameter", target.argument.json) ::
      optionalMember "property" (target.property.map (·.json)) ++
      optionalMember "propertyName" (target.propertyName.map Value.text)

/-- A mapping as JSON. -/
def Mapping.json (mapping : Mapping) : Value :=
  .object [("input", mapping.source.json), ("output", mapping.target.json)]

/-- A transformation as JSON. -/
def Transformation.json (transformation : Transformation) : Value :=
  .object
    [ ("outParameter", transformation.output.json),
      ("mappings", .list (transformation.mappings.map (·.json))) ]

/-- A method as JSON. -/
def ClientMethod.json (method : ClientMethod) : Value :=
  .object <|
    [("name", .text method.name), ("kind", .text method.kind.name)] ++
    optionalMember "httpMethod" (method.httpMethod.map fun verb => .text verb.name) ++
    optionalMember "path" (method.path.map Value.text) ++
    [ ("contentType", .text method.contentType),
      ("parameters", .list (method.parameters.map (·.json))),
      ("transformations", .list (method.transformations.map (·.json))) ]

/-- A plan as JSON. -/
def planJson (methods : List ClientMethod) : Value := .list (methods.map (·.json))

end ClientPlan

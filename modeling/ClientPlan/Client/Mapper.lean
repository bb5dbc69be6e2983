import ClientPlan.Client.Description
import ClientPlan.Client.PlanError

/-!
# Mapping wire entries

A mapper describes the entries of a code model as clients see them. The default one takes names,
types and flags from the tables.
-/

namespace ClientPlan

open Wire (Parameter ParameterId Property PropertyId Schema SchemaId Tables)

namespace Wire.Tables

/-- The schema at an id. -/
def schemaAt (tables : Tables) (id : SchemaId) : Except PlanError Schema :=
  match tables.schemas[id]? with
  | some schema => .ok schema
  | none => .error (.outsideTable .schemas id)

/-- The property at an id. -/
def propertyAt (tables : Tables) (id : PropertyId) : Except PlanError Property :=
  match tables.properties[id]? with
  | some property => .ok property
  | none => .error (.outsideTable .properties id)

/-- The parameter at an id. -/
def parameterAt (tables : Tables) (id : ParameterId) : Except PlanError Parameter :=
  match tables.parameters[id]? with
  | some parameter => .ok parameter
  | none => .error (.outsideTable .parameters id)

/-- The type of a schema whose chain of element types has at most `steps` schemas. -/
def typeWithin (tables : Tables) : (steps : Nat) → SchemaId → Except PlanError ClientType
  | 0, id => .error (.endlessType id)
  | steps + 1, id => do
    let schema ← tables.schemaAt id
    match schema.kind with
    | .scalar type => return .ofScalar type
    | .array elementType => return .list (← tables.typeWithin steps elementType)
    | .object _ => return .model schema.name
    | .constant _ valueType => tables.typeWithin steps valueType

/-- The type of a schema. -/
def clientType (tables : Tables) (id : SchemaId) : Except PlanError ClientType :=
  tables.typeWithin tables.schemas.length id

/-- A parameter as an argument. -/
def argument (tables : Tables) (id : ParameterId) : Except PlanError Argument := do
  let parameter ← tables.parameterAt id
  let type ← tables.clientType parameter.schema
  let schema ← tables.schemaAt parameter.schema
  return { name := parameter.shownName
           type := type
           required := parameter.required
           location := parameter.location
           isConstant := schema.isConstant }

/-- A property as a field of a model. -/
def modelProperty (tables : Tables) (id : PropertyId) : Except PlanError ModelProperty := do
  let property ← tables.propertyAt id
  let type ← tables.clientType property.schema
  return { name := property.shownName
           serializedName := property.serializedName
           type := type
           required := property.required }

/-- A schema as a model. Only objects have one. -/
def model (tables : Tables) (id : SchemaId) : Except PlanError Model := do
  let schema ← tables.schemaAt id
  match schema.kind with
  | .object properties => return ⟨schema.name, ← properties.mapM tables.modelProperty⟩
  | _ => .error (.notAnObject schema.name)

end Wire.Tables

/-- How wire entries are described to clients. -/
structure Mapper where
  argument : ParameterId → Except PlanError Argument
  model : SchemaId → Except PlanError Model
  property : PropertyId → Except PlanError ModelProperty

/-- The descriptions that the tables themselves give. -/
def Mapper.ofTables (tables : Tables) : Mapper where
  argument := tables.argument
  model := tables.model
  property := tables.modelProperty

end ClientPlan

import ClientPlan.Json.Value

/-!
# Schemas and properties

The entries of a code model refer to each other by their positions in its tables.
-/

namespace ClientPlan.Wire

/-- A position in the table of schemas. -/
abbrev SchemaId := Nat

/-- A position in the table of properties. -/
abbrev PropertyId := Nat

/-- A position in the table of parameters. -/
abbrev ParameterId := Nat

/-- The kinds of primitive values. -/
inductive ScalarType where
  | string
  | integer
  | number
  | boolean
  | dateTime
  | binary
  | any
deriving DecidableEq, Repr

/-- What kind of value a schema describes. -/
inductive SchemaKind where
  /-- A fixed value of some schema. -/
  | constant (value : Json.Value) (valueType : SchemaId)
  /-- A structure with named properties. -/
  | object (properties : List PropertyId)
  /-- A primitive value. -/
  | scalar (type : ScalarType)
  /-- A list of values of some schema. -/
  | array (elementType : SchemaId)
deriving DecidableEq, Repr

/-- A named schema. -/
structure Schema where
  name : String
  kind : SchemaKind
deriving DecidableEq, Repr

/-- Whether the values of a schema are fixed. -/
def Schema.isConstant (schema : Schema) : Bool :=
  match schema.kind with
  | .constant _ _ => true
  | _ => false

/-- Whether the values of a schema are structures. -/
def Schema.isObject (schema : Schema) : Bool :=
  match schema.kind with
  | .object _ => true
  | _ => false

/-- The schema that the values or elements of a schema belong to. -/
def Schema.next? (schema : Schema) : Option SchemaId :=
  match schema.kind with
  | .constant _ valueType => some valueType
  | .array elementType => some elementType
  | _ => none

/-- A named field of the structures of a schema. -/
structure Property where
  name : String
  /-- The name shown to clients, where it differs. -/
  displayName : Option String
  /-- The name on the wire. -/
  serializedName : String
  schema : SchemaId
  required : Bool
deriving DecidableEq, Repr

/-- The name of a property that clients see. -/
def Property.shownName (property : Property) : String := property.displayName.getD property.name

end ClientPlan.Wire

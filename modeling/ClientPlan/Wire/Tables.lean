import ClientPlan.Wire.Request

/-!
# Tables of a code model

The tables are accepted if every id lies inside the table it points into and no chain of element
types runs in a circle. The first violation in a fixed order is reported.
-/

namespace ClientPlan.Wire

/-- The tables that ids point into. -/
inductive Table where
  | schemas
  | properties
  | parameters
deriving DecidableEq, Repr

/-- What an entry of a table is called. -/
def Table.entryName : Table → String
  | .schemas => "schema"
  | .properties => "property"
  | .parameters => "parameter"

/-- An entry that holds ids. -/
inductive Owner where
  | schema (name : String)
  | property (name : String)
  | parameter (name : String)
  | operation (name : String)
deriving DecidableEq, Repr

/-- How a message names the owner of an id. -/
def Owner.description : Owner → String
  | .schema name => "schema '" ++ name ++ "'"
  | .property name => "property '" ++ name ++ "'"
  | .parameter name => "parameter '" ++ name ++ "'"
  | .operation name => "operation '" ++ name ++ "'"

/-- A field that holds ids. -/
inductive Link where
  | valueType
  | properties
  | elementType
  | schema
  | groupedBy
  | spreadFrom
  | targetProperty
  | parameters
  | signatureParameters
deriving DecidableEq, Repr

/-- The key of a field that holds ids. -/
def Link.key : Link → String
  | .valueType => "valueType"
  | .properties => "properties"
  | .elementType => "elementType"
  | .schema => "schema"
  | .groupedBy => "groupedBy"
  | .spreadFrom => "originalParameter"
  | .targetProperty => "targetProperty"
  | .parameters => "parameters"
  | .signatureParameters => "signatureParameters"

/-- Why tables are refused. -/
inductive TableError where
  /-- An id of a field points past the end of a table with `length` entries. -/
  | danglingId (owner : Owner) (link : Link) (table : Table) (id length : Nat)
  /-- The element types that start from a schema never end. -/
  | schemaCycle (schema : String)
deriving DecidableEq, Repr

/-- The wording of a table error. -/
def TableError.message : TableError → String
  | .danglingId owner link table id length =>
    owner.description ++ ": " ++ link.key ++ " refers to " ++ table.entryName ++ " #" ++
      toString id ++ ", but only " ++ toString length ++ " exist"
  | .schemaCycle schema => "schema '" ++ schema ++ "' is part of an element type cycle"

/-- The tables of a code model. -/
structure Tables where
  schemas : List Schema
  properties : List Property
  parameters : List Parameter
  operations : List Operation
deriving DecidableEq, Repr

namespace Tables

/-- The number of entries of a table. -/
def length (tables : Tables) : Table → Nat
  | .schemas => tables.schemas.length
  | .properties => tables.properties.length
  | .parameters => tables.parameters.length

/-- Checks that an id lies inside its table. -/
def checkId (tables : Tables) (owner : Owner) (link : Link) (table : Table) (id : Nat) :
    Except TableError Unit :=
  if id < tables.length table then .ok ()
  else .error (.danglingId owner link table id (tables.length table))

/-- Checks ids in order. -/
def checkIds (tables : Tables) (owner : Owner) (link : Link) (table : Table) (ids : List Nat) :
    Except TableError Unit :=
  ids.forM (tables.checkId owner link table)

/-- Checks the ids of a schema. -/
def checkSchema (tables : Tables) (schema : Schema) : Except TableError Unit :=
  let owner := Owner.schema schema.name
  match schema.kind with
  | .constant _ valueType => tables.checkId owner .valueType .schemas valueType
  | .object properties => tables.checkIds owner .properties .properties properties
  | .scalar _ => .ok ()
  | .array elementType => tables.checkId owner .elementType .schemas elementType

/-- Checks the id of a property. -/
def checkProperty (tables : Tables) (property : Property) : Except TableError Unit :=
  tables.checkId (.property property.name) .schema .schemas property.schema

/-- Checks the ids of a parameter. -/
def checkParameter (tables : Tables) (parameter : Parameter) : Except TableError Unit := do
  let owner := Owner.parameter parameter.name
  tables.checkId owner .schema .schemas parameter.schema
  tables.checkIds owner .groupedBy .parameters parameter.groupedBy.toList
  tables.checkIds owner .spreadFrom .parameters parameter.spreadFrom.toList
  tables.checkIds owner .targetProperty .properties parameter.targetProperty.toList

/-- Checks the ids of a request of a named operation. -/
def checkRequest (tables : Tables) (operation : String) (request : Request) :
    Except TableError Unit := do
  let owner := Owner.operation operation
  tables.checkIds owner .parameters .parameters request.parameters
  tables.checkIds owner .signatureParameters .parameters request.signatureParameters

/-- Checks the ids of an operation. -/
def checkOperation (tables : Tables) (operation : Operation) : Except TableError Unit :=
  operation.requests.forM (tables.checkRequest operation.name)

/-- Whether the element types that start from a schema end within a number of steps. A chain that
leaves the table has ended. -/
def endsWithin (tables : Tables) : (steps : Nat) → Schema → Bool
  | steps, schema =>
    match schema.next?, steps with
    | none, _ => true
    | some _, 0 => false
    | some next, steps + 1 =>
      match tables.schemas[next]? with
      | some schema => tables.endsWithin steps schema
      | none => true

/-- Checks that the element types that start from a schema end. A chain with more steps than the
table has entries visits one of them twice. -/
def checkEnds (tables : Tables) (schema : Schema) : Except TableError Unit :=
  if tables.endsWithin tables.schemas.length schema then .ok ()
  else .error (.schemaCycle schema.name)

/-- Checks all tables. -/
def check (tables : Tables) : Except TableError Unit := do
  tables.schemas.forM tables.checkSchema
  tables.properties.forM tables.checkProperty
  tables.parameters.forM tables.checkParameter
  tables.operations.forM tables.checkOperation
  tables.schemas.forM tables.checkEnds

end Tables

end ClientPlan.Wire

import ClientPlan.Json.Record
import ClientPlan.Wire.Schema

/-!
# Reading schemas and properties

A schema is an object with a name. Its other members are kept until all are read, because the member
`type`, which says what the others mean, may stand anywhere among them.
-/

namespace ClientPlan.Wire

open Json

namespace Reading

/-- Refuses a value where something else is wanted. -/
def refuseValue {α : Type} (value : Value) (wanted : String) : Except ReadError α :=
  .error (.shape (.invalidType value.found wanted))

/-- The index that a value is. -/
def indexOfValue : Value → Except ReadError Nat
  | .number number => Decoder.indexOfNumber number
  | value => refuseValue value Decoder.indexName

/-- The list of indices that a value is. -/
def indicesOfValue : Value → Except ReadError (List Nat)
  | .list items => items.mapM indexOfValue
  | value => refuseValue value "a sequence"

/-- The primitive kinds by name. -/
def scalarTypes : List (String × ScalarType) :=
  [ ("string", .string), ("integer", .integer), ("number", .number), ("boolean", .boolean),
    ("date-time", .dateTime), ("binary", .binary), ("any", .any) ]

/-- Accepts `null` and the empty object. -/
def unitOfValue : Value → Except ReadError Unit
  | .null | .object [] => .ok ()
  | value => refuseValue value "unit"

/-- The primitive kind that a value names: a text, or an object with the name as its one key. -/
def scalarTypeOfValue : Value → Except ReadError ScalarType
  | .text name => Decoder.variant scalarTypes name
  | .object [(name, value)] => do
    let type ← Decoder.variant scalarTypes name
    unitOfValue value
    return type
  | .object members =>
    .error (.shape (.invalidValue (Value.object members).found "map with a single key"))
  | value => refuseValue value "string or map"

/-- The variants of schemas. -/
inductive SchemaVariant where
  | constant
  | object
  | scalar
  | array
deriving DecidableEq, Repr

/-- The variants of schemas by name. -/
def schemaVariants : List (String × SchemaVariant) :=
  [("constant", .constant), ("object", .object), ("scalar", .scalar), ("array", .array)]

/-- The variant that a value names, or that stands at the position which the value is. -/
def variantOfValue (value : Value) : Except ReadError SchemaVariant :=
  match value with
  | .text name => Decoder.variant schemaVariants name
  | .number (.integer (.ofNat position)) =>
    match schemaVariants[position]? with
    | some entry => .ok entry.2
    | none =>
      .error (.shape (.invalidValue value.found
        ("variant index 0 <= i < " ++ toString schemaVariants.length)))
  | _ => refuseValue value "variant identifier"

/-- The variant that the one member `type` names, and the other members. -/
def splitVariant (members : List (String × Value)) :
    Except ReadError (SchemaVariant × List (String × Value)) := do
  let variant ← members.foldlM takeVariant none
  match variant with
  | some variant => return (variant, members.filter fun member => member.1 ≠ variantKey)
  | none => .error (.shape (.missingField variantKey))
where
  /-- The key of the member that names the variant. -/
  variantKey : String := "type"
  /-- Reads the variant from its member. -/
  takeVariant (variant : Option SchemaVariant) (member : String × Value) :
      Except ReadError (Option SchemaVariant) :=
    if member.1 ≠ variantKey then .ok variant
    else if variant.isSome then .error (.shape (.duplicateField variantKey))
    else some <$> variantOfValue member.2

/-- The fields of a schema that were read so far. -/
structure SchemaState where
  value : Option Value := none
  valueType : Option SchemaId := none
  properties : Option (List PropertyId) := none
  scalar : Option ScalarType := none
  elementType : Option SchemaId := none

/-- The fields of a variant. -/
def variantFields : SchemaVariant → List (Field Value SchemaState)
  | .constant =>
    [ .of "value" .required (fun value => .ok value.merged) (·.value)
        (fun state value => { state with value := some value }),
      .of "valueType" .required indexOfValue (·.valueType)
        (fun state id => { state with valueType := some id }) ]
  | .object =>
    [ .of "properties" .optional indicesOfValue (·.properties)
        (fun state ids => { state with properties := some ids }) ]
  | .scalar =>
    [ .of "scalar" .required scalarTypeOfValue (·.scalar)
        (fun state type => { state with scalar := some type }) ]
  | .array =>
    [ .of "elementType" .required indexOfValue (·.elementType)
        (fun state id => { state with elementType := some id }) ]

/-- The kind that the fields of a variant make up, once the required ones are there. -/
def buildKind (state : SchemaState) : SchemaVariant → SchemaKind
  | .constant => .constant (state.value.getD .null) (state.valueType.getD 0)
  | .object => .object (state.properties.getD [])
  | .scalar => .scalar (state.scalar.getD .any)
  | .array => .array (state.elementType.getD 0)

/-- The kind of a schema with these members besides its name. -/
def schemaKind (members : List (String × Value)) : Except ReadError SchemaKind := do
  let (variant, members) ← splitVariant members
  let fields := variantFields variant
  let state ← members.foldlM (takeField fields) {}
  requireFields fields state
  return buildKind state variant
where
  /-- Reads one member of the variant. -/
  takeField (fields : List (Field Value SchemaState)) (state : SchemaState)
      (member : String × Value) : Except ReadError SchemaState :=
    takeMember fields (fun _ => .ok ()) state member.1 member.2

/-- The key of the name of a schema. -/
def nameKey : String := "name"

/-- The name of a schema and its other members, as read so far. -/
structure SchemaMembers where
  name : Option String := none
  others : List (String × Value) := []

/-- Reads one member of a schema. -/
def takeSchemaMember (room : Nat) (held : SchemaMembers) (member : Literal × Node) :
    Except ReadError SchemaMembers := do
  let key ← member.1.read
  if key = nameKey then
    if held.name.isSome then .error (.shape (.duplicateField nameKey))
    else return { held with name := some (← Decoder.text room member.2) }
  else return { held with others := held.others ++ [(key, ← member.2.value room)] }

/-- Reads a schema. -/
def schema : Decoder Schema
  | room, .object members ending => do
    let room ← enter room
    let held ← members.foldlM (takeSchemaMember room) {}
    stopAt ending
    match held.name with
    | none => .error (.shape (.missingField nameKey))
    | some name => return ⟨name, ← schemaKind held.others⟩
  | room, .keyless members key => do
    let room ← enter room
    let _ ← members.foldlM (takeSchemaMember room) {}
    .error key.keyError
  | _, node => node.refuse "struct Schema"

/-- The fields of a property that were read so far. -/
structure PropertyState where
  name : Option String := none
  displayName : Option (Option String) := none
  serializedName : Option String := none
  schema : Option SchemaId := none
  required : Option Bool := none

/-- How a property is read. -/
def propertyRecord : Record PropertyState Property where
  title := "struct Property"
  fields room :=
    [ .of "name" .required (Decoder.text room) (·.name)
        (fun state name => { state with name := some name }),
      .of "displayName" .optional (Decoder.text.optional room) (·.displayName)
        (fun state name => { state with displayName := some name }),
      .of "serializedName" .required (Decoder.text room) (·.serializedName)
        (fun state name => { state with serializedName := some name }),
      .of "schema" .required (Decoder.index room) (·.schema)
        (fun state id => { state with schema := some id }),
      .of "required" .optional (Decoder.flag room) (·.required)
        (fun state flag => { state with required := some flag }) ]
  start := {}
  build state :=
    { name := state.name.getD ""
      displayName := state.displayName.getD none
      serializedName := state.serializedName.getD ""
      schema := state.schema.getD 0
      required := state.required.getD false }

/-- Reads a property. -/
def property : Decoder Property := propertyRecord.decode

end Reading

end ClientPlan.Wire

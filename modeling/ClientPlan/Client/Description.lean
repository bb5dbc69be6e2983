import ClientPlan.Wire.Parameter

/-!
# What clients see

Arguments, models and their properties, as derived from the entries of a code model.
-/

namespace ClientPlan

/-- The type of an argument or a property. -/
inductive ClientType where
  | string
  | integer
  | number
  | boolean
  | dateTime
  | binary
  | any
  /-- Lists of values of one type. -/
  | list (element : ClientType)
  /-- A named model. -/
  | model (name : String)
deriving DecidableEq, Repr

/-- An argument of a client method. -/
structure Argument where
  name : String
  type : ClientType
  required : Bool
  /-- Where the argument is sent, if it reaches the wire by itself. -/
  location : Option Wire.Location
  isConstant : Bool
deriving DecidableEq, Repr

/-- A field of a model. -/
structure ModelProperty where
  /-- The name that clients see. -/
  name : String
  /-- The name on the wire. -/
  serializedName : String
  type : ClientType
  required : Bool
deriving DecidableEq, Repr

/-- A structured type. -/
structure Model where
  name : String
  properties : List ModelProperty
deriving DecidableEq, Repr

/-- The type of the values of a primitive kind. -/
def ClientType.ofScalar : Wire.ScalarType → ClientType
  | .string => .string
  | .integer => .integer
  | .number => .number
  | .boolean => .boolean
  | .dateTime => .dateTime
  | .binary => .binary
  | .any => .any

/-- The written form of a type. -/
def ClientType.text : ClientType → String
  | .string => "string"
  | .integer | .number => "number"
  | .boolean => "boolean"
  | .dateTime => "Date"
  | .binary => "Uint8Array"
  | .any => "unknown"
  | .list element => element.text ++ "[]"
  | .model name => name

namespace Model

/-- The first property of a name. -/
def named? (model : Model) (name : String) : Option ModelProperty :=
  model.properties.find? fun property => property.name = name

/-- The first property of a name on the wire. -/
def serializedAs? (model : Model) (name : String) : Option ModelProperty :=
  model.properties.find? fun property => property.serializedName = name

end Model

end ClientPlan

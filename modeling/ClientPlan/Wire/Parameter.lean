import ClientPlan.Wire.Schema

/-!
# Wire parameters

A parameter is what a service takes on the wire. It may be grouped into a composite parameter, or
spread from one of which it fills a property.
-/

namespace ClientPlan.Wire

/-- Where a parameter is sent. -/
inductive Location where
  | path
  | query
  | header
  | body
  | cookie
  | uri
deriving DecidableEq, Repr

/-- The name of a location. -/
def Location.name : Location → String
  | .path => "path"
  | .query => "query"
  | .header => "header"
  | .body => "body"
  | .cookie => "cookie"
  | .uri => "uri"

/-- How something is carried by the protocols: its binding to HTTP, if it has one. -/
structure Protocols (β : Type) where
  http : Option β
deriving DecidableEq, Repr

/-- The binding of a parameter to HTTP. -/
structure ParameterBinding where
  location : Location
deriving DecidableEq, Repr

/-- A parameter of the service. -/
structure Parameter where
  name : String
  /-- The name shown to clients, where it differs. -/
  displayName : Option String
  /-- The name on the wire. -/
  serializedName : String
  schema : SchemaId
  protocol : Option (Protocols ParameterBinding)
  /-- Whether other parameters were spread from its properties. -/
  flattened : Bool
  required : Bool
  /-- The composite parameter that bundles it. -/
  groupedBy : Option ParameterId
  /-- The structured parameter it was spread from. -/
  spreadFrom : Option ParameterId
  /-- The property of that parameter which it fills. -/
  targetProperty : Option PropertyId
deriving DecidableEq, Repr

namespace Parameter

/-- The name of a parameter that clients see. -/
def shownName (parameter : Parameter) : String := parameter.displayName.getD parameter.name

/-- The binding of a parameter to HTTP. -/
def http (parameter : Parameter) : Option ParameterBinding := parameter.protocol.bind (·.http)

/-- Where a parameter is sent, if it reaches the wire by itself. -/
def location (parameter : Parameter) : Option Location := parameter.http.map (·.location)

/-- Whether a parameter is grouped or spread. -/
def isLinked (parameter : Parameter) : Bool :=
  parameter.groupedBy.isSome || parameter.spreadFrom.isSome

end Parameter

end ClientPlan.Wire

import ClientPlan.Wire.Parameter

/-!
# Operations and requests

An operation has one or more request variants. The content type of a request is settled by its
declared media types.
-/

namespace ClientPlan.Wire

/-- An HTTP method. -/
inductive HttpMethod where
  | get
  | post
  | put
  | patch
  | delete
  | head
deriving DecidableEq, Repr

/-- The lower-case name of a method. -/
def HttpMethod.name : HttpMethod → String
  | .get => "get"
  | .post => "post"
  | .put => "put"
  | .patch => "patch"
  | .delete => "delete"
  | .head => "head"

/-- The upper-case name of a method. -/
def HttpMethod.verb : HttpMethod → String
  | .get => "GET"
  | .post => "POST"
  | .put => "PUT"
  | .patch => "PATCH"
  | .delete => "DELETE"
  | .head => "HEAD"

/-- A family of media types. -/
inductive MediaFamily where
  | json
  | xml
  | form
  | binary
  | multipart
  | text
deriving DecidableEq, Repr

/-- The content type of requests that declare nothing more specific. -/
def jsonContentType : String := "application/json"

/-- The canonical content type of a family. -/
def MediaFamily.contentType : MediaFamily → String
  | .json => jsonContentType
  | .xml => "application/xml"
  | .form => "application/x-www-form-urlencoded"
  | .binary => "application/octet-stream"
  | .multipart => "multipart/form-data"
  | .text => "text/plain"

/-- The binding of a request to HTTP. -/
structure RequestBinding where
  method : Option HttpMethod
  path : Option String
  /-- The declared media types in declaration order. -/
  mediaTypes : Option (List String)
  /-- The family that the media types belong to. -/
  knownMediaType : Option MediaFamily
deriving DecidableEq, Repr

/-- One variant of an operation. -/
structure Request where
  /-- All wire parameters in order. -/
  parameters : List ParameterId
  /-- The parameters of the method, where the model fixes them. -/
  signatureParameters : List ParameterId
  protocol : Option (Protocols RequestBinding)
deriving DecidableEq, Repr

namespace Request

/-- The binding of a request to HTTP. -/
def http (request : Request) : Option RequestBinding := request.protocol.bind (·.http)

/-- The declared media types of a request. -/
def mediaTypes (request : Request) : Option (List String) := request.http.bind (·.mediaTypes)

/-- The content type of a request: its one declared media type, or else the canonical type of its
family, or else JSON. -/
def contentType (request : Request) : String :=
  match request.mediaTypes with
  | some [only] => only
  | _ => ((request.http.bind (·.knownMediaType)).map MediaFamily.contentType).getD jsonContentType

/-- Whether a content type is among the declared media types. -/
def hasContentType (request : Request) (contentType : String) : Bool :=
  (request.mediaTypes.getD []).contains contentType

end Request

/-- An operation of the service. -/
structure Operation where
  name : String
  requests : List Request
deriving DecidableEq, Repr

end ClientPlan.Wire

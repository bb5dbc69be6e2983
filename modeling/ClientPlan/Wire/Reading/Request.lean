import ClientPlan.Wire.Reading.Parameter
import ClientPlan.Wire.Request

/-!
# Reading requests and operations
-/

namespace ClientPlan.Wire.Reading

open Json

/-- The HTTP methods by name. -/
def httpMethods : List (String × HttpMethod) :=
  [HttpMethod.get, .post, .put, .patch, .delete, .head].map fun method => (method.name, method)

/-- The families of media types by name. -/
def mediaFamilies : List (String × MediaFamily) :=
  [ ("json", .json), ("xml", .xml), ("form", .form), ("binary", .binary),
    ("multipart", .multipart), ("text", .text) ]

/-- The fields of the binding of a request that were read so far. -/
structure RequestBindingState where
  method : Option (Option HttpMethod) := none
  path : Option (Option String) := none
  mediaTypes : Option (Option (List String)) := none
  knownMediaType : Option (Option MediaFamily) := none

/-- How the binding of a request to HTTP is read. -/
def requestBindingRecord : Record RequestBindingState RequestBinding where
  title := "struct HttpRequest"
  fields room :=
    [ .of "method" .optional ((Decoder.choice httpMethods).optional room) (·.method)
        (fun state method => { state with method := some method }),
      .of "path" .optional (Decoder.text.optional room) (·.path)
        (fun state path => { state with path := some path }),
      .of "mediaTypes" .optional (Decoder.text.list.optional room) (·.mediaTypes)
        (fun state types => { state with mediaTypes := some types }),
      .of "knownMediaType" .optional ((Decoder.choice mediaFamilies).optional room)
        (·.knownMediaType) (fun state family => { state with knownMediaType := some family }) ]
  start := {}
  build state :=
    { method := state.method.getD none
      path := state.path.getD none
      mediaTypes := state.mediaTypes.getD none
      knownMediaType := state.knownMediaType.getD none }

/-- The fields of a request that were read so far. -/
structure RequestState where
  parameters : Option (List ParameterId) := none
  signatureParameters : Option (List ParameterId) := none
  protocol : Option (Option (Protocols RequestBinding)) := none

/-- How a request is read. -/
def requestRecord : Record RequestState Request where
  title := "struct Request"
  fields room :=
    [ .of "parameters" .optional (Decoder.index.list room) (·.parameters)
        (fun state ids => { state with parameters := some ids }),
      .of "signatureParameters" .optional (Decoder.index.list room) (·.signatureParameters)
        (fun state ids => { state with signatureParameters := some ids }),
      .of "protocol" .optional ((protocolsRecord requestBindingRecord.decode).decode.optional room)
        (·.protocol) (fun state protocol => { state with protocol := some protocol }) ]
  start := {}
  build state :=
    { parameters := state.parameters.getD []
      signatureParameters := state.signatureParameters.getD []
      protocol := state.protocol.getD none }

/-- Reads a request. -/
def request : Decoder Request := requestRecord.decode

/-- The fields of an operation that were read so far. -/
structure OperationState where
  name : Option String := none
  requests : Option (List Request) := none

/-- How an operation is read. -/
def operationRecord : Record OperationState Operation where
  title := "struct Operation"
  fields room :=
    [ .of "name" .required (Decoder.text room) (·.name)
        (fun state name => { state with name := some name }),
      .of "requests" .optional (request.list room) (·.requests)
        (fun state requests => { state with requests := some requests }) ]
  start := {}
  build state := ⟨state.name.getD "", state.requests.getD []⟩

/-- Reads an operation. -/
def operation : Decoder Operation := operationRecord.decode

end ClientPlan.Wire.Reading

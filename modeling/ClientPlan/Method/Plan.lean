import ClientPlan.Method.Registry
import ClientPlan.Options

/-!
# Client methods

A client method has a signature and the transformations that rebuild the wire parameters of its
request. A plan holds the methods of all selected operations.
-/

namespace ClientPlan

open Wire (HttpMethod Operation ParameterId Request Tables)

/-- A planned method. -/
structure ClientMethod where
  name : String
  kind : MethodKind
  httpMethod : Option HttpMethod
  path : Option String
  contentType : String
  parameters : List Argument
  transformations : List Transformation
deriving DecidableEq, Repr

/-- The parameters that a protocol method takes: those sent by themselves, unless fixed or spread
from others. -/
def wireSignature (entries : List WireEntry) : List ParameterId :=
  (entries.filter fun entry =>
    entry.parameter.http.isSome && entry.parameter.spreadFrom.isNone &&
      !entry.schema.isConstant).map (·.id)

/-- The parameters that a convenience method takes where the model does not fix them: groups in
place of their members, and what is spread in place of what it is spread from. -/
def derivedSignature (entries : List WireEntry) : List ParameterId :=
  let spreadFrom := entries.filterMap (·.parameter.spreadFrom)
  let taken := entries.filter fun entry =>
    !entry.schema.isConstant && !spreadFrom.contains entry.id
  (taken.map fun entry => entry.parameter.groupedBy.getD entry.id).eraseDups

/-- The parameters that a method takes. -/
def signature (tables : Tables) (request : Request) (kind : MethodKind) :
    Except PlanError (List ParameterId) :=
  match kind, request.signatureParameters with
  | .protocol, _ => wireSignature <$> request.parameters.mapM tables.entryAt
  | .convenience, [] => derivedSignature <$> request.parameters.mapM tables.entryAt
  | .convenience, declared => .ok declared

/-- The registry of the method of a request. -/
def registryOf (tables : Tables) (mapper : Mapper) (operation : String) (request : Request)
    (kind : MethodKind) : Except PlanError Registry :=
  request.parameters.foldlM offer (Registry.new operation (kind = .protocol))
where
  /-- Offers the argument of one wire parameter. -/
  offer (registry : Registry) (id : ParameterId) : Except PlanError Registry := do
    registry.add tables (← mapper.argument id) id

/-- Plans the method of a request. -/
def ClientMethod.plan (tables : Tables) (mapper : Mapper) (operation : String) (request : Request)
    (kind : MethodKind) : Except PlanError ClientMethod := do
  (tables.checkRequest operation request).mapError .danglingRequest
  let parameters ← (← signature tables request kind).mapM mapper.argument
  let registry ← registryOf tables mapper operation request kind
  let transformations ← registry.transformations tables mapper request
  return { name := operation
           kind := kind
           httpMethod := request.http.bind (·.method)
           path := request.http.bind (·.path)
           contentType := request.contentType
           parameters := parameters
           transformations := transformations }

/-- A method to plan. -/
structure Task where
  operation : String
  request : Request
  kind : MethodKind
deriving DecidableEq, Repr

/-- The methods that options select, by operation, then request, then variant. -/
def Options.tasks (options : Options) (operations : List Operation) : List Task :=
  (operations.filter fun operation => options.includes operation.name).flatMap fun operation =>
    operation.requests.flatMap fun request =>
      options.kinds.map fun kind => ⟨operation.name, request, kind⟩

/-- Plans every selected method, stopping at the first that fails. -/
def planMethods (tables : Tables) (mapper : Mapper) (options : Options) :
    Except PlanError (List ClientMethod) :=
  (options.tasks tables.operations).mapM fun task =>
    ClientMethod.plan tables mapper task.operation task.request task.kind

end ClientPlan

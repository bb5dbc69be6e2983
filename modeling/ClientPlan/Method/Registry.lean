import ClientPlan.Client.Mapper
import ClientPlan.Method.Mapping

/-!
# Registered arguments

A registry holds the arguments of one method that are grouped or spread, each with the wire
parameter it was made from. It keeps one registration for each argument name, in the order of names.
They are resolved in the order of the wire parameters, and in the order of names where one parameter
has several, whatever the order they were offered in.
-/

namespace ClientPlan

open Wire (Parameter ParameterId Request Schema Tables)

/-- A wire parameter with its schema. -/
structure WireEntry where
  id : ParameterId
  parameter : Parameter
  schema : Schema
deriving DecidableEq, Repr

/-- Looks up a parameter and its schema. -/
def Wire.Tables.entryAt (tables : Tables) (id : ParameterId) : Except PlanError WireEntry := do
  let parameter ← tables.parameterAt id
  return ⟨id, parameter, ← tables.schemaAt parameter.schema⟩

/-- Whether a parameter is structured, spread into others, and sent by itself. -/
def WireEntry.isFlattened (entry : WireEntry) : Bool :=
  entry.parameter.flattened && entry.parameter.http.isSome && !entry.schema.isConstant

/-- An argument and the wire parameter it was made from. -/
structure Registration where
  argument : Argument
  parameter : ParameterId
deriving DecidableEq, Repr

namespace Registration

/-- Puts a registration at its place among others in the order of argument names. It takes the place
of the one that has its name. -/
def place (registration : Registration) : List Registration → List Registration
  | [] => [registration]
  | other :: rest =>
    if registration.argument.name < other.argument.name then registration :: other :: rest
    else if registration.argument.name = other.argument.name then registration :: rest
    else other :: place registration rest

/-- Only the registration itself is new. -/
theorem mem_of_mem_place {registration other : Registration} {entries : List Registration}
    (hmem : other ∈ registration.place entries) : other = registration ∨ other ∈ entries := by
  induction entries with
  | nil => exact Or.inl (List.mem_singleton.mp hmem)
  | cons entry rest ih =>
    unfold place at hmem
    split at hmem
    · exact List.mem_cons.mp hmem
    · split at hmem
      · rcases List.mem_cons.mp hmem with heq | hrest
        · exact Or.inl heq
        · exact Or.inr (List.mem_cons_of_mem _ hrest)
      · rcases List.mem_cons.mp hmem with heq | hrest
        · exact Or.inr (heq ▸ List.mem_cons_self)
        · exact (ih hrest).imp_right (List.mem_cons_of_mem _)

/-- Placing a registration keeps the order of argument names. -/
theorem place_ordered {registration : Registration} {entries : List Registration}
    (hordered : entries.Pairwise fun left right => left.argument.name < right.argument.name) :
    (registration.place entries).Pairwise fun left right =>
      left.argument.name < right.argument.name := by
  induction entries with
  | nil => exact List.pairwise_singleton _ _
  | cons entry rest ih =>
    obtain ⟨hentry, hrest⟩ := List.pairwise_cons.mp hordered
    unfold place
    split
    next hlt =>
      refine List.pairwise_cons.mpr ⟨fun other hother => ?_, hordered⟩
      rcases List.mem_cons.mp hother with rfl | hother
      · exact hlt
      · exact String.lt_trans hlt (hentry other hother)
    next hnlt =>
      split
      next heq => exact List.pairwise_cons.mpr ⟨fun other hother => heq ▸ hentry other hother, hrest⟩
      next hne =>
        refine List.pairwise_cons.mpr ⟨fun other hother => ?_, ih hrest⟩
        rcases mem_of_mem_place hother with rfl | hother
        · exact Std.lt_of_le_of_ne (String.not_lt.mp hnlt) (Ne.symm hne)
        · exact hentry other hother

/-- Where the value of a registration is written to: the property that it fills of the parameter it
was spread from, or the argument itself. -/
def target (tables : Tables) (mapper : Mapper) (operation : String)
    (registration : Registration) : Except PlanError Target := do
  let parameter ← tables.parameterAt registration.parameter
  match parameter.spreadFrom with
  | none => return ⟨registration.argument, none, none⟩
  | some whole =>
    match parameter.targetProperty with
    | none =>
      .error (.missingTarget operation parameter.name (← tables.parameterAt whole).name)
    | some property =>
      return { argument := ← mapper.argument whole
               property := some (← mapper.property property)
               propertyName := some (← tables.propertyAt property).shownName }

/-- The property of a group's model that stands for a parameter: the first that clients know by the
same name, or else the first with the same name on the wire. -/
def groupProperty? (model : Model) (parameter : Parameter) : Option ModelProperty :=
  (model.named? parameter.shownName).or (model.serializedAs? parameter.serializedName)

/-- Where the value of a registration is read from: a property of the argument that groups it, or
the argument itself. -/
def source (tables : Tables) (mapper : Mapper) (operation : String)
    (registration : Registration) : Except PlanError Source := do
  let parameter ← tables.parameterAt registration.parameter
  match parameter.groupedBy with
  | none => return ⟨registration.argument, none⟩
  | some groupId =>
    let group ← tables.parameterAt groupId
    let schema ← tables.schemaAt group.schema
    if schema.isObject then
      let model ← mapper.model group.schema
      match groupProperty? model parameter with
      | some property => return ⟨← mapper.argument groupId, some property⟩
      | none => .error (.groupLacksProperty operation parameter.shownName model.name)
    else .error (.groupNotObject operation parameter.name group.name schema.name)

/-- The mapping of a registration. -/
def mapping (tables : Tables) (mapper : Mapper) (operation : String)
    (registration : Registration) : Except PlanError Mapping := do
  let target ← registration.target tables mapper operation
  return ⟨← registration.source tables mapper operation, target⟩

end Registration

/-- The registered arguments of one method. -/
structure Registry where
  operation : String
  /-- Whether the method takes wire values directly. -/
  isProtocol : Bool
  /-- The registrations in the order of their argument names. -/
  entries : List Registration
  /-- No two registrations have the same argument name. -/
  ordered : entries.Pairwise fun left right => left.argument.name < right.argument.name
deriving DecidableEq, Repr

namespace Registry

/-- The registry of a method of which no argument was offered yet. -/
def new (operation : String) (isProtocol : Bool) : Registry := ⟨operation, isProtocol, [], .nil⟩

/-- The number of registered arguments. -/
def size (registry : Registry) : Nat := registry.entries.length

/-- Whether no argument is registered. -/
def isEmpty (registry : Registry) : Bool := registry.entries.isEmpty

/-- Registers an argument in place of any other of its name. -/
def insert (registry : Registry) (registration : Registration) : Registry :=
  { registry with
    entries := registration.place registry.entries
    ordered := Registration.place_ordered registry.ordered }

/-- Offers an argument and the wire parameter it was made from. It is registered if it is grouped or
spread, not constant, and the method does not take wire values directly. -/
def add (tables : Tables) (registry : Registry) (argument : Argument) (id : ParameterId) :
    Except PlanError Registry :=
  match tables.parameters[id]? with
  | none => .error (.unknownParameter registry.operation id)
  | some parameter => do
    let schema ← tables.schemaAt parameter.schema
    if registry.isProtocol || schema.isConstant || !parameter.isLinked then return registry
    else return registry.insert ⟨argument, id⟩

/-- The registrations in the order of their wire parameters. Those of one parameter stay in the
order of their argument names. -/
def inWireOrder (registry : Registry) : List Registration :=
  registry.entries.mergeSort fun left right => left.parameter ≤ right.parameter

/-- The parameters that registered arguments were spread from. -/
def spreadFrom (tables : Tables) (registry : Registry) : Except PlanError (List ParameterId) := do
  let parameters ← registry.entries.mapM fun entry => tables.parameterAt entry.parameter
  return parameters.filterMap (·.spreadFrom)

/-- The flattened parameters of a request that no registered argument was spread from. -/
def uncovered (tables : Tables) (registry : Registry) (request : Request) :
    Except PlanError (List ParameterId) := do
  let spreadFrom ← registry.spreadFrom tables
  let entries ← request.parameters.mapM tables.entryAt
  return (entries.filter fun entry => entry.isFlattened && !spreadFrom.contains entry.id).map (·.id)

/-- The transformations that rebuild the wire parameters of a request: first those of the registered
arguments, by name of the output in order of first appearance, then the flattened parameters that
nothing else rebuilds. -/
def transformations (tables : Tables) (mapper : Mapper) (registry : Registry) (request : Request) :
    Except PlanError (List Transformation) := do
  (tables.checkRequest registry.operation request).mapError .danglingRequest
  if registry.isProtocol then return []
  else
    let mappings ← registry.inWireOrder.mapM (·.mapping tables mapper registry.operation)
    let grouped := mappings.foldl Transformation.addMapping []
    let arguments ← (← registry.uncovered tables request).mapM mapper.argument
    return arguments.foldl Transformation.cover grouped

end Registry

end ClientPlan

import ClientPlan.Client.Mapper

/-!
# Renamed descriptions

A renaming gives entries other names than their tables do, and may refuse to describe schemas as
models.
-/

namespace ClientPlan

open Wire (ParameterId PropertyId SchemaId Tables)

/-- Other names for a model and for its first properties. -/
structure ModelNames where
  name : Option String
  properties : List String
deriving DecidableEq, Repr

/-- Other names for wire entries. Of several names for one entry the first counts. -/
structure Renaming where
  parameters : List (ParameterId × String)
  properties : List (PropertyId × String)
  models : List (SchemaId × ModelNames)
  /-- The schemas that have no model. -/
  rejected : List SchemaId
deriving DecidableEq, Repr

/-- The renaming that leaves all names alone. -/
def Renaming.empty : Renaming := ⟨[], [], [], []⟩

/-- Renames the first properties in order. -/
def renameProperties : List String → List ModelProperty → List ModelProperty
  | name :: names, property :: properties =>
    { property with name := name } :: renameProperties names properties
  | _, properties => properties

/-- A model under its other names. -/
def ModelNames.rename (names : ModelNames) (model : Model) : Model :=
  ⟨names.name.getD model.name, renameProperties names.properties model.properties⟩

/-- The descriptions that the tables give, under other names. -/
def Mapper.renamed (tables : Tables) (names : Renaming) : Mapper where
  argument id := do
    let argument ← tables.argument id
    return { argument with name := (names.parameters.lookup id).getD argument.name }
  model id := do
    let model ← tables.model id
    if names.rejected.contains id then
      .error (.notAnObject (← tables.schemaAt id).name)
    else return ((names.models.lookup id).map (·.rename model)).getD model
  property id := do
    let property ← tables.modelProperty id
    return { property with name := (names.properties.lookup id).getD property.name }

end ClientPlan

import ClientPlan.Wire.Tables

/-!
# Planning errors

All but the last two causes are inconsistencies of a code model or of what a caller handed in. The
last two cannot arise from a checked code model and ids inside its tables.
-/

namespace ClientPlan

open Wire (ParameterId SchemaId Table TableError)

/-- Why a method cannot be planned. -/
inductive PlanError where
  /-- No property of the grouping model matches a grouped parameter. -/
  | groupLacksProperty (operation parameter model : String)
  /-- A parameter is grouped by one whose schema is no object. -/
  | groupNotObject (operation parameter group schema : String)
  /-- A spread parameter does not say which property it fills. -/
  | missingTarget (operation parameter whole : String)
  /-- A registered id is not in the code model. -/
  | unknownParameter (operation : String) (id : ParameterId)
  /-- A request refers to parameters outside the code model. -/
  | danglingRequest (error : TableError)
  /-- A schema that is no object was asked for its model. -/
  | notAnObject (schema : String)
  /-- An entry outside its table was looked up. -/
  | outsideTable (table : Table) (id : Nat)
  /-- The element types that start from a schema run in a circle. -/
  | endlessType (id : SchemaId)
deriving DecidableEq, Repr

/-- The wording of a planning error. -/
def PlanError.message : PlanError → String
  | .groupLacksProperty operation parameter model =>
    "operation '" ++ operation ++ "': grouping model '" ++ model ++
      "' has no property matching parameter '" ++ parameter ++ "' by name or serialized name"
  | .groupNotObject operation parameter group schema =>
    "operation '" ++ operation ++ "': parameter '" ++ parameter ++ "' is grouped by '" ++ group ++
      "' whose schema '" ++ schema ++ "' is not an object schema"
  | .missingTarget operation parameter whole =>
    "operation '" ++ operation ++ "': parameter '" ++ parameter ++ "' is spread from '" ++
      whole ++ "' but has no target property"
  | .unknownParameter operation id =>
    "operation '" ++ operation ++ "': parameter #" ++ toString id ++ " is not in the code model"
  | .danglingRequest error => error.message
  | .notAnObject schema => "schema '" ++ schema ++ "' is not an object schema and has no model"
  | .outsideTable table id => table.entryName ++ " #" ++ toString id ++ " is outside its table"
  | .endlessType id => "schema #" ++ toString id ++ " is part of an element type cycle"

end ClientPlan

import ClientPlan.Wire.Reading.Request
import ClientPlan.Wire.Reading.Schema
import ClientPlan.Wire.Tables

/-!
# Code models

A code model is a set of tables that passed all checks. It is obtained from a JSON text only.
-/

namespace ClientPlan.Wire

open Json

namespace Reading

/-- The tables that were read so far. -/
structure TablesState where
  schemas : Option (List Schema) := none
  properties : Option (List Property) := none
  parameters : Option (List Parameter) := none
  operations : Option (List Operation) := none

/-- How the tables of a code model are read. -/
def tablesRecord : Record TablesState Tables where
  title := "struct RawCodeModel"
  fields room :=
    [ .of "schemas" .optional (schema.list room) (·.schemas)
        (fun state schemas => { state with schemas := some schemas }),
      .of "properties" .optional (property.list room) (·.properties)
        (fun state properties => { state with properties := some properties }),
      .of "parameters" .optional (parameter.list room) (·.parameters)
        (fun state parameters => { state with parameters := some parameters }),
      .of "operations" .optional (operation.list room) (·.operations)
        (fun state operations => { state with operations := some operations }) ]
  start := {}
  build state :=
    { schemas := state.schemas.getD []
      properties := state.properties.getD []
      parameters := state.parameters.getD []
      operations := state.operations.getD [] }

end Reading

/-- Reads the tables of a code model. -/
def Tables.ofText (text : String) : Except ReadError Tables :=
  Reading.tablesRecord.decode.run text

/-- Reads a request by itself. Its ids are not checked. -/
def Request.ofText (text : String) : Except ReadError Request :=
  Reading.request.run text

/-- Why a text is no code model. -/
inductive ModelError where
  | read (error : ReadError)
  | tables (error : TableError)
deriving DecidableEq, Repr

/-- Tables that passed all checks. -/
structure CodeModel extends Tables where
  checked : toTables.check = .ok ()
deriving DecidableEq, Repr

namespace CodeModel

/-- Accepts tables that pass all checks. -/
def ofTables (tables : Tables) : Except TableError CodeModel :=
  match checked : tables.check with
  | .ok () => .ok ⟨tables, checked⟩
  | .error error => .error error

/-- Reads a code model. -/
def ofText (text : String) : Except ModelError CodeModel := do
  let tables ← (Tables.ofText text).mapError .read
  (ofTables tables).mapError .tables

end CodeModel

/-- The first operation of a name. -/
def Tables.operation? (tables : Tables) (name : String) : Option Operation :=
  tables.operations.find? fun operation => operation.name = name

end ClientPlan.Wire

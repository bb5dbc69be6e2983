import ClientPlan.Json.Record
import ClientPlan.Wire.Parameter

/-!
# Reading parameters
-/

namespace ClientPlan.Wire.Reading

open Json

/-- The locations by name. -/
def locations : List (String × Location) :=
  [Location.path, .query, .header, .body, .cookie, .uri].map fun location =>
    (location.name, location)

/-- How the binding to the protocols is read, given how the one to HTTP is. -/
def protocolsRecord {β : Type} (binding : Decoder β) :
    Record (Option (Option β)) (Protocols β) where
  title := "struct Protocols"
  fields room :=
    [.of "http" .listed (binding.optional room) (fun state => state) (fun _ http => some http)]
  start := none
  build state := ⟨state.getD none⟩

/-- How the binding of a parameter to HTTP is read. -/
def parameterBindingRecord : Record (Option Location) ParameterBinding where
  title := "struct HttpParameter"
  fields room :=
    [ .of "in" .required (Decoder.choice locations room) (fun state => state)
        (fun _ location => some location) ]
  start := none
  build state := ⟨state.getD .path⟩

/-- The fields of a parameter that were read so far. -/
structure ParameterState where
  name : Option String := none
  displayName : Option (Option String) := none
  serializedName : Option String := none
  schema : Option SchemaId := none
  protocol : Option (Option (Protocols ParameterBinding)) := none
  flattened : Option Bool := none
  required : Option Bool := none
  groupedBy : Option (Option ParameterId) := none
  spreadFrom : Option (Option ParameterId) := none
  targetProperty : Option (Option PropertyId) := none

/-- How a parameter is read. -/
def parameterRecord : Record ParameterState Parameter where
  title := "struct Parameter"
  fields room :=
    [ .of "name" .required (Decoder.text room) (·.name)
        (fun state name => { state with name := some name }),
      .of "displayName" .optional (Decoder.text.optional room) (·.displayName)
        (fun state name => { state with displayName := some name }),
      .of "serializedName" .required (Decoder.text room) (·.serializedName)
        (fun state name => { state with serializedName := some name }),
      .of "schema" .required (Decoder.index room) (·.schema)
        (fun state id => { state with schema := some id }),
      .of "protocol" .optional
        ((protocolsRecord parameterBindingRecord.decode).decode.optional room) (·.protocol)
        (fun state protocol => { state with protocol := some protocol }),
      .of "flattened" .optional (Decoder.flag room) (·.flattened)
        (fun state flag => { state with flattened := some flag }),
      .of "required" .optional (Decoder.flag room) (·.required)
        (fun state flag => { state with required := some flag }),
      .of "groupedBy" .optional (Decoder.index.optional room) (·.groupedBy)
        (fun state id => { state with groupedBy := some id }),
      .of "originalParameter" .optional (Decoder.index.optional room) (·.spreadFrom)
        (fun state id => { state with spreadFrom := some id }),
      .of "targetProperty" .optional (Decoder.index.optional room) (·.targetProperty)
        (fun state id => { state with targetProperty := some id }) ]
  start := {}
  build state :=
    { name := state.name.getD ""
      displayName := state.displayName.getD none
      serializedName := state.serializedName.getD ""
      schema := state.schema.getD 0
      protocol := state.protocol.getD none
      flattened := state.flattened.getD false
      required := state.required.getD false
      groupedBy := state.groupedBy.getD none
      spreadFrom := state.spreadFrom.getD none
      targetProperty := state.targetProperty.getD none }

/-- Reads a parameter. -/
def parameter : Decoder Parameter := parameterRecord.decode

end ClientPlan.Wire.Reading

import ClientPlan.Proofs.Json.Entries
import ClientPlan.Proofs.Json.Plain
import ClientPlan.Wire.Tables

/-!
# The format of code models

Which JSON values write tables of a code model, said without a reader: the keys of every record,
what stands under them, and which of them may be left out. Constant values are written up to the
order of members.
-/

namespace ClientPlan.Wire

open Json

/-- The name of a family of media types. -/
def MediaFamily.name : MediaFamily → String
  | .json => "json"
  | .xml => "xml"
  | .form => "form"
  | .binary => "binary"
  | .multipart => "multipart"
  | .text => "text"

/-- The name of a primitive kind. -/
def ScalarType.name : ScalarType → String
  | .string => "string"
  | .integer => "integer"
  | .number => "number"
  | .boolean => "boolean"
  | .dateTime => "date-time"
  | .binary => "binary"
  | .any => "any"

/-- The name of the variant of a schema. -/
def SchemaKind.typeName : SchemaKind → String
  | .constant _ _ => "constant"
  | .object _ => "object"
  | .scalar _ => "scalar"
  | .array _ => "array"

namespace Format

/-- A JSON value writes a constant that it equals. -/
def constant : Writing Value := fun content value => value.Alike content

/-- The keys of a kind of schema. -/
def kindEntries : SchemaKind → List Entry
  | .constant value valueType =>
    [.required "value" constant value, .required "valueType" .index valueType]
  | .object properties => [.defaulted "properties" (.list .index) [] properties]
  | .scalar type => [.required "scalar" (.named ScalarType.name) type]
  | .array elementType => [.required "elementType" .index elementType]

/-- The keys of all kinds of schemas. Only those of its own kind may stand in a schema. -/
def kindKeys : List String := ["value", "valueType", "properties", "scalar", "elementType"]

/-- An object writes a schema. -/
def schema : Writing Schema := fun content =>
  WritesRecord
    (.required "name" .text content.name ::
      .required "type" (.named SchemaKind.typeName) content.kind :: kindEntries content.kind)
    kindKeys

/-- An object writes a property. -/
def property : Writing Property := fun content =>
  WritesRecord
    [ .required "name" .text content.name,
      .optional "displayName" .text content.displayName,
      .required "serializedName" .text content.serializedName,
      .required "schema" .index content.schema,
      .defaulted "required" .flag false content.required ] []

/-- An object writes a binding to the protocols. -/
def protocols {β : Type} (binding : Writing β) : Writing (Protocols β) := fun content =>
  WritesRecord [.optional "http" binding content.http] []

/-- An object writes the binding of a parameter to HTTP. -/
def parameterBinding : Writing ParameterBinding := fun content =>
  WritesRecord [.required "in" (.named Location.name) content.location] []

/-- An object writes a parameter. -/
def parameter : Writing Parameter := fun content =>
  WritesRecord
    [ .required "name" .text content.name,
      .optional "displayName" .text content.displayName,
      .required "serializedName" .text content.serializedName,
      .required "schema" .index content.schema,
      .optional "protocol" (protocols parameterBinding) content.protocol,
      .defaulted "flattened" .flag false content.flattened,
      .defaulted "required" .flag false content.required,
      .optional "groupedBy" .index content.groupedBy,
      .optional "originalParameter" .index content.spreadFrom,
      .optional "targetProperty" .index content.targetProperty ] []

/-- An object writes the binding of a request to HTTP. An empty list of media types is not the same
as none, and is written. -/
def requestBinding : Writing RequestBinding := fun content =>
  WritesRecord
    [ .optional "method" (.named HttpMethod.name) content.method,
      .optional "path" .text content.path,
      .optional "mediaTypes" (.list .text) content.mediaTypes,
      .optional "knownMediaType" (.named MediaFamily.name) content.knownMediaType ] []

/-- An object writes a request. -/
def request : Writing Request := fun content =>
  WritesRecord
    [ .defaulted "parameters" (.list .index) [] content.parameters,
      .defaulted "signatureParameters" (.list .index) [] content.signatureParameters,
      .optional "protocol" (protocols requestBinding) content.protocol ] []

/-- An object writes an operation. -/
def operation : Writing Operation := fun content =>
  WritesRecord
    [ .required "name" .text content.name,
      .defaulted "requests" (.list request) [] content.requests ] []

/-- An object writes the tables of a code model. -/
def tables : Writing Tables := fun content =>
  WritesRecord
    [ .defaulted "schemas" (.list schema) [] content.schemas,
      .defaulted "properties" (.list property) [] content.properties,
      .defaulted "parameters" (.list parameter) [] content.parameters,
      .defaulted "operations" (.list operation) [] content.operations ] []

end Format

/-- The constant values of a schema are plain and not nested deeper than this. -/
def Schema.HasPlainConstant (depth : Nat) (schema : Schema) : Prop :=
  ∀ value valueType, schema.kind = .constant value valueType → value.IsPlain depth

/-- Plain constants are so at every greater depth. -/
theorem Schema.HasPlainConstant.mono {depth room : Nat} (hroom : depth ≤ room) {schema : Schema}
    (h : schema.HasPlainConstant depth) : schema.HasPlainConstant room :=
  fun value valueType hkind => (h value valueType hkind).mono hroom

namespace SchemaKind

/-- Kinds of schemas are equal, constant values as JSON values. -/
inductive Alike : SchemaKind → SchemaKind → Prop
  | refl (kind : SchemaKind) : Alike kind kind
  | constant {value value' : Value} (hvalue : value.Alike value') (valueType : SchemaId) :
      Alike (.constant value valueType) (.constant value' valueType)

end SchemaKind

/-- Schemas are equal, constant values as JSON values. -/
structure Schema.Alike (schema schema' : Schema) : Prop where
  name : schema.name = schema'.name
  kind : schema.kind.Alike schema'.kind

/-- Tables are equal in order, constant values as JSON values. -/
structure Tables.Alike (tables tables' : Tables) : Prop where
  schemas : List.Forall₂ Schema.Alike tables.schemas tables'.schemas
  properties : tables.properties = tables'.properties
  parameters : tables.parameters = tables'.parameters
  operations : tables.operations = tables'.operations

/-- A text writes tables in the format of code models. -/
def Tables.WrittenBy (tables : Tables) (text : String) : Prop :=
  ∃ value, Spells text.toList value ∧ Format.tables tables value

end ClientPlan.Wire

import ClientPlan.Client.Mapper
import ClientPlan.Proofs.Fallible
import ClientPlan.Wire.CodeModel

/-!
# Links that resolve

A code model is checked once, when it is loaded. Afterwards every id that one of its
entries holds lies inside the table it points into, and is found there. This file reads
that fact off the check, entry by entry.
-/

namespace ClientPlan.Wire

/-- The ids of a schema lie inside their tables. -/
structure Schema.Resolves (schema : Schema) (tables : Tables) : Prop where
  next : ∀ id ∈ schema.next?, id < tables.schemas.length
  properties : ∀ ids, schema.kind = .object ids → ∀ id ∈ ids, id < tables.properties.length

/-- The ids of a parameter lie inside their tables. -/
structure Parameter.Resolves (parameter : Parameter) (tables : Tables) : Prop where
  schema : parameter.schema < tables.schemas.length
  groupedBy : ∀ id ∈ parameter.groupedBy, id < tables.parameters.length
  spreadFrom : ∀ id ∈ parameter.spreadFrom, id < tables.parameters.length
  targetProperty : ∀ id ∈ parameter.targetProperty, id < tables.properties.length

/-- The ids of a request lie inside the table of parameters. -/
structure Request.Resolves (request : Request) (tables : Tables) : Prop where
  parameters : ∀ id ∈ request.parameters, id < tables.parameters.length
  signatureParameters : ∀ id ∈ request.signatureParameters, id < tables.parameters.length

/-- All ids of the tables lie inside the tables they point into. -/
structure Tables.Resolves (tables : Tables) : Prop where
  schemas : ∀ schema ∈ tables.schemas, schema.Resolves tables
  properties : ∀ property ∈ tables.properties, property.schema < tables.schemas.length
  parameters : ∀ parameter ∈ tables.parameters, parameter.Resolves tables
  requests : ∀ operation ∈ tables.operations, ∀ request ∈ operation.requests,
    request.Resolves tables

/-- A request fails to resolve exactly when one of its ids lies outside the table. -/
theorem Request.not_resolves_iff {request : Request} {tables : Tables} :
    ¬ request.Resolves tables ↔
      ∃ id ∈ request.parameters ++ request.signatureParameters, tables.parameters.length ≤ id := by
  constructor
  · intro h
    by_contra hall
    simp only [not_exists, not_and, Nat.not_le] at hall
    exact h ⟨fun id hid => hall id (List.mem_append_left _ hid),
      fun id hid => hall id (List.mem_append_right _ hid)⟩
  · rintro ⟨id, hid, hle⟩ hresolves
    rcases List.mem_append.mp hid with hid | hid
    · exact Nat.not_lt_of_le hle (hresolves.parameters id hid)
    · exact Nat.not_lt_of_le hle (hresolves.signatureParameters id hid)

namespace Tables

variable {tables : Tables}

/-- Looking up a parameter gives what stands at its id. -/
theorem parameterAt_eq_ok {id : ParameterId} {parameter : Parameter} :
    tables.parameterAt id = .ok parameter ↔ tables.parameters[id]? = some parameter := by
  unfold parameterAt
  cases tables.parameters[id]? <;> simp

/-- Looking up a schema gives what stands at its id. -/
theorem schemaAt_eq_ok {id : SchemaId} {schema : Schema} :
    tables.schemaAt id = .ok schema ↔ tables.schemas[id]? = some schema := by
  unfold schemaAt
  cases tables.schemas[id]? <;> simp

/-- Looking up a property gives what stands at its id. -/
theorem propertyAt_eq_ok {id : PropertyId} {property : Property} :
    tables.propertyAt id = .ok property ↔ tables.properties[id]? = some property := by
  unfold propertyAt
  cases tables.properties[id]? <;> simp

/-- An id passes its check exactly when it lies inside its table. -/
theorem checkId_eq_ok {owner : Owner} {link : Link} {table : Table} {id : Nat} :
    tables.checkId owner link table id = .ok () ↔ id < tables.length table := by
  unfold checkId
  split
  next hlt => exact ⟨fun _ => hlt, fun _ => rfl⟩
  next hnlt => exact ⟨fun h => (nomatch h), fun hlt => absurd hlt hnlt⟩

/-- Ids pass their check exactly when all of them lie inside their table. -/
theorem checkIds_eq_ok {owner : Owner} {link : Link} {table : Table} {ids : List Nat} :
    tables.checkIds owner link table ids = .ok () ↔ ∀ id ∈ ids, id < tables.length table := by
  unfold checkIds
  simp only [forM_eq_ok, checkId_eq_ok]

/-- The check of a schema covers the schema it points to and its properties. -/
theorem checkSchema_eq_ok {schema : Schema} :
    tables.checkSchema schema = .ok () ↔ schema.Resolves tables := by
  unfold checkSchema
  cases hkind : schema.kind with
  | constant value valueType =>
    rw [checkId_eq_ok]
    exact ⟨fun h => ⟨by simpa [Schema.next?, hkind, length] using h, by simp [hkind]⟩,
      fun h => h.next valueType (by simp [Schema.next?, hkind])⟩
  | object properties =>
    rw [checkIds_eq_ok]
    exact ⟨fun h => ⟨by simp [Schema.next?, hkind], by simpa [hkind, length] using h⟩,
      fun h => h.properties properties hkind⟩
  | scalar type =>
    exact ⟨fun _ => ⟨by simp [Schema.next?, hkind], by simp [hkind]⟩, fun _ => rfl⟩
  | array elementType =>
    rw [checkId_eq_ok]
    exact ⟨fun h => ⟨by simpa [Schema.next?, hkind, length] using h, by simp [hkind]⟩,
      fun h => h.next elementType (by simp [Schema.next?, hkind])⟩

/-- The check of a parameter covers its schema and all of its links. -/
theorem checkParameter_eq_ok {parameter : Parameter} :
    tables.checkParameter parameter = .ok () ↔ parameter.Resolves tables := by
  simp only [checkParameter, check_bind_eq_ok, checkId_eq_ok, checkIds_eq_ok, Option.mem_toList,
    length]
  exact ⟨fun ⟨hschema, hgroup, hspread, htarget⟩ => ⟨hschema, hgroup, hspread, htarget⟩,
    fun h => ⟨h.schema, h.groupedBy, h.spreadFrom, h.targetProperty⟩⟩

/-- The check of a request covers both of its lists of parameters. -/
theorem checkRequest_eq_ok {operation : String} {request : Request} :
    tables.checkRequest operation request = .ok () ↔ request.Resolves tables := by
  simp only [checkRequest, check_bind_eq_ok, checkIds_eq_ok, length]
  exact ⟨fun ⟨hparameters, hsignature⟩ => ⟨hparameters, hsignature⟩,
    fun h => ⟨h.parameters, h.signatureParameters⟩⟩

/-- Tables pass their check exactly when all ids resolve and no chain of element types
runs longer than the table of schemas. -/
theorem check_eq_ok :
    tables.check = .ok () ↔ tables.Resolves ∧
      ∀ schema ∈ tables.schemas, tables.endsWithin tables.schemas.length schema = true := by
  have hends (schema : Schema) : tables.checkEnds schema = .ok () ↔
      tables.endsWithin tables.schemas.length schema = true := by
    unfold checkEnds
    split
    next h => exact ⟨fun _ => h, fun _ => rfl⟩
    next h => exact ⟨fun h' => (nomatch h'), fun h' => absurd h' h⟩
  simp only [check, check_bind_eq_ok, forM_eq_ok, checkSchema_eq_ok, checkProperty, checkId_eq_ok,
    checkParameter_eq_ok, checkOperation, checkRequest_eq_ok, hends, length]
  exact ⟨fun ⟨hschemas, hproperties, hparameters, hrequests, hchains⟩ =>
      ⟨⟨hschemas, hproperties, hparameters, hrequests⟩, hchains⟩,
    fun ⟨h, hchains⟩ => ⟨h.schemas, h.properties, h.parameters, h.requests, hchains⟩⟩

end Tables

namespace CodeModel

/-- All ids of a code model resolve. -/
theorem resolves (model : CodeModel) : model.toTables.Resolves :=
  (Tables.check_eq_ok.mp model.checked).1

/-- The ids that the parameters of a code model hold resolve. -/
theorem resolves_of_parameter (model : CodeModel) {id : ParameterId} {parameter : Parameter}
    (h : model.parameters[id]? = some parameter) : parameter.Resolves model.toTables :=
  model.resolves.parameters parameter (List.mem_of_getElem? h)

end CodeModel

end ClientPlan.Wire

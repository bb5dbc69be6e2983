import ClientPlan.Proofs.ElementChain

/-!
# What is checked when tables are loaded

The check of the tables is one pass over all ids that their entries hold, in a fixed order,
followed by a search for the end of every chain of element types. Hence tables are accepted
exactly when they are well formed, and the error is the first violation in that order. The
searches come last because they look schemas up by ids: all of these were checked before.
-/

namespace ClientPlan.Wire

/-- An id that an entry holds, with the table it points into. -/
structure Reference where
  owner : Owner
  link : Link
  table : Table
  id : Nat
deriving DecidableEq, Repr

/-- The ids that a schema holds. -/
def Schema.references (schema : Schema) : List Reference :=
  match schema.kind with
  | .constant _ valueType => [⟨.schema schema.name, .valueType, .schemas, valueType⟩]
  | .object properties =>
    properties.map fun id => ⟨.schema schema.name, .properties, .properties, id⟩
  | .scalar _ => []
  | .array elementType => [⟨.schema schema.name, .elementType, .schemas, elementType⟩]

/-- The id that a property holds. -/
def Property.references (property : Property) : List Reference :=
  [⟨.property property.name, .schema, .schemas, property.schema⟩]

/-- The ids that a parameter holds. -/
def Parameter.references (parameter : Parameter) : List Reference :=
  let owner := Owner.parameter parameter.name
  [⟨owner, .schema, .schemas, parameter.schema⟩] ++
    parameter.groupedBy.toList.map (fun id => ⟨owner, .groupedBy, .parameters, id⟩) ++
    parameter.spreadFrom.toList.map (fun id => ⟨owner, .spreadFrom, .parameters, id⟩) ++
    parameter.targetProperty.toList.map fun id => ⟨owner, .targetProperty, .properties, id⟩

/-- The ids that a request of a named operation holds. -/
def Request.references (operation : String) (request : Request) : List Reference :=
  let owner := Owner.operation operation
  request.parameters.map (fun id => ⟨owner, .parameters, .parameters, id⟩) ++
    request.signatureParameters.map fun id => ⟨owner, .signatureParameters, .parameters, id⟩

/-- The ids that the requests of an operation hold. -/
def Operation.references (operation : Operation) : List Reference :=
  operation.requests.flatMap (Request.references operation.name)

namespace Tables

/-- All ids that the entries of the tables hold, in the order in which they are checked. -/
def references (tables : Tables) : List Reference :=
  tables.schemas.flatMap Schema.references ++ tables.properties.flatMap Property.references ++
    tables.parameters.flatMap Parameter.references ++
    tables.operations.flatMap Operation.references

/-- The first violation in the fixed order: an id outside its table, or, where all ids lie inside,
a schema whose chain of element types has no end. -/
inductive FirstViolation (tables : Tables) : TableError → Prop
  | dangling {before after : List Reference} {reference : Reference}
      (hsplit : tables.references = before ++ reference :: after)
      (hbefore : ∀ other ∈ before, other.id < tables.length other.table)
      (hdangles : tables.length reference.table ≤ reference.id) :
      FirstViolation tables (.danglingId reference.owner reference.link reference.table
        reference.id (tables.length reference.table))
  | endless {id : SchemaId} {schema : Schema} (hresolves : tables.Resolves)
      (hat : tables.schemas[id]? = some schema)
      (hbefore : ∀ other < id, ∃ ids, tables.Chain other ids)
      (hendless : ¬ ∃ ids, tables.Chain id ids) :
      FirstViolation tables (.schemaCycle schema.name)

/-- A search for the end of the chain of a schema that may take so many steps, with its answer. A
step looks up a schema that stands in the table. -/
inductive Search (tables : Tables) : Nat → Schema → Bool → Prop
  | ended {steps : Nat} {schema : Schema} (hlast : schema.next? = none) :
      Search tables steps schema true
  | exhausted {schema : Schema} {next : SchemaId} (hnext : schema.next? = some next) :
      Search tables 0 schema false
  | step {steps : Nat} {schema found : Schema} {next : SchemaId} {answer : Bool}
      (hnext : schema.next? = some next) (hat : tables.schemas[next]? = some found)
      (hrest : Search tables steps found answer) : Search tables (steps + 1) schema answer

variable {tables : Tables}

/-- Checks that an id lies inside its table. -/
def checkReference (tables : Tables) (reference : Reference) : Except TableError Unit :=
  tables.checkId reference.owner reference.link reference.table reference.id

/-- A reference passes its check exactly when it lies inside its table. -/
theorem checkReference_eq_ok {reference : Reference} :
    tables.checkReference reference = .ok () ↔ reference.id < tables.length reference.table :=
  checkId_eq_ok

/-- A reference fails its check with all that is known of it. -/
theorem checkReference_eq_error {reference : Reference} {error : TableError} :
    tables.checkReference reference = .error error ↔
      tables.length reference.table ≤ reference.id ∧
        .danglingId reference.owner reference.link reference.table reference.id
          (tables.length reference.table) = error := by
  unfold checkReference checkId
  split
  next hlt => exact ⟨fun h => (nomatch h), fun h => absurd hlt (Nat.not_lt_of_le h.1)⟩
  next hnlt =>
    rw [Except.error.injEq]
    exact ⟨fun h => ⟨Nat.le_of_not_lt hnlt, h⟩, And.right⟩

private theorem checkIds_eq {owner : Owner} {link : Link} {table : Table} {ids : List Nat} :
    tables.checkIds owner link table ids =
      (ids.map fun id => ⟨owner, link, table, id⟩).forM tables.checkReference := by
  simp only [checkIds, List.forM_eq_forM, List.forM_map]
  rfl

private theorem checkId_eq {owner : Owner} {link : Link} {table : Table} {id : Nat} :
    tables.checkId owner link table id =
      [(⟨owner, link, table, id⟩ : Reference)].forM tables.checkReference := by
  simp [checkReference]

/-- The check of a schema is one of its references. -/
theorem checkSchema_eq (schema : Schema) :
    tables.checkSchema schema = schema.references.forM tables.checkReference := by
  unfold checkSchema Schema.references
  cases schema.kind with
  | constant value valueType => exact checkId_eq
  | object properties => exact checkIds_eq
  | scalar type => rfl
  | array elementType => exact checkId_eq

/-- The check of a property is one of its reference. -/
theorem checkProperty_eq (property : Property) :
    tables.checkProperty property = property.references.forM tables.checkReference :=
  checkId_eq

/-- The check of a parameter is one of its references. -/
theorem checkParameter_eq (parameter : Parameter) :
    tables.checkParameter parameter = parameter.references.forM tables.checkReference := by
  simp only [checkParameter, Parameter.references, forM_append, checkId_eq, checkIds_eq,
    bind_assoc]

/-- The check of a request is one of its references. -/
theorem checkRequest_eq (operation : String) (request : Request) :
    tables.checkRequest operation request =
      (request.references operation).forM tables.checkReference := by
  simp only [checkRequest, Request.references, forM_append, checkIds_eq]

/-- The check of an operation is one of its references. -/
theorem checkOperation_eq (operation : Operation) :
    tables.checkOperation operation = operation.references.forM tables.checkReference := by
  have hrequests : tables.checkRequest operation.name = fun request =>
      (request.references operation.name).forM tables.checkReference :=
    funext (checkRequest_eq operation.name)
  rw [checkOperation, Operation.references, forM_flatMap, hrequests]

/-- The check of all tables is one of all references, followed by the searches. -/
theorem check_eq : tables.check = tables.references.forM tables.checkReference >>= fun _ =>
    tables.schemas.forM tables.checkEnds := by
  have hschemas : tables.checkSchema = fun schema =>
      schema.references.forM tables.checkReference := funext checkSchema_eq
  have hproperties : tables.checkProperty = fun property =>
      property.references.forM tables.checkReference := funext checkProperty_eq
  have hparameters : tables.checkParameter = fun parameter =>
      parameter.references.forM tables.checkReference := funext checkParameter_eq
  have hoperations : tables.checkOperation = fun operation =>
      operation.references.forM tables.checkReference := funext checkOperation_eq
  simp only [check, references, forM_append, forM_flatMap, bind_assoc, hschemas, hproperties,
    hparameters, hoperations]

/-- All ids resolve exactly when every reference passes its check. -/
theorem resolves_iff : tables.Resolves ↔
    tables.references.forM tables.checkReference = .ok () := by
  simp only [references, forM_append, forM_flatMap, bind_assoc, check_bind_eq_ok,
    ← checkSchema_eq, ← checkProperty_eq, ← checkParameter_eq, ← checkOperation_eq, forM_eq_ok,
    checkSchema_eq_ok, checkProperty, checkId_eq_ok, checkParameter_eq_ok, checkOperation,
    checkRequest_eq_ok, length]
  constructor
  · intro h
    exact ⟨h.schemas, h.properties, h.parameters, h.requests⟩
  · rintro ⟨hschemas, hproperties, hparameters, hrequests⟩
    exact ⟨hschemas, hproperties, hparameters, hrequests⟩

/-- The search from a schema of the table passes exactly when its chain ends. -/
theorem checkEnds_eq_ok (hresolves : tables.Resolves) {id : SchemaId} {schema : Schema}
    (hat : tables.schemas[id]? = some schema) :
    tables.checkEnds schema = .ok () ↔ ∃ ids, tables.Chain id ids := by
  rw [← endsWithin_iff hresolves hat]
  unfold checkEnds
  split
  next h => exact ⟨fun _ => h, fun _ => rfl⟩
  next h => exact ⟨fun h' => (nomatch h'), fun h' => absurd h' h⟩

/-- The search from a schema of the table fails with its name exactly when its chain has no end. -/
theorem checkEnds_eq_error (hresolves : tables.Resolves) {id : SchemaId} {schema : Schema}
    {error : TableError} (hat : tables.schemas[id]? = some schema) :
    tables.checkEnds schema = .error error ↔
      (¬ ∃ ids, tables.Chain id ids) ∧ .schemaCycle schema.name = error := by
  rw [← endsWithin_iff hresolves hat]
  unfold checkEnds
  split
  next h => exact ⟨fun h' => (nomatch h'), fun h' => absurd h h'.1⟩
  next h =>
    rw [Except.error.injEq]
    exact ⟨fun h' => ⟨h, h'⟩, And.right⟩

/-- The searches pass exactly when every chain of the table ends. -/
theorem forM_checkEnds_eq_ok (hresolves : tables.Resolves) :
    tables.schemas.forM tables.checkEnds = .ok () ↔
      ∀ id < tables.schemas.length, ∃ ids, tables.Chain id ids := by
  rw [forM_eq_ok]
  constructor
  · intro h id hid
    exact (checkEnds_eq_ok hresolves (List.getElem?_eq_getElem hid)).mp
      (h _ (List.getElem_mem hid))
  · intro h schema hschema
    obtain ⟨id, hid⟩ := List.mem_iff_getElem?.mp hschema
    have hlt := (List.getElem?_eq_some_iff.mp hid).1
    exact (checkEnds_eq_ok hresolves hid).mpr (h id hlt)

/-- The searches fail with the name of the first schema whose chain has no end. -/
theorem forM_checkEnds_eq_error (hresolves : tables.Resolves) {error : TableError} :
    tables.schemas.forM tables.checkEnds = .error error ↔
      ∃ id schema, tables.schemas[id]? = some schema ∧
        (∀ other < id, ∃ ids, tables.Chain other ids) ∧
          (¬ ∃ ids, tables.Chain id ids) ∧ .schemaCycle schema.name = error := by
  rw [forM_eq_error]
  constructor
  · rintro ⟨before, schema, after, hsplit, hbefore, herror⟩
    have hat : tables.schemas[before.length]? = some schema := by simp [hsplit]
    refine ⟨before.length, schema, hat, fun other hother => ?_,
      (checkEnds_eq_error hresolves hat).mp herror⟩
    have hat' : tables.schemas[other]? = some before[other] := by
      simp [hsplit, List.getElem?_append_left hother]
    exact (checkEnds_eq_ok hresolves hat').mp (hbefore _ (List.getElem_mem hother))
  · rintro ⟨id, schema, hat, hbefore, herror⟩
    obtain ⟨hid, hschema⟩ := List.getElem?_eq_some_iff.mp hat
    refine ⟨tables.schemas.take id, schema, tables.schemas.drop (id + 1), ?_, ?_,
      (checkEnds_eq_error hresolves hat).mpr herror⟩
    · rw [← hschema, List.getElem_cons_drop, List.take_append_drop]
    · intro other hother
      obtain ⟨index, hindex, rfl⟩ := List.mem_take_iff_getElem.mp hother
      have hlt : index < id := by omega
      exact (checkEnds_eq_ok hresolves (List.getElem?_eq_getElem _)).mpr (hbefore index hlt)

/-- Tables pass their check exactly when they are well formed. -/
theorem check_eq_ok_iff : tables.check = .ok () ↔
    tables.Resolves ∧ ∀ id < tables.schemas.length, ∃ ids, tables.Chain id ids := by
  rw [check_eq, check_bind_eq_ok, ← resolves_iff]
  exact and_congr_right forM_checkEnds_eq_ok

/-- Tables fail their check with the first violation. -/
theorem check_eq_error_iff {error : TableError} :
    tables.check = .error error ↔ tables.FirstViolation error := by
  rw [check_eq, bind_eq_error]
  constructor
  · rintro (hreference | ⟨⟨⟩, hresolves, hchain⟩)
    · obtain ⟨before, reference, after, hsplit, hbefore, herror⟩ := forM_eq_error.mp hreference
      obtain ⟨hdangles, rfl⟩ := checkReference_eq_error.mp herror
      exact .dangling hsplit (fun other hother => checkReference_eq_ok.mp (hbefore other hother))
        hdangles
    · have hresolves := resolves_iff.mpr hresolves
      obtain ⟨id, schema, hat, hbefore, hendless, rfl⟩ :=
        (forM_checkEnds_eq_error hresolves).mp hchain
      exact .endless hresolves hat hbefore hendless
  · rintro (⟨hsplit, hbefore, hdangles⟩ | ⟨hresolves, hat, hbefore, hendless⟩)
    · left
      exact forM_eq_error.mpr ⟨_, _, _, hsplit,
        fun other hother => checkReference_eq_ok.mpr (hbefore other hother),
        checkReference_eq_error.mpr ⟨hdangles, rfl⟩⟩
    · right
      exact ⟨(), resolves_iff.mp hresolves,
        (forM_checkEnds_eq_error hresolves).mpr ⟨_, _, hat, hbefore, hendless, rfl⟩⟩

/-- Where an id dangles, the check stops before any chain is searched. -/
theorem exists_check_eq_danglingId (hresolves : ¬ tables.Resolves) :
    ∃ owner link table id length,
      tables.check = .error (.danglingId owner link table id length) := by
  rw [resolves_iff] at hresolves
  cases hreferences : tables.references.forM tables.checkReference with
  | ok => exact absurd hreferences hresolves
  | error error =>
    obtain ⟨before, reference, after, -, -, herror⟩ := forM_eq_error.mp hreferences
    obtain ⟨-, rfl⟩ := checkReference_eq_error.mp herror
    rw [check_eq, hreferences]
    exact ⟨_, _, _, _, _, rfl⟩

/-- Where all ids resolve, a search looks up schemas of the table only, and comes to its answer. -/
theorem search_endsWithin (hresolves : tables.Resolves) {schema : Schema}
    (hschema : schema ∈ tables.schemas) (steps : Nat) :
    tables.Search steps schema (tables.endsWithin steps schema) := by
  induction steps generalizing schema with
  | zero =>
    unfold endsWithin
    cases hnext : schema.next? with
    | none => exact .ended hnext
    | some next => exact .exhausted hnext
  | succ steps ih =>
    unfold endsWithin
    cases hnext : schema.next? with
    | none => exact .ended hnext
    | some next =>
      have hlt := (hresolves.schemas schema hschema).next next hnext
      have hat := List.getElem?_eq_getElem hlt
      simp only [hat]
      exact .step hnext hat (ih (List.getElem_mem hlt))

end Tables

namespace CodeModel

variable {tables : Tables}

/-- The tables of a code model are accepted as that code model. -/
theorem exists_ofTables_eq_ok :
    (∃ model, ofTables tables = .ok model ∧ model.toTables = tables) ↔ tables.check = .ok () := by
  unfold ofTables
  split
  next hchecked => exact ⟨fun _ => hchecked, fun _ => ⟨_, rfl, rfl⟩⟩
  next herror =>
    constructor
    · rintro ⟨model, h, -⟩
      cases h
    · intro hchecked
      cases herror.symm.trans hchecked

/-- Tables are refused with the error of their check. -/
theorem ofTables_eq_error {error : TableError} :
    ofTables tables = .error error ↔ tables.check = .error error := by
  unfold ofTables
  split
  next hchecked =>
    constructor
    · exact fun h => nomatch h
    · intro herror
      cases hchecked.symm.trans herror
  next herror => rw [herror, Except.error.injEq, Except.error.injEq]

end CodeModel

/-- Loading decides whether tables are well formed. It accepts exactly those in which every id lies
inside the table it points into and every chain of element types ends, and it refuses all others
with their first violation. The chains are only searched where no id dangles, and then every
search looks up schemas of the table only and comes to its answer. A text that holds tables is
loaded exactly as these are. -/
theorem ofTables_decides (tables : Tables) :
    ((∃ model, CodeModel.ofTables tables = .ok model ∧ model.toTables = tables) ↔
      tables.Resolves ∧ ∀ id < tables.schemas.length, ∃ ids, tables.Chain id ids) ∧
    (∀ error, CodeModel.ofTables tables = .error error ↔ tables.FirstViolation error) ∧
    ((∃ owner link table id length,
        CodeModel.ofTables tables = .error (.danglingId owner link table id length)) ∨
      ∀ schema ∈ tables.schemas, tables.Search tables.schemas.length schema
        (tables.endsWithin tables.schemas.length schema)) ∧
    ∀ text, Tables.ofText text = .ok tables →
      CodeModel.ofText text = (CodeModel.ofTables tables).mapError .tables := by
  refine ⟨CodeModel.exists_ofTables_eq_ok.trans Tables.check_eq_ok_iff, fun error =>
    CodeModel.ofTables_eq_error.trans Tables.check_eq_error_iff, ?_, fun text htext => ?_⟩
  · by_cases hresolves : tables.Resolves
    · exact Or.inr fun schema hschema => Tables.search_endsWithin hresolves hschema _
    · obtain ⟨owner, link, table, id, length, h⟩ := Tables.exists_check_eq_danglingId hresolves
      exact Or.inl ⟨owner, link, table, id, length, CodeModel.ofTables_eq_error.mpr h⟩
  · simp only [CodeModel.ofText, htext, Except.mapError, bind, Except.bind]

end ClientPlan.Wire

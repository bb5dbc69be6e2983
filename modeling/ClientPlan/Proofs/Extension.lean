import ClientPlan.Proofs.Failure
import Mathlib.Data.List.Infix

/-!
# Longer tables

Entries may be added behind those that a code model has. Every id that an old entry holds lies
inside the old tables, so it still leads to the same entry, and whatever is derived from old
entries by following such ids stays the same: types, descriptions, registrations and plans. The
length of a table matters in one place, where it bounds the search for the end of a chain of
element types. A chain that ends is followed to its end under every bound that suffices.
-/

namespace ClientPlan

open Wire (CodeModel Parameter ParameterId Property PropertyId Request Schema SchemaId Tables)

/-- Tables that begin with all entries of other tables and have the same operations. -/
structure Wire.Tables.Extends (longer tables : Tables) : Prop where
  schemas : tables.schemas <+: longer.schemas
  properties : tables.properties <+: longer.properties
  parameters : tables.parameters <+: longer.parameters
  operations : longer.operations = tables.operations

/-- An entry of a table stands at the same position of each longer one. -/
theorem getElem?_eq_of_prefix_of_lt {α : Type} {xs ys : List α} (h : xs <+: ys) {i : Nat}
    (hi : i < xs.length) : ys[i]? = xs[i]? := by
  rw [List.prefix_iff_getElem?.mp h i hi, List.getElem?_eq_getElem hi]

namespace Wire.Tables.Extends

variable {longer tables : Tables}

/-- Schemas stay where they are. -/
theorem schemaAt_eq (h : longer.Extends tables) {id : SchemaId}
    (hid : id < tables.schemas.length) : longer.schemaAt id = tables.schemaAt id := by
  simp only [schemaAt, getElem?_eq_of_prefix_of_lt h.schemas hid]

/-- Properties stay where they are. -/
theorem propertyAt_eq (h : longer.Extends tables) {id : PropertyId}
    (hid : id < tables.properties.length) : longer.propertyAt id = tables.propertyAt id := by
  simp only [propertyAt, getElem?_eq_of_prefix_of_lt h.properties hid]

/-- Parameters stay where they are. -/
theorem parameterAt_eq (h : longer.Extends tables) {id : ParameterId}
    (hid : id < tables.parameters.length) : longer.parameterAt id = tables.parameterAt id := by
  simp only [parameterAt, getElem?_eq_of_prefix_of_lt h.parameters hid]

/-- A request that resolves in the tables resolves in longer ones. -/
theorem resolves_request (h : longer.Extends tables) {request : Request}
    (hrequest : request.Resolves tables) : request.Resolves longer :=
  ⟨fun id hid => Nat.lt_of_lt_of_le (hrequest.parameters id hid) h.parameters.length_le,
    fun id hid => Nat.lt_of_lt_of_le (hrequest.signatureParameters id hid) h.parameters.length_le⟩

end Wire.Tables.Extends

namespace Wire.CodeModel

open Tables (Extends)

variable {longer : Tables} (model : CodeModel)

/-- Types stay the same. -/
theorem clientType_eq (h : longer.Extends model.toTables) {id : SchemaId}
    (hid : id < model.schemas.length) : longer.clientType id = model.toTables.clientType id := by
  obtain ⟨visited, type, htype, hlength⟩ := model.exists_hasType hid
  have hlonger : longer.HasType id visited type := by
    apply htype.congr
    intro other hmem
    exact getElem?_eq_of_prefix_of_lt h.schemas (htype.chain.lt_length hmem)
  -- The bounds differ, since each is the length of its own table; the chain is shorter than both.
  have hbound := Nat.le_trans hlength h.schemas.length_le
  exact (hlonger.typeWithin_eq_ok hbound).trans (htype.typeWithin_eq_ok hlength).symm

/-- Arguments stay the same. -/
theorem argument_eq (h : longer.Extends model.toTables) {id : ParameterId}
    (hid : id < model.parameters.length) : longer.argument id = model.toTables.argument id := by
  refine bind_congr_of_ok (h.parameterAt_eq hid) fun parameter hparameter => ?_
  rw [h.parameterAt_eq hid] at hparameter
  have hschema := (model.resolves_of_parameter (Tables.parameterAt_eq_ok.mp hparameter)).schema
  refine bind_congr_of_ok (model.clientType_eq h hschema) fun type _ => ?_
  exact bind_congr_of_ok (h.schemaAt_eq hschema) fun _ _ => rfl

/-- Properties of models stay the same. -/
theorem modelProperty_eq (h : longer.Extends model.toTables) {id : PropertyId}
    (hid : id < model.properties.length) :
    longer.modelProperty id = model.toTables.modelProperty id := by
  refine bind_congr_of_ok (h.propertyAt_eq hid) fun property hproperty => ?_
  rw [h.propertyAt_eq hid] at hproperty
  have hmem := List.mem_of_getElem? (Tables.propertyAt_eq_ok.mp hproperty)
  exact bind_congr_of_ok (model.clientType_eq h (model.resolves.properties property hmem))
    fun _ _ => rfl

/-- Models stay the same. -/
theorem model_eq (h : longer.Extends model.toTables) {id : SchemaId}
    (hid : id < model.schemas.length) : longer.model id = model.toTables.model id := by
  refine bind_congr_of_ok (h.schemaAt_eq hid) fun schema hschema => ?_
  rw [h.schemaAt_eq hid] at hschema
  have hmem := List.mem_of_getElem? (Tables.schemaAt_eq_ok.mp hschema)
  cases hkind : schema.kind with
  | object properties =>
    have hproperties := (model.resolves.schemas schema hmem).properties properties hkind
    exact bind_congr_of_ok
      (mapM_congr fun id hid => model.modelProperty_eq h (hproperties id hid)) fun _ _ => rfl
  | constant value valueType => rfl
  | scalar type => rfl
  | array elementType => rfl

/-- Wire entries stay the same. -/
theorem entryAt_eq (h : longer.Extends model.toTables) {id : ParameterId}
    (hid : id < model.parameters.length) : longer.entryAt id = model.toTables.entryAt id := by
  refine bind_congr_of_ok (h.parameterAt_eq hid) fun parameter hparameter => ?_
  rw [h.parameterAt_eq hid] at hparameter
  have hschema := (model.resolves_of_parameter (Tables.parameterAt_eq_ok.mp hparameter)).schema
  exact bind_congr_of_ok (h.schemaAt_eq hschema) fun _ _ => rfl

end Wire.CodeModel

namespace Registration

variable {longer : Tables} (model : CodeModel) {registration : Registration}

/-- The target of a registration stays the same. -/
theorem target_eq_of_extends (h : longer.Extends model.toTables) (operation : String)
    (hid : registration.parameter < model.parameters.length) :
    registration.target longer (.ofTables longer) operation =
      registration.target model.toTables (.ofTables model.toTables) operation := by
  refine bind_congr_of_ok (h.parameterAt_eq hid) fun parameter hparameter => ?_
  rw [h.parameterAt_eq hid] at hparameter
  have hresolves := model.resolves_of_parameter (Tables.parameterAt_eq_ok.mp hparameter)
  cases hspread : parameter.spreadFrom with
  | none => rfl
  | some whole =>
    have hwhole := hresolves.spreadFrom whole hspread
    cases htarget : parameter.targetProperty with
    | none => exact bind_congr_of_ok (h.parameterAt_eq hwhole) fun _ _ => rfl
    | some property =>
      have hproperty := hresolves.targetProperty property htarget
      refine bind_congr_of_ok (model.argument_eq h hwhole) fun _ _ => ?_
      refine bind_congr_of_ok (model.modelProperty_eq h hproperty) fun _ _ => ?_
      exact bind_congr_of_ok (h.propertyAt_eq hproperty) fun _ _ => rfl

/-- The source of a registration stays the same. -/
theorem source_eq_of_extends (h : longer.Extends model.toTables) (operation : String)
    (hid : registration.parameter < model.parameters.length) :
    registration.source longer (.ofTables longer) operation =
      registration.source model.toTables (.ofTables model.toTables) operation := by
  refine bind_congr_of_ok (h.parameterAt_eq hid) fun parameter hparameter => ?_
  rw [h.parameterAt_eq hid] at hparameter
  have hresolves := model.resolves_of_parameter (Tables.parameterAt_eq_ok.mp hparameter)
  cases hgroup : parameter.groupedBy with
  | none => rfl
  | some groupId =>
    have hgroupId := hresolves.groupedBy groupId hgroup
    refine bind_congr_of_ok (h.parameterAt_eq hgroupId) fun group hgroupAt => ?_
    rw [h.parameterAt_eq hgroupId] at hgroupAt
    have hschema := (model.resolves_of_parameter (Tables.parameterAt_eq_ok.mp hgroupAt)).schema
    refine bind_congr_of_ok (h.schemaAt_eq hschema) fun schema _ => ?_
    cases schema.isObject with
    | false => rfl
    | true =>
      refine bind_congr_of_ok (model.model_eq h hschema) fun described _ => ?_
      cases groupProperty? described parameter with
      | none => rfl
      | some property => exact bind_congr_of_ok (model.argument_eq h hgroupId) fun _ _ => rfl

/-- The mapping of a registration stays the same. -/
theorem mapping_eq_of_extends (h : longer.Extends model.toTables) (operation : String)
    (hid : registration.parameter < model.parameters.length) :
    registration.mapping longer (.ofTables longer) operation =
      registration.mapping model.toTables (.ofTables model.toTables) operation := by
  refine bind_congr_of_ok (target_eq_of_extends model h operation hid) fun _ _ => ?_
  exact bind_congr_of_ok (source_eq_of_extends model h operation hid) fun _ _ => rfl

end Registration

namespace Registry

variable {longer : Tables} (model : CodeModel)

/-- Offering the argument of a parameter stays the same. -/
theorem offer_eq_of_extends (h : longer.Extends model.toTables) {id : ParameterId}
    (hid : id < model.parameters.length) (registry : Registry) :
    registryOf.offer longer (.ofTables longer) registry id =
      registryOf.offer model.toTables (.ofTables model.toTables) registry id := by
  refine bind_congr_of_ok (model.argument_eq h hid) fun argument _ => ?_
  have hat := List.getElem?_eq_getElem hid
  have hschema := (model.resolves_of_parameter hat).schema
  unfold add
  rw [getElem?_eq_of_prefix_of_lt h.parameters hid, hat]
  exact bind_congr_of_ok (h.schemaAt_eq hschema) fun _ _ => rfl

/-- What registered arguments were spread from stays the same. -/
theorem spreadFrom_eq_of_extends (h : longer.Extends model.toTables) {registry : Registry}
    (hwithin : registry.Within model.toTables) :
    registry.spreadFrom longer = registry.spreadFrom model.toTables :=
  bind_congr_of_ok (mapM_congr fun entry hentry => h.parameterAt_eq (hwithin entry hentry))
    fun _ _ => rfl

/-- The transformations of a request that resolves stay the same. -/
theorem transformations_eq_of_extends (h : longer.Extends model.toTables) {registry : Registry}
    (hwithin : registry.Within model.toTables) {request : Request}
    (hrequest : request.Resolves model.toTables) :
    registry.transformations longer (.ofTables longer) request =
      registry.transformations model.toTables (.ofTables model.toTables) request := by
  have hcheck : longer.checkRequest registry.operation request =
      model.checkRequest registry.operation request :=
    (Tables.checkRequest_eq_ok.mpr (h.resolves_request hrequest)).trans
      (Tables.checkRequest_eq_ok.mpr hrequest).symm
  have huncovered : registry.uncovered longer request =
      registry.uncovered model.toTables request := by
    refine bind_congr_of_ok (spreadFrom_eq_of_extends model h hwithin) fun _ _ => ?_
    exact bind_congr_of_ok
      (mapM_congr fun id hid => model.entryAt_eq h (hrequest.parameters id hid)) fun _ _ => rfl
  refine bind_congr_of_ok (congrArg _ hcheck) fun _ _ => ?_
  cases registry.isProtocol with
  | true => rfl
  | false =>
    refine bind_congr_of_ok (mapM_congr fun registration hmem => ?_) fun mappings _ => ?_
    · exact Registration.mapping_eq_of_extends model h registry.operation
        (hwithin registration (List.mem_mergeSort.mp hmem))
    · refine bind_congr_of_ok huncovered fun ids hids => ?_
      rw [huncovered, uncovered_eq_ok model hwithin hrequest] at hids
      cases hids
      refine bind_congr_of_ok (mapM_congr fun id hid => model.argument_eq h ?_) fun _ _ => rfl
      exact hrequest.parameters id (List.mem_of_mem_filter hid)

end Registry

/-- The signature of a request that resolves stays the same. -/
theorem signature_eq_of_extends (model : CodeModel) {longer : Tables}
    (h : longer.Extends model.toTables) {request : Request}
    (hrequest : request.Resolves model.toTables) (kind : MethodKind) :
    signature longer request kind = signature model.toTables request kind := by
  have hentries : request.parameters.mapM longer.entryAt =
      request.parameters.mapM model.toTables.entryAt :=
    mapM_congr fun id hid => model.entryAt_eq h (hrequest.parameters id hid)
  unfold signature
  rw [hentries]

/-- The plan of a request that resolves stays the same. -/
theorem ClientMethod.plan_eq_of_extends (model : CodeModel) {longer : Tables}
    (h : longer.Extends model.toTables) (operation : String) {request : Request}
    (hrequest : request.Resolves model.toTables) (kind : MethodKind) :
    plan longer (.ofTables longer) operation request kind =
      plan model.toTables (.ofTables model.toTables) operation request kind := by
  have hcheck : longer.checkRequest operation request = model.checkRequest operation request :=
    (Tables.checkRequest_eq_ok.mpr (h.resolves_request hrequest)).trans
      (Tables.checkRequest_eq_ok.mpr hrequest).symm
  refine bind_congr_of_ok (congrArg _ hcheck) fun _ _ => ?_
  refine bind_congr_of_ok (signature_eq_of_extends model h hrequest kind) fun ids hids => ?_
  rw [signature_eq_of_extends model h hrequest kind] at hids
  obtain ⟨ids', hids', hwithin⟩ := exists_signature model hrequest kind
  cases hids.symm.trans hids'
  refine bind_congr_of_ok (mapM_congr fun id hid => model.argument_eq h (hwithin id hid))
    fun _ _ => ?_
  have hregistry : registryOf longer (.ofTables longer) operation request kind =
      registryOf model.toTables (.ofTables model.toTables) operation request kind :=
    foldlM_congr (fun id hid => Registry.offer_eq_of_extends model h (hrequest.parameters id hid)) _
  refine bind_congr_of_ok hregistry fun registry hfilled => ?_
  rw [hregistry] at hfilled
  obtain ⟨offers, hoffers⟩ := Mapper.exists_offers_of_foldlM hfilled
  cases hfilled.symm.trans (Registry.foldlM_offer model hoffers hrequest.parameters _)
  exact bind_congr_of_ok (Registry.transformations_eq_of_extends model h
    (Registry.within_offerAll operation _ offers) hrequest) fun _ _ => rfl

/-- Entries that are added behind those of a code model change none of its plans: whatever the
options, the same methods are planned, or planning fails in the same way. -/
theorem planMethods_extends (model longer : CodeModel)
    (h : longer.toTables.Extends model.toTables) (options : Options) :
    planMethods longer.toTables (.ofTables longer.toTables) options =
      planMethods model.toTables (.ofTables model.toTables) options := by
  unfold planMethods
  rw [h.operations]
  refine mapM_congr fun task htask => ?_
  exact ClientMethod.plan_eq_of_extends model h task.operation
    (Options.resolves_of_mem_tasks model htask) task.kind

/-- A list takes its filters, which are lists of texts, from a group. -/
def filterModel : CodeModel where
  schemas := [⟨"Filters", .array 1⟩, ⟨"string", .scalar .string⟩, ⟨"Search", .object [0]⟩]
  properties := [⟨"filters", none, "filters", 0, false⟩]
  parameters := [
    ⟨"search", none, "search", 2, none, false, false, none, none, none⟩,
    ⟨"filters", none, "$filters", 0, some ⟨some ⟨.query⟩⟩, false, false, some 0, none, none⟩]
  operations := [⟨"list", [⟨[1], [], none⟩]⟩]
  checked := by rfl

/-- The same with other entries behind. They have the same names and refer to old and new ones. -/
def longerFilterModel : CodeModel where
  schemas := filterModel.schemas ++ [⟨"Search", .object [1, 0]⟩, ⟨"Filters", .array 0⟩]
  properties := filterModel.properties ++ [⟨"filters", none, "filters", 4, true⟩]
  parameters := filterModel.parameters ++
    [⟨"search", none, "search", 3, none, false, false, none, none, none⟩,
      ⟨"filters", none, "$filters", 4, none, false, false, some 2, none, none⟩]
  operations := filterModel.operations
  checked := by rfl

/-- The plan of the list. -/
def filterMethod : ClientMethod :=
  let search : Argument := ⟨"search", .model "Search", false, none, false⟩
  let filters : Argument := ⟨"filters", .list .string, false, some .query, false⟩
  { name := "list"
    kind := .convenience
    httpMethod := none
    path := none
    contentType := "application/json"
    parameters := [search]
    transformations :=
      [⟨filters, [⟨⟨search, some ⟨"filters", "filters", .list .string, false⟩⟩,
        ⟨filters, none, none⟩⟩]⟩] }

/-- The list has the same plan with the new entries. -/
theorem planMethods_extends_filter :
    longerFilterModel.toTables.Extends filterModel.toTables ∧
      planMethods filterModel.toTables (.ofTables filterModel.toTables) {} = .ok [filterMethod] ∧
      planMethods longerFilterModel.toTables (.ofTables longerFilterModel.toTables) {} =
        .ok [filterMethod] := by
  have hextends : longerFilterModel.toTables.Extends filterModel.toTables :=
    ⟨List.prefix_append _ _, List.prefix_append _ _, List.prefix_append _ _, rfl⟩
  have hplan : planMethods filterModel.toTables (.ofTables filterModel.toTables) {} =
      .ok [filterMethod] := by cbv
  exact ⟨hextends, hplan,
    (planMethods_extends filterModel longerFilterModel hextends {}).trans hplan⟩

end ClientPlan

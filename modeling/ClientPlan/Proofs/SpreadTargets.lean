import ClientPlan.Client.Renaming
import ClientPlan.Method.Render.Text
import ClientPlan.Proofs.Conservation
import ClientPlan.Proofs.Coverage
import ClientPlan.Proofs.Provenance

/-!
# The fields that spread parameters fill

A spread parameter has two links: to the structured parameter that it was spread from, and to the
property that it fills. A code model is only asked for ids that resolve, so nothing ties the two
links together, and the value may go to a field that its target does not have. The field also has
two names in a mapping, one from the mapper and one from the tables. This file says exactly when
all names agree, and when all fields are declared by the models they belong to, and gives a case
against each.
-/

namespace ClientPlan

open Wire (CodeModel Parameter ParameterId Property PropertyId Request Schema Tables)

/-- A mapping gives the property that it fills the name of that property. -/
def Mapping.NamesAgree (mapping : Mapping) : Prop :=
  ∀ property ∈ mapping.target.property, mapping.target.propertyName = some property.name

/-- A mapper describes a property under the name that its table shows. -/
def Mapper.KeepsName (mapper : Mapper) (tables : Tables) (id : PropertyId) : Prop :=
  ∀ property described, tables.properties[id]? = some property →
    mapper.property id = .ok described → described.name = property.shownName

/-- The properties that spread registrations fill. -/
def filledBy (tables : Tables) (registrations : List Registration) : List PropertyId :=
  registrations.filterMap fun registration =>
    tables.parameters[registration.parameter]?.bind fun parameter =>
      parameter.spreadFrom.bind fun _ => parameter.targetProperty

/-- The parameter of some registration was spread, and fills each of these properties. -/
theorem mem_filledBy {tables : Tables} {registrations : List Registration} {id : PropertyId} :
    id ∈ filledBy tables registrations ↔ ∃ registration ∈ registrations, ∃ parameter,
      tables.parameters[registration.parameter]? = some parameter ∧
        ∃ whole, parameter.spreadFrom = some whole ∧ parameter.targetProperty = some id := by
  simp only [filledBy, List.mem_filterMap, Option.bind_eq_some_iff]

/-- The descriptions that tables give keep all names. -/
theorem Mapper.keepsName_ofTables {tables : Tables} (id : PropertyId) :
    (Mapper.ofTables tables).KeepsName tables id := by
  intro property described hat hdescribed
  have hdescribed : tables.modelProperty id = .ok described := hdescribed
  simp only [Tables.modelProperty, bind_eq_ok, Tables.propertyAt_eq_ok, pure_eq_ok] at hdescribed
  obtain ⟨property', hat', _, _, rfl⟩ := hdescribed
  cases hat.symm.trans hat'
  rfl

/-- The value of a spread parameter fills a property that the mapper describes, under the name that
its table shows. -/
theorem Mapper.WritesTo.exists_filled {mapper : Mapper} {tables : Tables} {argument : Argument}
    {parameter : Parameter} {target : Target} {whole : ParameterId}
    (h : mapper.WritesTo tables argument parameter target)
    (hwhole : parameter.spreadFrom = some whole) :
    ∃ id property filled, parameter.targetProperty = some id ∧
      tables.properties[id]? = some property ∧ mapper.property id = .ok filled ∧
      target.property = some filled ∧ target.propertyName = some property.shownName := by
  cases h with
  | itself hnone => cases hnone.symm.trans hwhole
  | property _ htarget _ hfilled hat => exact ⟨_, _, _, htarget, hat, hfilled, rfl, rfl⟩

/-- A value that fills a property is that of a spread parameter. -/
theorem Mapper.WritesTo.exists_spreadFrom {mapper : Mapper} {tables : Tables} {argument : Argument}
    {parameter : Parameter} {target : Target}
    (h : mapper.WritesTo tables argument parameter target)
    (hfills : target.property.isSome = true) : ∃ whole, parameter.spreadFrom = some whole :=
  Option.isSome_iff_exists.mp (h.isSome_property ▸ hfills)

section

variable (model : CodeModel) {mapper : Mapper} {operation : String} {isProtocol : Bool}
  {offers : List Registration} {request : Request} {transformations : List Transformation}

/-- Every property that a mapping fills is that of a spread registration. -/
theorem exists_mem_filledBy
    (h : ((Registry.new operation isProtocol).offerAll model.toTables offers).transformations
      model.toTables mapper request = .ok transformations)
    {transformation : Transformation} (htransformation : transformation ∈ transformations)
    {mapping : Mapping} (hmapping : mapping ∈ transformation.mappings)
    {filled : ModelProperty} (hfilled : filled ∈ mapping.target.property) :
    ∃ id ∈ filledBy model.toTables
        ((Registry.new operation isProtocol).offerAll model.toTables offers).entries,
      ∃ property, model.properties[id]? = some property ∧ mapper.property id = .ok filled ∧
        mapping.target.propertyName = some property.shownName := by
  have hfills : mapping.target.property.isSome = true := Option.isSome_of_mem hfilled
  obtain ⟨registration, hregistration, hstep⟩ := Registry.exists_mem_entries model h
    (List.mem_flatMap.mpr ⟨transformation, htransformation, hmapping⟩) hfills
  obtain ⟨parameter, hparameter, -, hwrites⟩ := Registration.mapping_eq_ok.mp hstep
  obtain ⟨whole, hwhole⟩ := hwrites.exists_spreadFrom hfills
  obtain ⟨id, property, described, htarget, hat, hdescribed, hproperty, hname⟩ :=
    hwrites.exists_filled hwhole
  cases hproperty.symm.trans hfilled
  exact ⟨id, mem_filledBy.mpr
    ⟨registration, hregistration, parameter, hparameter, whole, hwhole, htarget⟩, property, hat,
    hdescribed, hname⟩

/-- Every property that a spread registration fills has a mapping that fills it. -/
theorem exists_mapping_of_mem_filledBy
    (h : ((Registry.new operation isProtocol).offerAll model.toTables offers).transformations
      model.toTables mapper request = .ok transformations) {id : PropertyId}
    (hid : id ∈ filledBy model.toTables
      ((Registry.new operation isProtocol).offerAll model.toTables offers).entries) :
    ∃ transformation ∈ transformations, ∃ mapping ∈ transformation.mappings,
      ∃ property filled, model.properties[id]? = some property ∧ mapper.property id = .ok filled ∧
        mapping.target.property = some filled ∧
        mapping.target.propertyName = some property.shownName := by
  obtain ⟨registration, hregistration, parameter, hparameter, whole, hwhole, htarget⟩ :=
    mem_filledBy.mp hid
  obtain ⟨mapping, hmem, hstep⟩ := Registry.exists_mem_flatMap_mappings model h hregistration
  obtain ⟨transformation, htransformation, hmapping⟩ := List.mem_flatMap.mp hmem
  obtain ⟨-, hwrites⟩ := Registration.sides_of_mapping hstep hparameter
  obtain ⟨id', property, filled, htarget', hat, hfilled, hproperty, hname⟩ :=
    hwrites.exists_filled hwhole
  cases htarget.symm.trans htarget'
  exact ⟨transformation, htransformation, mapping, hmapping, property, filled, hat, hfilled,
    hproperty, hname⟩

end

/-- After every run of offers each property that a mapping fills was described by the mapper, but
its name was taken from the table. So both names agree throughout exactly when the mapper keeps the
names of all properties that spread registrations fill. The descriptions that the tables
themselves give keep all names. -/
theorem namesAgree_iff (model : CodeModel) {mapper : Mapper} {operation : String}
    {isProtocol : Bool} {offers : List Registration} {request : Request}
    {transformations : List Transformation}
    (h : ((Registry.new operation isProtocol).offerAll model.toTables offers).transformations
      model.toTables mapper request = .ok transformations) :
    (∀ transformation ∈ transformations, ∀ mapping ∈ transformation.mappings,
      ∀ filled ∈ mapping.target.property,
        ∃ id ∈ filledBy model.toTables
            ((Registry.new operation isProtocol).offerAll model.toTables offers).entries,
          ∃ property, model.properties[id]? = some property ∧ mapper.property id = .ok filled ∧
            mapping.target.propertyName = some property.shownName) ∧
    ((∀ transformation ∈ transformations, ∀ mapping ∈ transformation.mappings,
        mapping.NamesAgree) ↔
      ∀ id ∈ filledBy model.toTables
          ((Registry.new operation isProtocol).offerAll model.toTables offers).entries,
        mapper.KeepsName model.toTables id) ∧
    ∀ id, (Mapper.ofTables model.toTables).KeepsName model.toTables id := by
  refine ⟨fun _ htransformation _ hmapping _ =>
      exists_mem_filledBy model h htransformation hmapping,
    ⟨fun hagree id hid property described hat hdescribed => ?_,
      fun hkeeps transformation htransformation mapping hmapping filled hfilled => ?_⟩,
    Mapper.keepsName_ofTables⟩
  · obtain ⟨transformation, htransformation, mapping, hmapping, property', filled, hat', hfilled,
      hproperty, hname⟩ := exists_mapping_of_mem_filledBy model h hid
    cases hat.symm.trans hat'
    cases hdescribed.symm.trans hfilled
    have hagrees : mapping.target.propertyName = some described.name :=
      hagree transformation htransformation mapping hmapping described hproperty
    exact Option.some.inj (hagrees.symm.trans hname)
  · obtain ⟨id, hid, property, hat, hdescribed, hname⟩ :=
      exists_mem_filledBy model h htransformation hmapping hfilled
    rw [hname, hkeeps id hid property filled hat hdescribed]

/-- A name and an age were spread from a user. Their names agree if the tables describe them. -/
theorem namesAgree_iff_user :
    let mapper := Mapper.ofTables userModel.toTables
    let registry := (Registry.new "addUser" false).offerAll userModel.toTables
      [⟨textArgument "name", 1⟩, ⟨textArgument "age", 2⟩]
    registry.transformations userModel.toTables mapper userRequest =
        .ok userMethod.transformations ∧
      (∀ transformation ∈ userMethod.transformations, ∀ mapping ∈ transformation.mappings,
        ∀ filled ∈ mapping.target.property,
          ∃ id ∈ filledBy userModel.toTables registry.entries, ∃ property,
            userModel.properties[id]? = some property ∧ mapper.property id = .ok filled ∧
              mapping.target.propertyName = some property.shownName) ∧
      ((∀ transformation ∈ userMethod.transformations, ∀ mapping ∈ transformation.mappings,
          mapping.NamesAgree) ↔
        ∀ id ∈ filledBy userModel.toTables registry.entries,
          mapper.KeepsName userModel.toTables id) ∧
      ∀ id, mapper.KeepsName userModel.toTables id := by
  intro mapper registry
  have hrun : registry.transformations userModel.toTables mapper userRequest =
      .ok userMethod.transformations := by cbv
  exact ⟨hrun, namesAgree_iff userModel hrun⟩

/-- Renamed descriptions still describe every parameter and every property. -/
theorem Mapper.describes_renamed (model : CodeModel) (names : Renaming) :
    (Mapper.renamed model.toTables names).Describes model.toTables := by
  constructor
  · intro id hlt
    obtain ⟨argument, hargument⟩ := model.exists_argument hlt
    exact ⟨_, bind_eq_ok.mpr ⟨argument, hargument, rfl⟩⟩
  · intro id hlt
    obtain ⟨property, hproperty⟩ := model.exists_modelProperty hlt
    exact ⟨_, bind_eq_ok.mpr ⟨property, hproperty, rfl⟩⟩

/-- The descriptions of the user in which the first property has another name. -/
def fullNameMapper : Mapper :=
  Mapper.renamed userModel.toTables ⟨[], [(0, "fullName")], [], []⟩

/-- The mapper calls the property that the name fills otherwise than its table does. The plan for
readers has the name in the table, and the property itself has the one of the mapper. -/
theorem exists_not_namesAgree :
    fullNameMapper.Describes userModel.toTables ∧
      ∃ transformations, ((Registry.new "addUser" false).offerAll userModel.toTables
          [⟨textArgument "name", 1⟩, ⟨textArgument "age", 2⟩]).transformations
          userModel.toTables fullNameMapper userRequest = .ok transformations ∧
        ∃ transformation ∈ transformations, ∃ mapping ∈ transformation.mappings,
          mapping.text = "user.name <- name" ∧
          mapping.target.property = some ⟨"fullName", "name", .string, true⟩ ∧
          ¬ mapping.NamesAgree := by
  let user : Argument := ⟨"user", .model "User", true, some .body, false⟩
  let settings : Argument := ⟨"settings", .model "User", false, some .body, false⟩
  let name : Mapping := ⟨⟨textArgument "name", none⟩,
    ⟨user, some ⟨"fullName", "name", .string, true⟩, some "name"⟩⟩
  let age : Mapping := ⟨⟨textArgument "age", none⟩,
    ⟨user, some ⟨"age", "age", .string, true⟩, some "age"⟩⟩
  have hrun : ((Registry.new "addUser" false).offerAll userModel.toTables
      [⟨textArgument "name", 1⟩, ⟨textArgument "age", 2⟩]).transformations userModel.toTables
        fullNameMapper userRequest =
          .ok [⟨user, [name, age]⟩, ⟨settings, [.direct settings]⟩] := by
    unfold fullNameMapper Mapper.renamed
    simp only [List.lookup_cons, List.lookup_nil]
    cbv
  refine ⟨Mapper.describes_renamed userModel _, _, hrun, ⟨user, [name, age]⟩,
    List.mem_cons_self, name, List.mem_cons_self, rfl, rfl, fun hagree => ?_⟩
  have hname : some "name" = some "fullName" := hagree _ rfl
  exact absurd hname (by decide)

/-- A parameter is an object, among whose properties is one that clients see as the given one. -/
def Wire.Tables.Declares (tables : Tables) (whole : ParameterId) (id : PropertyId) : Prop :=
  ∃ entry ids, tables.entryAt whole = .ok entry ∧ entry.schema.kind = .object ids ∧
    ∃ other ∈ ids, tables.modelProperty other = tables.modelProperty id

/-- A mapping fills a field of what its parameter was spread from: that is an object, the mapping
writes to its argument, and the property that is written to belongs to its model. -/
def Mapping.FillsField (mapping : Mapping) (tables : Tables) (parameter : Parameter) : Prop :=
  ∃ whole entry described property, parameter.spreadFrom = some whole ∧
    tables.entryAt whole = .ok entry ∧ entry.schema.isObject = true ∧
    tables.model entry.parameter.schema = .ok described ∧
    tables.argument whole = .ok mapping.target.argument ∧
    mapping.target.property = some property ∧ property ∈ described.properties

/-- A model has the fields that the properties of an object schema are. -/
theorem Wire.Tables.fields_of_model_eq_ok {tables : Tables} {id : Wire.SchemaId} {described : Model}
    (h : tables.model id = .ok described) :
    ∃ schema ids, tables.schemas[id]? = some schema ∧ schema.kind = .object ids ∧
      ids.mapM tables.modelProperty = .ok described.properties := by
  obtain ⟨schema, hschema, h⟩ := bind_eq_ok.mp h
  split at h
  next ids hkind =>
    obtain ⟨fields, hfields, h⟩ := bind_eq_ok.mp h
    cases pure_eq_ok.mp h
    exact ⟨schema, ids, Tables.schemaAt_eq_ok.mp hschema, hkind, hfields⟩
  next => cases h

/-- The value of a spread parameter fills a field exactly when what it was spread from declares the
property that it fills. -/
theorem Mapper.WritesTo.fillsField_iff (model : CodeModel) {argument : Argument}
    {parameter : Parameter} {mapping : Mapping} {whole : ParameterId} {id : PropertyId}
    (h : (Mapper.ofTables model.toTables).WritesTo model.toTables argument parameter
      mapping.target)
    (hwhole : parameter.spreadFrom = some whole) (hid : parameter.targetProperty = some id) :
    mapping.FillsField model.toTables parameter ↔ model.toTables.Declares whole id := by
  obtain ⟨id', -, filled, hid', -, hfilled, hproperty, -⟩ := h.exists_filled hwhole
  cases hid.symm.trans hid'
  constructor
  · rintro ⟨whole', entry, described, property, hwhole', hentry, -, hdescribed, -, hproperty',
      hmem⟩
    cases hwhole.symm.trans hwhole'
    cases hproperty.symm.trans hproperty'
    obtain ⟨schema, ids, hschema, hkind, hfields⟩ := Tables.fields_of_model_eq_ok hdescribed
    cases hschema.symm.trans (Tables.entryAt_eq_ok.mp hentry).2.1
    obtain ⟨other, hother, hstep⟩ := exists_of_mem_mapM hfields hmem
    exact ⟨entry, ids, hentry, hkind, other, hother, hstep.trans hfilled.symm⟩
  · rintro ⟨entry, ids, hentry, hkind, other, hother, hsame⟩
    have hschema := (Tables.entryAt_eq_ok.mp hentry).2.1
    have hobject : entry.schema.isObject = true := by simp [Schema.isObject, hkind]
    obtain ⟨described, hdescribed⟩ := model.exists_model hschema hobject
    obtain ⟨schema', ids', hschema', hkind', hfields⟩ := Tables.fields_of_model_eq_ok hdescribed
    cases hschema.symm.trans hschema'
    cases hkind.symm.trans hkind'
    obtain ⟨property, hmem, hstep⟩ := exists_mem_of_mapM hfields hother
    cases hfilled.symm.trans (hsame.symm.trans hstep)
    exact ⟨whole, entry, described, filled, hwhole, hentry, hobject, hdescribed,
      h.argument_of_spreadFrom hwhole, hproperty, hmem⟩

/-- The mapping of a registration comes from the entry that it was made from. -/
theorem Registration.MadeFrom.comesFrom {tables : Tables} {registration : Registration}
    {entry : WireEntry} {mapping : Mapping} {operation : String}
    (h : registration.MadeFrom tables entry)
    (hmapping : registration.mapping tables (.ofTables tables) operation = .ok mapping) :
    mapping.ComesFrom tables (.ofTables tables) entry.id := by
  rw [← h.parameter]
  exact registration.comesFrom_mapping (h.parameter ▸ h.argument) hmapping

/-- A mapping that comes from an entry writes where the argument of the entry does. -/
theorem Mapping.ComesFrom.exists_writesTo {mapping : Mapping} {tables : Tables} {mapper : Mapper}
    {entry : WireEntry} (h : mapping.ComesFrom tables mapper entry.id)
    (hat : tables.entryAt entry.id = .ok entry) :
    ∃ argument, mapper.WritesTo tables argument entry.parameter mapping.target := by
  obtain ⟨parameter, argument, hparameter, -, -, hwrites⟩ := h
  cases hparameter.symm.trans (Tables.entryAt_eq_ok.mp hat).1
  exact ⟨argument, hwrites⟩

/-- In the plan of a convenience method each mapping that goes to a property comes from a registered
parameter that was spread. These mappings fill fields of what their parameters were spread from
exactly when each registered parameter names a property which that declares. -/
theorem fillsFields_iff (model : CodeModel) {operation : String} {request : Request}
    {method : ClientMethod}
    (hplan : ClientMethod.plan model.toTables (.ofTables model.toTables) operation request
      .convenience = .ok method) :
    ∃ entries, request.parameters.mapM model.toTables.entryAt = .ok entries ∧
      (∀ transformation ∈ method.transformations, ∀ mapping ∈ transformation.mappings,
        mapping.target.property.isSome = true → ∃ entry ∈ registered entries,
          entry.parameter.spreadFrom.isSome = true ∧
            mapping.ComesFrom model.toTables (.ofTables model.toTables) entry.id) ∧
      ((∀ transformation ∈ method.transformations, ∀ mapping ∈ transformation.mappings,
          mapping.target.property.isSome = true → ∀ entry ∈ registered entries,
            mapping.ComesFrom model.toTables (.ofTables model.toTables) entry.id →
              mapping.FillsField model.toTables entry.parameter) ↔
        ∀ entry ∈ registered entries, ∀ whole ∈ entry.parameter.spreadFrom,
          ∀ id ∈ entry.parameter.targetProperty, model.toTables.Declares whole id) := by
  obtain ⟨-, offers, -, -, hoffers, hrun⟩ := ClientMethod.exists_offers model hplan
  have hrequest := Tables.checkRequest_eq_ok.mp (ClientMethod.checkRequest_of_plan_eq_ok hplan)
  obtain ⟨entries, hentries⟩ := exists_mapM_eq_ok fun id hid =>
    model.exists_entryAt (hrequest.parameters id hid)
  have hmade := forall₂_surviving (forall₂_madeFrom hentries hoffers)
  refine ⟨entries, hentries, ?_, ?_, ?_⟩
  · intro transformation htransformation mapping hmapping hfills
    obtain ⟨registration, hregistration, hstep⟩ := Registry.exists_mem_entries model hrun
      (List.mem_flatMap.mpr ⟨transformation, htransformation, hmapping⟩) hfills
    obtain ⟨entry, hentry, hfrom⟩ := exists_of_mem_left hmade
      ((Registry.mem_entries_offerAll operation).mp hregistration)
    have hcomes := hfrom.comesFrom hstep
    obtain ⟨argument, hwrites⟩ := hcomes.exists_writesTo hfrom.entryAt
    exact ⟨entry, hentry, hwrites.isSome_property ▸ hfills, hcomes⟩
  · intro hall entry hentry whole hwhole id hid
    obtain ⟨registration, hsurvives, hfrom⟩ := exists_of_mem_right hmade hentry
    obtain ⟨mapping, hmem, hstep⟩ := Registry.exists_mem_flatMap_mappings model hrun
      ((Registry.mem_entries_offerAll operation).mpr hsurvives)
    obtain ⟨transformation, htransformation, hmapping⟩ := List.mem_flatMap.mp hmem
    have hcomes := hfrom.comesFrom hstep
    obtain ⟨argument, hwrites⟩ := hcomes.exists_writesTo hfrom.entryAt
    have hfills : mapping.target.property.isSome = true := by
      rw [hwrites.isSome_property, Option.mem_def.mp hwhole]
      rfl
    exact (hwrites.fillsField_iff model hwhole hid).mp
      (hall transformation htransformation mapping hmapping hfills entry hentry hcomes)
  · intro hdeclares transformation htransformation mapping hmapping hfills entry hentry hcomes
    obtain ⟨registration, -, hfrom⟩ := exists_of_mem_right hmade hentry
    obtain ⟨argument, hwrites⟩ := hcomes.exists_writesTo hfrom.entryAt
    obtain ⟨whole, hwhole⟩ := hwrites.exists_spreadFrom hfills
    obtain ⟨id, -, -, hid, -⟩ := hwrites.exists_filled hwhole
    exact (hwrites.fillsField_iff model hwhole hid).mpr
      (hdeclares entry hentry whole hwhole id hid)

/-- A name and an age were spread from a user, who declares both of them. -/
theorem fillsFields_iff_user :
    ClientMethod.plan userModel.toTables (.ofTables userModel.toTables) "addUser" userRequest
        .convenience = .ok userMethod ∧
      ∃ entries, userRequest.parameters.mapM userModel.toTables.entryAt = .ok entries ∧
        (∀ transformation ∈ userMethod.transformations, ∀ mapping ∈ transformation.mappings,
          mapping.target.property.isSome = true → ∃ entry ∈ registered entries,
            entry.parameter.spreadFrom.isSome = true ∧
              mapping.ComesFrom userModel.toTables (.ofTables userModel.toTables) entry.id) ∧
        ((∀ transformation ∈ userMethod.transformations, ∀ mapping ∈ transformation.mappings,
            mapping.target.property.isSome = true → ∀ entry ∈ registered entries,
              mapping.ComesFrom userModel.toTables (.ofTables userModel.toTables) entry.id →
                mapping.FillsField userModel.toTables entry.parameter) ↔
          ∀ entry ∈ registered entries, ∀ whole ∈ entry.parameter.spreadFrom,
            ∀ id ∈ entry.parameter.targetProperty, userModel.toTables.Declares whole id) :=
  ⟨plan_userRequest, fillsFields_iff userModel plan_userRequest⟩

/-- A label is spread from a title, which is a text, and fills a property of tags. -/
def titleModel : CodeModel where
  schemas := [⟨"string", .scalar .string⟩, ⟨"Tag", .object [0]⟩]
  properties := [⟨"label", none, "label", 0, true⟩]
  parameters := [
    ⟨"title", none, "title", 0, inBody, true, true, none, none, none⟩,
    ⟨"label", none, "label", 0, none, false, true, none, some 0, some 0⟩]
  operations := [⟨"rename", [⟨[0, 1], [], none⟩]⟩]
  checked := by rfl

/-- The plan writes the label to a property of the title, which has none. -/
theorem exists_plan_not_fillsField :
    ∃ method, ClientMethod.plan titleModel.toTables (.ofTables titleModel.toTables) "rename"
        ⟨[0, 1], [], none⟩ .convenience = .ok method ∧
      ∃ transformation ∈ method.transformations, ∃ mapping ∈ transformation.mappings,
        mapping.text = "title.label <- label" ∧ mapping.target.property.isSome = true ∧
        ∀ parameter ∈ titleModel.parameters,
          ¬ mapping.FillsField titleModel.toTables parameter := by
  let title : Argument := ⟨"title", .string, true, some .body, false⟩
  let mapping : Mapping := ⟨⟨textArgument "label", none⟩,
    ⟨title, some ⟨"label", "label", .string, true⟩, some "label"⟩⟩
  refine ⟨⟨"rename", .convenience, none, none, "application/json", [textArgument "label"],
    [⟨title, [mapping]⟩]⟩, by cbv, ⟨title, [mapping]⟩, List.mem_cons_self, mapping,
    List.mem_cons_self, rfl, rfl, ?_⟩
  rintro parameter hparameter ⟨whole, entry, -, -, hwhole, hentry, hobject, -⟩
  rcases List.mem_pair.mp hparameter with rfl | rfl
  · cases hwhole
  · cases hwhole
    cases hentry
    cases hobject

end ClientPlan

import ClientPlan.Proofs.GroupProperties
import ClientPlan.Proofs.RegistryState
import ClientPlan.Proofs.Selection
import ClientPlan.Proofs.Validation

/-!
# What registries fail with

A request is refused if one of its ids dangles, whatever the method. After that only the
registrations of a convenience method can fail, each by a defect in the links of its parameter. The
defect that is reported is that of the first registration that has one, by wire parameter and then
by argument name. So the failure depends on which registrations there are, and on nothing else that
happened to the registry.
-/

namespace ClientPlan

open Wire (CodeModel Parameter ParameterId Request Schema TableError Tables)

/-- The first id of a request that lies outside the table of parameters, in the order of the wire
parameters and then of the parameters of the method. -/
inductive Wire.Request.FirstDangling (request : Request) (tables : Tables) (operation : String) :
    TableError → Prop
  | parameters {before after : List ParameterId} {id : ParameterId}
      (hsplit : request.parameters = before ++ id :: after)
      (hbefore : ∀ other ∈ before, other < tables.parameters.length)
      (hdangles : tables.parameters.length ≤ id) :
      FirstDangling request tables operation
        (.danglingId (.operation operation) .parameters .parameters id tables.parameters.length)
  | signatureParameters {before after : List ParameterId} {id : ParameterId}
      (hparameters : ∀ other ∈ request.parameters, other < tables.parameters.length)
      (hsplit : request.signatureParameters = before ++ id :: after)
      (hbefore : ∀ other ∈ before, other < tables.parameters.length)
      (hdangles : tables.parameters.length ≤ id) :
      FirstDangling request tables operation
        (.danglingId (.operation operation) .signatureParameters .parameters id
          tables.parameters.length)

/-- A spread parameter does not say which property it fills. -/
inductive Wire.Parameter.LacksTarget (parameter : Parameter) (tables : Tables)
    (operation : String) : PlanError → Prop
  | missing {id : ParameterId} {whole : Parameter} (hwhole : parameter.spreadFrom = some id)
      (htarget : parameter.targetProperty = none) (hat : tables.parameters[id]? = some whole) :
      LacksTarget parameter tables operation (.missingTarget operation parameter.name whole.name)

/-- The group of a parameter is no object, has no model, or has a model in which no property has
one of the names of the parameter. -/
inductive Wire.Parameter.LacksSource (parameter : Parameter) (tables : Tables) (mapper : Mapper)
    (operation : String) : PlanError → Prop
  | notObject {id : ParameterId} {group : Parameter} {schema : Schema}
      (hgroup : parameter.groupedBy = some id) (hat : tables.parameters[id]? = some group)
      (hschema : tables.schemas[group.schema]? = some schema) (hobject : schema.isObject = false) :
      LacksSource parameter tables mapper operation
        (.groupNotObject operation parameter.name group.name schema.name)
  | noModel {id : ParameterId} {group : Parameter} {schema : Schema} {cause : PlanError}
      (hgroup : parameter.groupedBy = some id) (hat : tables.parameters[id]? = some group)
      (hschema : tables.schemas[group.schema]? = some schema) (hobject : schema.isObject = true)
      (hmodel : mapper.model group.schema = .error cause) :
      LacksSource parameter tables mapper operation cause
  | noProperty {id : ParameterId} {group : Parameter} {schema : Schema} {model : Model}
      (hgroup : parameter.groupedBy = some id) (hat : tables.parameters[id]? = some group)
      (hschema : tables.schemas[group.schema]? = some schema) (hobject : schema.isObject = true)
      (hmodel : mapper.model group.schema = .ok model)
      (hnone : ∀ property ∈ model.properties, property.name ≠ parameter.shownName ∧
        property.serializedName ≠ parameter.serializedName) :
      LacksSource parameter tables mapper operation
        (.groupLacksProperty operation parameter.shownName model.name)

/-- Why a registration does not resolve: its parameter lacks a target or, where it has one or needs
none, it lacks a source. -/
inductive Registration.HasDefect (registration : Registration) (tables : Tables) (mapper : Mapper)
    (operation : String) : PlanError → Prop
  | target {parameter : Parameter} {error : PlanError}
      (hat : tables.parameters[registration.parameter]? = some parameter)
      (hlacks : parameter.LacksTarget tables operation error) :
      HasDefect registration tables mapper operation error
  | source {parameter : Parameter} {error : PlanError}
      (hat : tables.parameters[registration.parameter]? = some parameter)
      (htarget : parameter.spreadFrom.isSome = true → parameter.targetProperty.isSome = true)
      (hlacks : parameter.LacksSource tables mapper operation error) :
      HasDefect registration tables mapper operation error

/-- Why a registry cannot rebuild a request: an id of the request dangles or, where none does and
the method does not take wire values directly, the first defective registration has this defect. -/
inductive Registry.FirstFailure (registry : Registry) (tables : Tables) (mapper : Mapper)
    (request : Request) : PlanError → Prop
  | request {cause : TableError}
      (hdangling : request.FirstDangling tables registry.operation cause) :
      FirstFailure registry tables mapper request (.danglingRequest cause)
  | registration {registration : Registration} {error : PlanError}
      (hresolves : request.Resolves tables) (hkind : registry.isProtocol = false)
      (hmem : registration ∈ registry.entries)
      (hdefect : registration.HasDefect tables mapper registry.operation error)
      (hfirst : ∀ other ∈ registry.entries, Registry.Precedes other registration →
        ¬ ∃ cause, other.HasDefect tables mapper registry.operation cause) :
      FirstFailure registry tables mapper request error

namespace Wire.Tables

variable {tables : Tables}

/-- Ids fail their check with the first one that lies outside its table. -/
theorem checkIds_eq_error {owner : Owner} {link : Link} {table : Table} {ids : List Nat}
    {error : TableError} : tables.checkIds owner link table ids = .error error ↔
      ∃ before id after, ids = before ++ id :: after ∧
        (∀ other ∈ before, other < tables.length table) ∧ tables.length table ≤ id ∧
          .danglingId owner link table id (tables.length table) = error := by
  have hstep (id : Nat) : tables.checkId owner link table id = .error error ↔
      tables.length table ≤ id ∧ .danglingId owner link table id (tables.length table) = error :=
    @checkReference_eq_error tables ⟨owner, link, table, id⟩ error
  simp only [checkIds, forM_eq_error, checkId_eq_ok, hstep]

/-- A request fails its check with the first of its ids that dangles. -/
theorem checkRequest_eq_error {operation : String} {request : Request} {cause : TableError} :
    tables.checkRequest operation request = .error cause ↔
      request.FirstDangling tables operation cause := by
  simp only [checkRequest, check_bind_eq_error, checkIds_eq_ok, checkIds_eq_error]
  constructor
  · rintro (⟨before, id, after, hsplit, hbefore, hdangles, rfl⟩ |
      ⟨hparameters, before, id, after, hsplit, hbefore, hdangles, rfl⟩)
    · exact .parameters hsplit hbefore hdangles
    · exact .signatureParameters hparameters hsplit hbefore hdangles
  · rintro (⟨hsplit, hbefore, hdangles⟩ | ⟨hparameters, hsplit, hbefore, hdangles⟩)
    · exact Or.inl ⟨_, _, _, hsplit, hbefore, hdangles, rfl⟩
    · exact Or.inr ⟨hparameters, _, _, _, hsplit, hbefore, hdangles, rfl⟩

end Wire.Tables

namespace Registration

variable (model : CodeModel) {mapper : Mapper} {operation : String} {registration : Registration}
  {parameter : Parameter} {error : PlanError}

/-- The target of a registration is not found exactly if its parameter lacks one. -/
theorem target_eq_error (hmapper : mapper.Describes model.toTables)
    (hat : model.parameters[registration.parameter]? = some parameter) :
    registration.target model.toTables mapper operation = .error error ↔
      parameter.LacksTarget model.toTables operation error := by
  have hlookup := Tables.parameterAt_eq_ok.mpr hat
  have hresolves := model.resolves_of_parameter hat
  have honly : FailsOnly (parameter.LacksTarget model.toTables operation)
      (registration.target model.toTables mapper operation) := by
    refine FailsOnly.bind_of_eq_ok hlookup ?_
    split
    next => exact FailsOnly.of_eq_ok rfl
    next id hwhole =>
      have hlt := hresolves.spreadFrom id hwhole
      split
      next htarget =>
        have hwholeAt := List.getElem?_eq_getElem hlt
        exact FailsOnly.bind_of_eq_ok (Tables.parameterAt_eq_ok.mpr hwholeAt)
          (FailsOnly.error (.missing hwhole htarget hwholeAt))
      next property htarget =>
        have hlt' := hresolves.targetProperty property htarget
        obtain ⟨argument, hargument⟩ := hmapper.argument id hlt
        obtain ⟨described, hdescribed⟩ := hmapper.property property hlt'
        refine FailsOnly.bind_of_eq_ok hargument (FailsOnly.bind_of_eq_ok hdescribed ?_)
        exact FailsOnly.bind_of_eq_ok
          (Tables.propertyAt_eq_ok.mpr (List.getElem?_eq_getElem hlt')) (FailsOnly.of_eq_ok rfl)
  refine ⟨honly error, ?_⟩
  rintro ⟨hwhole, htarget, hwholeAt⟩
  refine bind_eq_error.mpr (Or.inr ⟨parameter, hlookup, ?_⟩)
  simp only [hwhole, htarget]
  exact bind_eq_error.mpr (Or.inr ⟨_, Tables.parameterAt_eq_ok.mpr hwholeAt, rfl⟩)

/-- The target of a registration is found if its parameter says which property it fills, or was
not spread. -/
theorem exists_target_eq_ok (hmapper : mapper.Describes model.toTables)
    (hat : model.parameters[registration.parameter]? = some parameter) :
    (∃ target, registration.target model.toTables mapper operation = .ok target) ↔
      (parameter.spreadFrom.isSome = true → parameter.targetProperty.isSome = true) := by
  constructor
  · rintro ⟨target, hfound⟩ hspread
    cases (target_eq_ok hat).mp hfound with
    | itself hwhole => simp [hwhole] at hspread
    | property _ htarget => simp [htarget]
  · intro hfills
    cases htarget : registration.target model.toTables mapper operation with
    | ok target => exact ⟨target, rfl⟩
    | error cause =>
      obtain ⟨hwhole, hnone, -⟩ := (target_eq_error model hmapper hat).mp htarget
      simp [hwhole, hnone] at hfills

/-- The source of a registration is not found exactly if its parameter lacks one. -/
theorem source_eq_error (hmapper : mapper.Describes model.toTables)
    (hat : model.parameters[registration.parameter]? = some parameter) :
    registration.source model.toTables mapper operation = .error error ↔
      parameter.LacksSource model.toTables mapper operation error := by
  have hlookup := Tables.parameterAt_eq_ok.mpr hat
  have honly : FailsOnly (parameter.LacksSource model.toTables mapper operation)
      (registration.source model.toTables mapper operation) := by
    refine FailsOnly.bind_of_eq_ok hlookup ?_
    split
    next => exact FailsOnly.of_eq_ok rfl
    next id hgroup =>
      have hlt := (model.resolves_of_parameter hat).groupedBy id hgroup
      have hgroupAt := List.getElem?_eq_getElem hlt
      obtain ⟨schema, hschema⟩ := model.exists_schemaAt hgroupAt
      have hschemaAt := Tables.schemaAt_eq_ok.mp hschema
      refine FailsOnly.bind_of_eq_ok (Tables.parameterAt_eq_ok.mpr hgroupAt)
        (FailsOnly.bind_of_eq_ok hschema ?_)
      split
      next hobject =>
        cases hmodel : mapper.model model.parameters[id].schema with
        | error cause =>
          exact FailsOnly.error (.noModel hgroup hgroupAt hschemaAt hobject hmodel)
        | ok described =>
          refine FailsOnly.bind_of_eq_ok rfl ?_
          split
          next =>
            obtain ⟨argument, hargument⟩ := hmapper.argument id hlt
            exact FailsOnly.bind_of_eq_ok hargument (FailsOnly.of_eq_ok rfl)
          next hnone =>
            exact FailsOnly.error (.noProperty hgroup hgroupAt hschemaAt hobject hmodel
              (groupProperty?_eq_none_iff.mp hnone))
      next hobject =>
        exact FailsOnly.error
          (.notObject hgroup hgroupAt hschemaAt (Bool.eq_false_iff.mpr hobject))
  refine ⟨honly error, fun hlacks => bind_eq_error.mpr (Or.inr ⟨parameter, hlookup, ?_⟩)⟩
  cases hlacks with
  | notObject hgroup hgroupAt hschema hobject =>
    simp only [hgroup]
    refine bind_eq_error.mpr (Or.inr ⟨_, Tables.parameterAt_eq_ok.mpr hgroupAt, ?_⟩)
    refine bind_eq_error.mpr (Or.inr ⟨_, Tables.schemaAt_eq_ok.mpr hschema, ?_⟩)
    simp [hobject]
  | noModel hgroup hgroupAt hschema hobject hmodel =>
    simp only [hgroup]
    refine bind_eq_error.mpr (Or.inr ⟨_, Tables.parameterAt_eq_ok.mpr hgroupAt, ?_⟩)
    refine bind_eq_error.mpr (Or.inr ⟨_, Tables.schemaAt_eq_ok.mpr hschema, ?_⟩)
    simp only [hobject, if_true]
    exact bind_eq_error.mpr (Or.inl hmodel)
  | noProperty hgroup hgroupAt hschema hobject hmodel hnone =>
    simp only [hgroup]
    refine bind_eq_error.mpr (Or.inr ⟨_, Tables.parameterAt_eq_ok.mpr hgroupAt, ?_⟩)
    refine bind_eq_error.mpr (Or.inr ⟨_, Tables.schemaAt_eq_ok.mpr hschema, ?_⟩)
    simp only [hobject, if_true]
    refine bind_eq_error.mpr (Or.inr ⟨_, hmodel, ?_⟩)
    simp only [groupProperty?_eq_none_iff.mpr hnone]

/-- A registration of the tables does not resolve exactly if it has a defect. -/
theorem mapping_eq_error (hmapper : mapper.Describes model.toTables)
    (hlt : registration.parameter < model.parameters.length) :
    registration.mapping model.toTables mapper operation = .error error ↔
      registration.HasDefect model.toTables mapper operation error := by
  have hat := List.getElem?_eq_getElem hlt
  unfold mapping
  simp only [bind_eq_error, target_eq_error model hmapper hat, source_eq_error model hmapper hat,
    pure_ne_error, and_false, exists_false, or_false, exists_and_right,
    exists_target_eq_ok model hmapper hat]
  constructor
  · rintro (hlacks | ⟨hfills, hlacks⟩)
    · exact .target hat hlacks
    · exact .source hat hfills hlacks
  · rintro (⟨hat', hlacks⟩ | ⟨hat', hfills, hlacks⟩)
    · cases hat.symm.trans hat'
      exact Or.inl hlacks
    · cases hat.symm.trans hat'
      exact Or.inr ⟨hfills, hlacks⟩

/-- A registration of the tables resolves exactly if it has no defect. -/
theorem exists_mapping_eq_ok (hmapper : mapper.Describes model.toTables)
    (hlt : registration.parameter < model.parameters.length) :
    (∃ mapping, registration.mapping model.toTables mapper operation = .ok mapping) ↔
      ¬ ∃ cause, registration.HasDefect model.toTables mapper operation cause := by
  simp only [← mapping_eq_error model hmapper hlt]
  cases registration.mapping model.toTables mapper operation <;> simp

end Registration

namespace Registry

variable (model : CodeModel) {mapper : Mapper} {registry : Registry} {request : Request}
  {error : PlanError}

/-- Resolving all registrations of a registry fails with the defect of the first one that has
one. -/
theorem mapM_mapping_eq_error (hmapper : mapper.Describes model.toTables)
    (hwithin : registry.Within model.toTables) :
    registry.inWireOrder.mapM (·.mapping model.toTables mapper registry.operation) = .error error ↔
      ∃ registration ∈ registry.entries,
        registration.HasDefect model.toTables mapper registry.operation error ∧
        ∀ other ∈ registry.entries, Precedes other registration →
          ¬ ∃ cause, other.HasDefect model.toTables mapper registry.operation cause := by
  have hmem (registration : Registration) :
      registration ∈ registry.inWireOrder ↔ registration ∈ registry.entries := List.mem_mergeSort
  rw [mapM_eq_error_of_pairwise (fun _ _ hprecedes => hprecedes.asymm)
    (pairwise_inWireOrder registry)]
  simp only [hmem]
  refine exists_congr fun registration => and_congr_right fun hentry => and_congr ?_ ?_
  · exact Registration.mapping_eq_error model hmapper (hwithin registration hentry)
  · refine forall_congr' fun other => forall_congr' fun hother => forall_congr' fun _ => ?_
    exact Registration.exists_mapping_eq_ok model hmapper (hwithin other hother)

/-- For a request that resolves, the registry of a convenience method fails exactly where resolving
its registrations does. -/
theorem transformations_eq_error_iff_mapM (hmapper : mapper.Describes model.toTables)
    (hwithin : registry.Within model.toTables) (hrequest : request.Resolves model.toTables)
    (hkind : registry.isProtocol = false) :
    registry.transformations model.toTables mapper request = .error error ↔
      registry.inWireOrder.mapM (·.mapping model.toTables mapper registry.operation) =
        .error error := by
  obtain ⟨arguments, harguments⟩ : ∃ arguments,
      (unspread model.toTables request registry.entries).mapM mapper.argument = .ok arguments :=
    exists_mapM_eq_ok fun id hid =>
      hmapper.argument id (hrequest.parameters id (List.mem_of_mem_filter hid))
  have hrest (mappings : List Mapping) : (do
      let arguments ← (unspread model.toTables request registry.entries).mapM mapper.argument
      return Transformation.rebuilt mappings arguments) ≠ .error error := by
    rw [harguments]
    exact pure_ne_error
  rw [transformations_eq model hkind hwithin hrequest, bind_eq_error]
  exact or_iff_left fun ⟨mappings, _, herror⟩ => hrest mappings herror

/-- A registry within its tables fails with its first failure. -/
theorem transformations_eq_error (hmapper : mapper.Describes model.toTables)
    (hwithin : registry.Within model.toTables) :
    registry.transformations model.toTables mapper request = .error error ↔
      registry.FirstFailure model.toTables mapper request error := by
  cases hcheck : model.checkRequest registry.operation request with
  | error cause =>
    have hdangling := Tables.checkRequest_eq_error.mp hcheck
    have hfails : registry.transformations model.toTables mapper request =
        .error (.danglingRequest cause) :=
      bind_eq_error.mpr (Or.inl (mapError_eq_error.mpr ⟨cause, hcheck, rfl⟩))
    rw [hfails, Except.error.injEq]
    constructor
    · rintro rfl
      exact .request hdangling
    · rintro (hdangling' | hresolves)
      · have hcheck' := Tables.checkRequest_eq_error.mpr hdangling'
        cases hcheck.symm.trans hcheck'
        rfl
      · cases hcheck.symm.trans (Tables.checkRequest_eq_ok.mpr hresolves)
  | ok =>
    have hrequest := Tables.checkRequest_eq_ok.mp hcheck
    have hresolved (cause : TableError) :
        ¬ request.FirstDangling model.toTables registry.operation cause := fun hdangling =>
      nomatch hcheck.symm.trans (Tables.checkRequest_eq_error.mpr hdangling)
    cases hkind : registry.isProtocol with
    | true =>
      rw [transformations_eq_nil hkind hrequest]
      constructor
      · exact fun h => nomatch h
      · rintro (hdangling | ⟨-, hconvenience⟩)
        · exact absurd hdangling (hresolved _)
        · cases hkind.symm.trans hconvenience
    | false =>
      rw [transformations_eq_error_iff_mapM model hmapper hwithin hrequest hkind,
        mapM_mapping_eq_error model hmapper hwithin]
      constructor
      · rintro ⟨registration, hmem, hdefect, hfirst⟩
        exact .registration hrequest hkind hmem hdefect hfirst
      · rintro (hdangling | ⟨-, -, hmem, hdefect, hfirst⟩)
        · exact absurd hdangling (hresolved _)
        · exact ⟨_, hmem, hdefect, hfirst⟩

end Registry

/-- After every run of offers a registry fails to rebuild a request with its first failure, and
with no other: by the first id of the request that dangles or, where none does and the method does
not take wire values directly, by the defect of the first defective registration by wire parameter
and then by argument name. Whatever the offers and their order were, registries that hold the same
registrations fail alike. -/
theorem transformations_offerAll_eq_error (model : CodeModel) {mapper : Mapper}
    (hmapper : mapper.Describes model.toTables) (operation : String) (isProtocol : Bool)
    (offers : List Registration) (request : Request) :
    let registry := (Registry.new operation isProtocol).offerAll model.toTables offers
    (registry.operation = operation ∧ registry.isProtocol = isProtocol) ∧
    (∀ error, registry.transformations model.toTables mapper request = .error error ↔
      registry.FirstFailure model.toTables mapper request error) ∧
    ∀ others : List Registration,
      (∀ registration, registration ∈
          ((Registry.new operation isProtocol).offerAll model.toTables others).entries ↔
        registration ∈ registry.entries) →
      ((Registry.new operation isProtocol).offerAll model.toTables others).transformations
          model.toTables mapper request =
        registry.transformations model.toTables mapper request := by
  intro registry
  have hkeeps := Registry.offerAll_keeps model.toTables (Registry.new operation isProtocol) offers
  refine ⟨hkeeps, fun error => ?_, fun others hsame => ?_⟩
  · exact Registry.transformations_eq_error model hmapper
      (Registry.within_offerAll operation isProtocol offers)
  · have hkeeps' :=
      Registry.offerAll_keeps model.toTables (Registry.new operation isProtocol) others
    have hperm := (List.perm_ext_iff_of_nodup (Registry.nodup_entries _)
      (Registry.nodup_entries registry)).mpr hsame
    rw [Registry.eq_of_perm (hkeeps'.1.trans hkeeps.1.symm) (hkeeps'.2.trans hkeeps.2.symm) hperm]

/-- Both parameters of the list are defective. The failure is that of the page, which comes first on
the wire, although it was offered last and under a later name. -/
theorem transformations_offerAll_eq_error_broken :
    let mapper := Mapper.ofTables brokenModel.toTables
    let offers : List Registration := [⟨textArgument "name", 2⟩, ⟨textArgument "page", 0⟩]
    let request : Request := ⟨[2, 0], [], none⟩
    let registry := (Registry.new "list" false).offerAll brokenModel.toTables offers
    mapper.Describes brokenModel.toTables ∧
      registry.FirstFailure brokenModel.toTables mapper request
        (.groupNotObject "list" "page" "paging" "string") ∧
      ((Registry.new "list" false).offerAll brokenModel.toTables offers.reverse).transformations
          brokenModel.toTables mapper request =
        registry.transformations brokenModel.toTables mapper request := by
  intro mapper offers request registry
  have hfails : registry.transformations brokenModel.toTables mapper request =
      .error (.groupNotObject "list" "page" "paging" "string") := by cbv
  have hsame : ∀ registration, registration ∈
      ((Registry.new "list" false).offerAll brokenModel.toTables offers.reverse).entries ↔
        registration ∈ registry.entries := fun registration => iff_of_eq (by cbv)
  obtain ⟨-, hfailure, hothers⟩ := transformations_offerAll_eq_error brokenModel
    brokenModel.describes "list" false offers request
  exact ⟨brokenModel.describes, (hfailure _).mp hfails, hothers offers.reverse hsame⟩

end ClientPlan

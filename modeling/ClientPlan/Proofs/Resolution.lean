import ClientPlan.Proofs.Offers

/-!
# What registrations resolve to

A registration resolves to one mapping. It writes to the parameter that its own was spread from,
and there to the property that it fills, or else to its own argument. It reads a property of the
argument that groups it, or else its own argument. Two relations say so in terms of the tables
and of the mapper, and everything that is known of a mapping follows from them.
-/

namespace ClientPlan

open Wire (Parameter ParameterId Property PropertyId Schema SchemaId Tables)

namespace Mapper

/-- Where the value goes of an argument that was made from a wire parameter. -/
inductive WritesTo (mapper : Mapper) (tables : Tables) (argument : Argument)
    (parameter : Parameter) : Target → Prop
  | itself (hwhole : parameter.spreadFrom = none) :
      WritesTo mapper tables argument parameter ⟨argument, none, none⟩
  | property {whole : ParameterId} {id : PropertyId} {output : Argument} {filled : ModelProperty}
      {property : Property} (hwhole : parameter.spreadFrom = some whole)
      (htarget : parameter.targetProperty = some id) (houtput : mapper.argument whole = .ok output)
      (hfilled : mapper.property id = .ok filled) (hat : tables.properties[id]? = some property) :
      WritesTo mapper tables argument parameter ⟨output, some filled, some property.shownName⟩

/-- Where the value comes from of an argument that was made from a wire parameter. -/
inductive ReadsFrom (mapper : Mapper) (tables : Tables) (argument : Argument)
    (parameter : Parameter) : Source → Prop
  | itself (hgroup : parameter.groupedBy = none) :
      ReadsFrom mapper tables argument parameter ⟨argument, none⟩
  | property {id : ParameterId} {group : Parameter} {schema : Schema} {model : Model}
      {input : Argument} {read : ModelProperty} (hgroup : parameter.groupedBy = some id)
      (hat : tables.parameters[id]? = some group)
      (hschema : tables.schemas[group.schema]? = some schema) (hobject : schema.isObject = true)
      (hmodel : mapper.model group.schema = .ok model)
      (hread : Registration.groupProperty? model parameter = some read)
      (hinput : mapper.argument id = .ok input) :
      ReadsFrom mapper tables argument parameter ⟨input, some read⟩

variable {mapper : Mapper} {tables : Tables} {argument : Argument} {parameter : Parameter}

/-- A value goes through a property exactly when its parameter was spread. -/
theorem WritesTo.isSome_property {target : Target}
    (h : mapper.WritesTo tables argument parameter target) :
    target.property.isSome = parameter.spreadFrom.isSome := by
  cases h with
  | itself hwhole => simp [hwhole]
  | property hwhole => simp [hwhole]

/-- A value comes through a property exactly when its parameter is grouped. -/
theorem ReadsFrom.isSome_property {source : Source}
    (h : mapper.ReadsFrom tables argument parameter source) :
    source.property.isSome = parameter.groupedBy.isSome := by
  cases h with
  | itself hgroup => simp [hgroup]
  | property hgroup => simp [hgroup]

/-- The property that a value goes to is named, and nothing else is. -/
theorem WritesTo.isSome_propertyName {target : Target}
    (h : mapper.WritesTo tables argument parameter target) :
    target.propertyName.isSome = target.property.isSome := by
  cases h with
  | itself => rfl
  | property => rfl

/-- The mapping of a grouped or spread parameter goes through a property. -/
theorem isDirect_eq_false_of_isLinked {mapping : Mapping}
    (hreads : mapper.ReadsFrom tables argument parameter mapping.source)
    (hwrites : mapper.WritesTo tables argument parameter mapping.target)
    (hlinked : parameter.isLinked = true) : mapping.isDirect = false := by
  unfold Parameter.isLinked at hlinked
  rw [← hreads.isSome_property, ← hwrites.isSome_property] at hlinked
  unfold Mapping.isDirect
  cases hsource : mapping.source.property <;> cases htarget : mapping.target.property <;>
    simp_all

/-- The value of a spread parameter goes to the parameter that it was spread from. -/
theorem WritesTo.argument_of_spreadFrom {target : Target} {whole : ParameterId}
    (h : mapper.WritesTo tables argument parameter target)
    (hspread : parameter.spreadFrom = some whole) :
    mapper.argument whole = .ok target.argument := by
  cases h with
  | itself hwhole => cases hwhole.symm.trans hspread
  | property hwhole _ houtput =>
    cases hwhole.symm.trans hspread
    exact houtput

/-- The argument of a parameter reads that of its group, or itself. -/
theorem ReadsFrom.argument_eq_ok {source : Source} {id : ParameterId}
    (h : mapper.ReadsFrom tables argument parameter source)
    (hargument : mapper.argument id = .ok argument) :
    mapper.argument (parameter.groupedBy.getD id) = .ok source.argument := by
  cases h with
  | itself hgroup =>
    rw [hgroup]
    exact hargument
  | property hgroup _ _ _ _ _ hinput =>
    rw [hgroup]
    exact hinput

/-- The argument of a parameter writes to that of the one it was spread from, or to itself. -/
theorem WritesTo.argument_eq_ok {target : Target} {id : ParameterId}
    (h : mapper.WritesTo tables argument parameter target)
    (hargument : mapper.argument id = .ok argument) :
    mapper.argument (parameter.spreadFrom.getD id) = .ok target.argument := by
  cases h with
  | itself hwhole =>
    rw [hwhole]
    exact hargument
  | property hwhole _ houtput =>
    rw [hwhole]
    exact houtput

end Mapper

namespace Registration

variable {tables : Tables} {mapper : Mapper} {operation : String} {registration : Registration}

/-- The target of a registration is where its argument writes to. -/
theorem target_eq_ok {parameter : Parameter} {target : Target}
    (hparameter : tables.parameters[registration.parameter]? = some parameter) :
    registration.target tables mapper operation = .ok target ↔
      mapper.WritesTo tables registration.argument parameter target := by
  have hat := Tables.parameterAt_eq_ok.mpr hparameter
  constructor
  · intro h
    obtain ⟨_, hat', h⟩ := bind_eq_ok.mp h
    cases hat.symm.trans hat'
    split at h
    next hwhole =>
      rw [← pure_eq_ok.mp h]
      exact .itself hwhole
    next whole hwhole =>
      split at h
      next =>
        obtain ⟨_, -, h⟩ := bind_eq_ok.mp h
        cases h
      next id htarget =>
        obtain ⟨output, houtput, h⟩ := bind_eq_ok.mp h
        obtain ⟨filled, hfilled, h⟩ := bind_eq_ok.mp h
        obtain ⟨property, hproperty, h⟩ := bind_eq_ok.mp h
        rw [← pure_eq_ok.mp h]
        exact .property hwhole htarget houtput hfilled (Tables.propertyAt_eq_ok.mp hproperty)
  · intro h
    refine bind_eq_ok.mpr ⟨parameter, hat, ?_⟩
    cases h with
    | itself hwhole => simp only [hwhole, pure_eq_ok]
    | property hwhole htarget houtput hfilled hproperty =>
      simp only [hwhole, htarget]
      refine bind_eq_ok.mpr ⟨_, houtput, bind_eq_ok.mpr ⟨_, hfilled, bind_eq_ok.mpr ?_⟩⟩
      exact ⟨_, Tables.propertyAt_eq_ok.mpr hproperty, rfl⟩

/-- The source of a registration is where its argument reads from. -/
theorem source_eq_ok {parameter : Parameter} {source : Source}
    (hparameter : tables.parameters[registration.parameter]? = some parameter) :
    registration.source tables mapper operation = .ok source ↔
      mapper.ReadsFrom tables registration.argument parameter source := by
  have hat := Tables.parameterAt_eq_ok.mpr hparameter
  constructor
  · intro h
    obtain ⟨_, hat', h⟩ := bind_eq_ok.mp h
    cases hat.symm.trans hat'
    split at h
    next hgroup =>
      rw [← pure_eq_ok.mp h]
      exact .itself hgroup
    next id hgroup =>
      obtain ⟨group, hgroupAt, h⟩ := bind_eq_ok.mp h
      obtain ⟨schema, hschema, h⟩ := bind_eq_ok.mp h
      split at h
      next hobject =>
        obtain ⟨model, hmodel, h⟩ := bind_eq_ok.mp h
        split at h
        next read hread =>
          obtain ⟨input, hinput, h⟩ := bind_eq_ok.mp h
          rw [← pure_eq_ok.mp h]
          exact .property hgroup (Tables.parameterAt_eq_ok.mp hgroupAt)
            (Tables.schemaAt_eq_ok.mp hschema) hobject hmodel hread hinput
        next => cases h
      next => cases h
  · intro h
    refine bind_eq_ok.mpr ⟨parameter, hat, ?_⟩
    cases h with
    | itself hgroup => simp only [hgroup, pure_eq_ok]
    | property hgroup hgroupAt hschema hobject hmodel hread hinput =>
      simp only [hgroup]
      refine bind_eq_ok.mpr ⟨_, Tables.parameterAt_eq_ok.mpr hgroupAt, bind_eq_ok.mpr
        ⟨_, Tables.schemaAt_eq_ok.mpr hschema, ?_⟩⟩
      simp only [hobject, if_true]
      refine bind_eq_ok.mpr ⟨_, hmodel, ?_⟩
      simp only [hread]
      exact bind_eq_ok.mpr ⟨_, hinput, rfl⟩

/-- What the mapping of a registration is: where its argument reads from and writes to. -/
theorem mapping_eq_ok {mapping : Mapping} :
    registration.mapping tables mapper operation = .ok mapping ↔
      ∃ parameter, tables.parameters[registration.parameter]? = some parameter ∧
        mapper.ReadsFrom tables registration.argument parameter mapping.source ∧
          mapper.WritesTo tables registration.argument parameter mapping.target := by
  constructor
  · intro h
    obtain ⟨target, htarget, h⟩ := bind_eq_ok.mp h
    obtain ⟨source, hsource, h⟩ := bind_eq_ok.mp h
    obtain ⟨parameter, hat, -⟩ := bind_eq_ok.mp htarget
    have hparameter := Tables.parameterAt_eq_ok.mp hat
    rw [← pure_eq_ok.mp h]
    exact ⟨parameter, hparameter, (source_eq_ok hparameter).mp hsource,
      (target_eq_ok hparameter).mp htarget⟩
  · rintro ⟨parameter, hparameter, hsource, htarget⟩
    refine bind_eq_ok.mpr ⟨mapping.target, (target_eq_ok hparameter).mpr htarget, ?_⟩
    exact bind_eq_ok.mpr ⟨mapping.source, (source_eq_ok hparameter).mpr hsource, rfl⟩

/-- Both sides of the mapping of a registration are told by its parameter. -/
theorem sides_of_mapping {parameter : Parameter} {mapping : Mapping}
    (hmapping : registration.mapping tables mapper operation = .ok mapping)
    (hparameter : tables.parameters[registration.parameter]? = some parameter) :
    mapper.ReadsFrom tables registration.argument parameter mapping.source ∧
      mapper.WritesTo tables registration.argument parameter mapping.target := by
  obtain ⟨parameter', hparameter', hsides⟩ := mapping_eq_ok.mp hmapping
  cases hparameter.symm.trans hparameter'
  exact hsides

end Registration

end ClientPlan

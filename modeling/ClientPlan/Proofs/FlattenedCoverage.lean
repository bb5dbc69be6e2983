import ClientPlan.Proofs.Coverage

/-!
# Flattened parameters are covered once

A flattened parameter that is sent by itself is covered in one of two ways. Either some registered
argument was spread from it, so that a mapping writes to it, or it is among the parameters that
are handed on afterwards. In both cases one transformation has the name of its argument, and
since no name occurs twice it is the only one.
-/

namespace ClientPlan

open Wire (CodeModel ParameterId Request Tables)

variable {tables : Tables} {mapper : Mapper} {operation : String} {request : Request}
  {registrations : List Registration} {mappings : List Mapping} {arguments : List Argument}
  {id : ParameterId}

/-- Something that was spread from a parameter has a mapping that writes to it. -/
theorem exists_mapping_of_mem_wholes
    (hmappings : (wireSorted registrations).mapM (·.mapping tables mapper operation) = .ok mappings)
    (hwhole : id ∈ wholes tables registrations) :
    ∃ mapping ∈ mappings, mapper.argument id = .ok mapping.target.argument := by
  obtain ⟨registration, hregistration, parameter, hparameter, hspread⟩ := mem_wholes.mp hwhole
  obtain ⟨mapping, hmem, hmapping⟩ :=
    exists_mem_of_mapM hmappings (List.mem_mergeSort.mpr hregistration)
  obtain ⟨-, hwrites⟩ := Registration.sides_of_mapping hmapping hparameter
  exact ⟨mapping, hmem, hwrites.argument_of_spreadFrom hspread⟩

/-- The argument of a flattened parameter has the name of a transformation. -/
theorem exists_argument_of_flattens
    (hmappings : (wireSorted registrations).mapM (·.mapping tables mapper operation) = .ok mappings)
    (harguments : (unspread tables request registrations).mapM mapper.argument = .ok arguments)
    (hid : id ∈ request.parameters) (hflattened : tables.flattens id = true) :
    ∃ argument, mapper.argument id = .ok argument ∧
      argument.name ∈ Transformation.names (Transformation.rebuilt mappings arguments) := by
  by_cases hwhole : id ∈ wholes tables registrations
  · obtain ⟨mapping, hmem, hargument⟩ := exists_mapping_of_mem_wholes hmappings hwhole
    have hname : mapping.outputName ∈ mappings.map Mapping.outputName := List.mem_map_of_mem hmem
    exact ⟨mapping.target.argument, hargument, Transformation.mem_names_rebuilt.mpr (Or.inl hname)⟩
  · have hunspread : id ∈ unspread tables request registrations :=
      List.mem_filter.mpr ⟨hid, by simp [hflattened, hwhole]⟩
    obtain ⟨argument, hmem, hargument⟩ := exists_mem_of_mapM harguments hunspread
    have hname : argument.name ∈ arguments.map (·.name) := List.mem_map_of_mem hmem
    exact ⟨argument, hargument, Transformation.mem_names_rebuilt.mpr (Or.inr hname)⟩

/-- A flattened parameter is handed on if no mapping writes to its name, and no flattened parameter
before it in the request has this name. -/
theorem direct_mem_rebuilt {before after : List ParameterId} {argument : Argument}
    (hmappings : (wireSorted registrations).mapM (·.mapping tables mapper operation) = .ok mappings)
    (harguments : (unspread tables request registrations).mapM mapper.argument = .ok arguments)
    (hsplit : request.parameters = before ++ id :: after) (hflattened : tables.flattens id = true)
    (hargument : mapper.argument id = .ok argument)
    (hnew : argument.name ∉ mappings.map Mapping.outputName)
    (hfirst : ∀ other ∈ before, tables.flattens other = true → ∀ earlier,
      mapper.argument other = .ok earlier → earlier.name ≠ argument.name) :
    ⟨argument, [.direct argument]⟩ ∈ Transformation.rebuilt mappings arguments := by
  have hwhole : id ∉ wholes tables registrations := by
    intro hwhole
    obtain ⟨mapping, hmem, hargument'⟩ := exists_mapping_of_mem_wholes hmappings hwhole
    cases hargument.symm.trans hargument'
    exact hnew (List.mem_map_of_mem hmem)
  -- The arguments that may be handed on split at that of the parameter.
  rw [unspread, hsplit, List.filter_append, List.filter_cons_of_pos (by simp [hflattened, hwhole]),
    List.mapM_append] at harguments
  obtain ⟨front, hfront, harguments⟩ := bind_eq_ok.mp harguments
  obtain ⟨back, hback, harguments⟩ := bind_eq_ok.mp harguments
  rw [List.mapM_cons] at hback
  obtain ⟨argument', hargument', hback⟩ := bind_eq_ok.mp hback
  cases hargument.symm.trans hargument'
  obtain ⟨rest, -, hback⟩ := bind_eq_ok.mp hback
  cases pure_eq_ok.mp hback
  have hpicked : argument ∈ firstOfEach (·.name) (front ++ argument :: rest) := by
    refine mem_firstOfEach_of_forall_ne _ fun earlier hearlier => ?_
    obtain ⟨other, hother, hstep⟩ := exists_of_mem_mapM hfront hearlier
    obtain ⟨hbefore, hkept⟩ := List.mem_filter.mp hother
    rw [Bool.and_eq_true] at hkept
    exact hfirst other hbefore hkept.1 earlier hstep
  rw [← pure_eq_ok.mp harguments, Transformation.rebuilt, Transformation.passedOn, handingOn]
  exact List.mem_append_right _
    (List.mem_map.mpr ⟨argument, List.mem_filter.mpr ⟨hpicked, decide_eq_true hnew⟩, rfl⟩)

/-- After every run of offers, each flattened parameter of a request that is sent by itself and is
not constant is covered by exactly one of the transformations that are returned. If no registered
argument writes to its name, and no such parameter before it in the request has this name, then
this transformation hands its argument on. -/
theorem flattened_covered_once (model : CodeModel) (mapper : Mapper) (operation : String)
    (offers : List Registration) {request : Request} {transformations : List Transformation}
    (h : ((Registry.new operation false).offerAll model.toTables offers).transformations
      model.toTables mapper request = .ok transformations)
    {id : ParameterId} (hid : id ∈ request.parameters)
    (hflattened : model.toTables.flattens id = true) :
    ∃ argument, mapper.argument id = .ok argument ∧
      (Transformation.names transformations).count argument.name = 1 ∧
      ((∀ registration ∈ ((Registry.new operation false).offerAll model.toTables offers).entries,
          ∀ target, registration.target model.toTables mapper operation = .ok target →
            target.argument.name ≠ argument.name) →
        (∃ before after, request.parameters = before ++ id :: after ∧
          ∀ other ∈ before, model.toTables.flattens other = true → ∀ earlier,
            mapper.argument other = .ok earlier → earlier.name ≠ argument.name) →
        ⟨argument, [.direct argument]⟩ ∈ transformations) := by
  obtain ⟨mappings, arguments, hmappings, harguments, rfl⟩ := Registry.exists_rebuilt model h
  obtain ⟨argument, hargument, hname⟩ :=
    exists_argument_of_flattens hmappings harguments hid hflattened
  have hnodup := Transformation.nodup_names_rebuilt mappings arguments
  refine ⟨argument, hargument, List.count_eq_one_of_mem hnodup hname, ?_⟩
  rintro hnone ⟨before, after, hsplit, hfirst⟩
  have hnew : argument.name ∉ mappings.map Mapping.outputName := by
    intro hmem
    obtain ⟨mapping, hmapping, hname⟩ := List.mem_map.mp hmem
    obtain ⟨registration, hregistration, hstep⟩ := exists_of_mem_mapM hmappings hmapping
    obtain ⟨parameter, hparameter, -, hwrites⟩ := Registration.mapping_eq_ok.mp hstep
    have hentry := (Registry.mem_entries_offerAll operation).mpr
      (List.mem_mergeSort.mp hregistration)
    exact hnone registration hentry mapping.target
      ((Registration.target_eq_ok hparameter).mpr hwrites) hname
  exact direct_mem_rebuilt hmappings harguments hsplit hflattened hargument hnew hfirst

/-- The settings are flattened, and occur twice in the request. They are covered once. -/
theorem flattened_covered_once_user :
    ((Registry.new "addUser" false).offerAll userModel.toTables userOffers).transformations
        userModel.toTables (.ofTables userModel.toTables) userRequest =
      .ok userMethod.transformations ∧
    3 ∈ userRequest.parameters ∧ userModel.toTables.flattens 3 = true ∧
    ∃ argument, (Mapper.ofTables userModel.toTables).argument 3 = .ok argument ∧
      (Transformation.names userMethod.transformations).count argument.name = 1 ∧
      ((∀ registration ∈ ((Registry.new "addUser" false).offerAll userModel.toTables
            userOffers).entries,
          ∀ target, registration.target userModel.toTables (.ofTables userModel.toTables)
              "addUser" = .ok target →
            target.argument.name ≠ argument.name) →
        (∃ before after, userRequest.parameters = before ++ 3 :: after ∧
          ∀ other ∈ before, userModel.toTables.flattens other = true → ∀ earlier,
            (Mapper.ofTables userModel.toTables).argument other = .ok earlier →
              earlier.name ≠ argument.name) →
        ⟨argument, [.direct argument]⟩ ∈ userMethod.transformations) := by
  have hrun : ((Registry.new "addUser" false).offerAll userModel.toTables
      userOffers).transformations userModel.toTables (.ofTables userModel.toTables) userRequest =
        .ok userMethod.transformations := by cbv
  have hmem : 3 ∈ userRequest.parameters := by decide
  have hflattened : userModel.toTables.flattens 3 = true := by decide
  exact ⟨hrun, hmem, hflattened, flattened_covered_once userModel (.ofTables userModel.toTables)
    "addUser" userOffers hrun hmem hflattened⟩

end ClientPlan

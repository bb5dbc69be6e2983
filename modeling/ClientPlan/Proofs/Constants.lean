import ClientPlan.Proofs.FlattenedCoverage

/-!
# Constants in transformations

A constant is fixed on the wire. It is not registered when its argument is offered, it is not
handed on, and it does not group others, since only objects do. Hence no mapping reads a
constant. Whether one is written to depends on what the registered arguments were spread from:
that is not looked at when they are offered. This file says exactly when transformations are
free of constants, and gives a code model for which they are not.
-/

namespace ClientPlan

open Wire (CodeModel Parameter ParameterId Request Schema Tables)

/-- Neither the output of a transformation nor either side of its mappings is constant. -/
structure Transformation.FreeOfConstants (transformation : Transformation) : Prop where
  output : transformation.output.isConstant = false
  source : ∀ mapping ∈ transformation.mappings, mapping.source.argument.isConstant = false
  target : ∀ mapping ∈ transformation.mappings, mapping.target.argument.isConstant = false

variable {tables : Tables} {id : ParameterId} {argument : Argument}

/-- An argument is constant exactly when the schema of its parameter is. -/
theorem Wire.Tables.isConstant_argument {entry : WireEntry} (hentry : tables.entryAt id = .ok entry)
    (hargument : tables.argument id = .ok argument) :
    argument.isConstant = entry.schema.isConstant := by
  obtain ⟨hparameter, hschema, -⟩ := Tables.entryAt_eq_ok.mp hentry
  simp only [Tables.argument, bind_eq_ok, parameterAt_eq_ok, schemaAt_eq_ok, pure_eq_ok]
    at hargument
  obtain ⟨parameter, hparameter', type, -, schema, hschema', rfl⟩ := hargument
  cases hparameter.symm.trans hparameter'
  cases hschema.symm.trans hschema'
  rfl

/-- The argument of an accepted parameter is not constant. -/
theorem isConstant_eq_false_of_accepts (haccepts : tables.accepts id = true)
    (hargument : tables.argument id = .ok argument) : argument.isConstant = false := by
  obtain ⟨entry, hentry, hregistrable⟩ := Tables.accepts_iff.mp haccepts
  rw [Tables.isConstant_argument hentry hargument]
  exact (WireEntry.isRegistrable_iff.mp hregistrable).2

/-- The argument of a flattened parameter is not constant. -/
theorem isConstant_eq_false_of_flattens (hflattened : tables.flattens id = true)
    (hargument : tables.argument id = .ok argument) : argument.isConstant = false := by
  obtain ⟨entry, hentry, hflattened⟩ := Tables.flattens_iff.mp hflattened
  rw [Tables.isConstant_argument hentry hargument]
  simp only [WireEntry.isFlattened, Bool.and_eq_true, Bool.not_eq_true'] at hflattened
  exact hflattened.2

/-- An object is not constant. -/
theorem Wire.Schema.isConstant_eq_false_of_isObject {schema : Schema}
    (hobject : schema.isObject = true) : schema.isConstant = false := by
  unfold Schema.isObject at hobject
  unfold Schema.isConstant
  cases hkind : schema.kind <;> simp_all

/-- A value that is not constant itself is not read from a constant. -/
theorem Mapper.ReadsFrom.isConstant_eq_false {parameter : Parameter} {source : Source}
    (h : (Mapper.ofTables tables).ReadsFrom tables argument parameter source)
    (hargument : argument.isConstant = false) : source.argument.isConstant = false := by
  cases h with
  | itself => exact hargument
  | @property groupId group schema _ input _ _ hat hschema hobject _ _ hinput =>
    have hentry : tables.entryAt groupId = .ok ⟨groupId, group, schema⟩ :=
      Tables.entryAt_eq_ok.mpr ⟨hat, hschema, rfl⟩
    rw [Tables.isConstant_argument hentry hinput]
    exact Schema.isConstant_eq_false_of_isObject hobject

/-- A value that is not constant itself is not written to a constant, unless its parameter was
spread from one. -/
theorem Mapper.WritesTo.isConstant_eq_false (model : CodeModel) {parameter : Parameter}
    {target : Target} (h : (Mapper.ofTables model.toTables).WritesTo model.toTables argument
      parameter target)
    (hargument : argument.isConstant = false)
    (hwhole : ∀ whole ∈ parameter.spreadFrom, ∀ entry, model.toTables.entryAt whole = .ok entry →
      entry.schema.isConstant = false) : target.argument.isConstant = false := by
  cases h with
  | itself => exact hargument
  | @property whole _ output _ _ hspread _ houtput =>
    obtain ⟨parameter', hparameter', -⟩ := bind_eq_ok.mp houtput
    have hlt := (List.getElem?_eq_some_iff.mp (Tables.parameterAt_eq_ok.mp hparameter')).1
    obtain ⟨entry, hentry⟩ := model.exists_entryAt hlt
    rw [Tables.isConstant_argument hentry houtput]
    exact hwhole whole hspread entry hentry

section

variable {model : CodeModel} {operation : String} {offers : List Registration}
  {mappings : List Mapping}

/-- The arguments of the registrations that survive are not constant. -/
theorem isConstant_eq_false_of_mem_surviving {ids : List ParameterId} {registration : Registration}
    (hoffers : (Mapper.ofTables tables).offers ids = .ok offers)
    (hmem : registration ∈ surviving tables offers) :
    registration.argument.isConstant = false := by
  obtain ⟨hoffered, haccepts⟩ := accepts_of_mem_surviving hmem
  exact isConstant_eq_false_of_accepts haccepts (Mapper.argument_of_mem_offers hoffers hoffered)

/-- The mappings of the registrations that survive read no constant. -/
theorem isConstant_source_eq_false {ids : List ParameterId} {mapping : Mapping}
    (hoffers : (Mapper.ofTables tables).offers ids = .ok offers)
    (hmappings : (wireSorted (surviving tables offers)).mapM
      (·.mapping tables (.ofTables tables) operation) = .ok mappings)
    (hmem : mapping ∈ mappings) : mapping.source.argument.isConstant = false := by
  obtain ⟨registration, hregistration, hstep⟩ := exists_of_mem_mapM hmappings hmem
  obtain ⟨parameter, -, hreads, -⟩ := Registration.mapping_eq_ok.mp hstep
  exact hreads.isConstant_eq_false
    (isConstant_eq_false_of_mem_surviving hoffers (List.mem_mergeSort.mp hregistration))

/-- The mappings of the registrations that survive write to no constant exactly when none of them
was spread from one. -/
theorem isConstant_target_iff {ids : List ParameterId}
    (hoffers : (Mapper.ofTables model.toTables).offers ids = .ok offers)
    (hmappings : (wireSorted (surviving model.toTables offers)).mapM
      (·.mapping model.toTables (.ofTables model.toTables) operation) = .ok mappings) :
    (∀ mapping ∈ mappings, mapping.target.argument.isConstant = false) ↔
      ∀ whole ∈ wholes model.toTables (surviving model.toTables offers), ∀ entry,
        model.toTables.entryAt whole = .ok entry → entry.schema.isConstant = false := by
  constructor
  · intro htargets whole hwhole entry hentry
    obtain ⟨mapping, hmem, hargument⟩ := exists_mapping_of_mem_wholes hmappings hwhole
    rw [← Tables.isConstant_argument hentry hargument]
    exact htargets mapping hmem
  · intro hwholes mapping hmem
    obtain ⟨registration, hregistration, hstep⟩ := exists_of_mem_mapM hmappings hmem
    have hsurvives := List.mem_mergeSort.mp hregistration
    obtain ⟨parameter, hparameter, -, hwrites⟩ := Registration.mapping_eq_ok.mp hstep
    refine hwrites.isConstant_eq_false model
      (isConstant_eq_false_of_mem_surviving hoffers hsurvives) fun whole hspread => ?_
    exact hwholes whole (mem_wholes.mpr ⟨registration, hsurvives, parameter, hparameter, hspread⟩)

end

namespace Transformation

variable {mappings : List Mapping} {arguments : List Argument}

/-- Records read no constant if their mappings do not and no constant is handed on. -/
theorem isConstant_source_rebuilt
    (hsources : ∀ mapping ∈ mappings, mapping.source.argument.isConstant = false)
    (harguments : ∀ argument ∈ arguments, argument.isConstant = false)
    {transformation : Transformation} (hmem : transformation ∈ rebuilt mappings arguments) :
    ∀ mapping ∈ transformation.mappings, mapping.source.argument.isConstant = false := by
  intro mapping hmapping
  rcases exists_of_mem_rebuilt hmem with ⟨_, -, -, hmappings⟩ | ⟨argument, hargument, rfl⟩
  · exact hsources mapping (hmappings mapping hmapping)
  · rw [List.mem_singleton.mp hmapping]
    exact harguments argument hargument

/-- Records that read no constant are free of constants exactly when their mappings write to
none. -/
theorem freeOfConstants_rebuilt_iff
    (hsources : ∀ mapping ∈ mappings, mapping.source.argument.isConstant = false)
    (harguments : ∀ argument ∈ arguments, argument.isConstant = false) :
    (∀ transformation ∈ rebuilt mappings arguments, transformation.FreeOfConstants) ↔
      ∀ mapping ∈ mappings, mapping.target.argument.isConstant = false := by
  constructor
  · intro hfree mapping hmem
    obtain ⟨transformation, htransformation, hmapping⟩ := exists_mem_rebuilt hmem arguments
    exact (hfree transformation htransformation).target mapping hmapping
  · intro htargets transformation hmem
    have hsource := isConstant_source_rebuilt hsources harguments hmem
    rcases exists_of_mem_rebuilt hmem with
      ⟨first, hfirst, houtput, hmappings⟩ | ⟨argument, hargument, rfl⟩
    · have hfirst := htargets first hfirst
      exact ⟨houtput ▸ hfirst, hsource,
        fun mapping hmapping => htargets mapping (hmappings mapping hmapping)⟩
    · have hconstant := harguments argument hargument
      refine ⟨hconstant, hsource, fun mapping hmapping => ?_⟩
      rw [List.mem_singleton.mp hmapping]
      exact hconstant

end Transformation

/-- Offers of the arguments that a code model gives its parameters leave transformations that read
no constant. They are free of constants exactly when no registered argument was spread from a
constant parameter. -/
theorem freeOfConstants_iff (model : CodeModel) {operation : String} {isProtocol : Bool}
    {ids : List ParameterId} {offers : List Registration} {request : Request}
    {transformations : List Transformation}
    (hoffers : (Mapper.ofTables model.toTables).offers ids = .ok offers)
    (h : ((Registry.new operation isProtocol).offerAll model.toTables offers).transformations
      model.toTables (.ofTables model.toTables) request = .ok transformations) :
    (∀ transformation ∈ transformations, ∀ mapping ∈ transformation.mappings,
      mapping.source.argument.isConstant = false) ∧
    ((∀ transformation ∈ transformations, transformation.FreeOfConstants) ↔
      ∀ whole ∈ wholes model.toTables
          ((Registry.new operation isProtocol).offerAll model.toTables offers).entries,
        ∀ entry, model.toTables.entryAt whole = .ok entry → entry.schema.isConstant = false) := by
  cases isProtocol with
  | true =>
    have hrequest : request.Resolves model.toTables :=
      Tables.checkRequest_eq_ok.mp (mapError_eq_ok.mp (check_bind_eq_ok.mp h).1)
    rw [Registry.offerAll_eq_self rfl] at h ⊢
    rw [Registry.transformations_eq_nil rfl hrequest] at h
    cases h
    simp [wholes, Registry.new]
  | false =>
    obtain ⟨mappings, arguments, hmappings, harguments, rfl⟩ := Registry.exists_rebuilt model h
    have hsources (mapping) (hmem : mapping ∈ mappings) :=
      isConstant_source_eq_false hoffers hmappings hmem
    have hhanded : ∀ argument ∈ arguments, argument.isConstant = false := by
      intro argument hmem
      obtain ⟨id, hid, hargument⟩ := exists_of_mem_mapM harguments hmem
      have hkept := (List.mem_filter.mp hid).2
      rw [Bool.and_eq_true] at hkept
      exact isConstant_eq_false_of_flattens hkept.1 hargument
    refine ⟨fun _ => Transformation.isConstant_source_rebuilt hsources hhanded, ?_⟩
    rw [Transformation.freeOfConstants_rebuilt_iff hsources hhanded,
      isConstant_target_iff hoffers hmappings]
    simp only [mem_wholes_congr fun _ => Registry.mem_entries_offerAll operation]

/-- A name and an age were spread from a user, who is not constant. -/
theorem freeOfConstants_iff_user :
    (Mapper.ofTables userModel.toTables).offers [1, 2] =
        .ok [⟨textArgument "name", 1⟩, ⟨textArgument "age", 2⟩] ∧
      ((Registry.new "addUser" false).offerAll userModel.toTables
          [⟨textArgument "name", 1⟩, ⟨textArgument "age", 2⟩]).transformations
        userModel.toTables (.ofTables userModel.toTables) userRequest =
          .ok userMethod.transformations ∧
      (∀ transformation ∈ userMethod.transformations, ∀ mapping ∈ transformation.mappings,
        mapping.source.argument.isConstant = false) ∧
      ((∀ transformation ∈ userMethod.transformations, transformation.FreeOfConstants) ↔
        ∀ whole ∈ wholes userModel.toTables ((Registry.new "addUser" false).offerAll
            userModel.toTables [⟨textArgument "name", 1⟩, ⟨textArgument "age", 2⟩]).entries,
          ∀ entry, userModel.toTables.entryAt whole = .ok entry →
            entry.schema.isConstant = false) := by
  have hoffers : (Mapper.ofTables userModel.toTables).offers [1, 2] =
      .ok [⟨textArgument "name", 1⟩, ⟨textArgument "age", 2⟩] := by cbv
  have hrun : ((Registry.new "addUser" false).offerAll userModel.toTables
      [⟨textArgument "name", 1⟩, ⟨textArgument "age", 2⟩]).transformations
        userModel.toTables (.ofTables userModel.toTables) userRequest =
          .ok userMethod.transformations := by cbv
  exact ⟨hoffers, hrun, freeOfConstants_iff userModel hoffers hrun⟩

/-- A name is spread from a user that is fixed to a guest. -/
def guestModel : CodeModel where
  schemas := [⟨"User", .object [0]⟩, ⟨"string", .scalar .string⟩,
    ⟨"Guest", .constant (.object [("name", .text "guest")]) 0⟩]
  properties := [⟨"name", none, "name", 1, true⟩]
  parameters := [
    ⟨"user", none, "user", 2, inBody, false, true, none, none, none⟩,
    ⟨"name", none, "name", 1, none, false, true, none, some 0, some 0⟩]
  operations := [⟨"addUser", [⟨[0, 1], [], none⟩]⟩]
  checked := by rfl

/-- The user is constant, but a transformation rebuilds it from the name. -/
theorem exists_not_freeOfConstants :
    ∃ offers transformation, (Mapper.ofTables guestModel.toTables).offers [0, 1] = .ok offers ∧
      ((Registry.new "addUser" false).offerAll guestModel.toTables offers).transformations
        guestModel.toTables (.ofTables guestModel.toTables) ⟨[0, 1], [], none⟩ =
          .ok [transformation] ∧
      ¬ transformation.FreeOfConstants := by
  let user : Argument := ⟨"user", .model "User", true, some .body, true⟩
  refine ⟨[⟨user, 0⟩, ⟨textArgument "name", 1⟩],
    ⟨user, [⟨⟨textArgument "name", none⟩,
      ⟨user, some ⟨"name", "name", .string, true⟩, some "name"⟩⟩]⟩, by cbv, by cbv, ?_⟩
  intro hfree
  exact absurd hfree.output (by decide)

end ClientPlan

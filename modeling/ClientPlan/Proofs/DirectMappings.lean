import ClientPlan.Proofs.Coverage
import ClientPlan.Proofs.Provenance
import ClientPlan.Proofs.RegistryState
import ClientPlan.Proofs.Resolution

/-!
# Direct mappings

A mapping is direct if neither side of it goes through a property. The mappings of registrations
never are, because only grouped and spread parameters are registered. A flattened parameter that is
handed on gets a direct mapping, in a record of its own. So a record has mappings of one sort only,
and the others can be counted: there is one for each registration.
-/

namespace ClientPlan

open Wire (CodeModel Request Tables)

/-- The mappings of a record fit together. All of them write to the name of its output, and there
is one at least. A property that is written to is named. A direct mapping stands alone and hands
the output of the record on. -/
structure Transformation.Unmixed (transformation : Transformation) : Prop where
  nonempty : transformation.mappings ≠ []
  writes : ∀ mapping ∈ transformation.mappings, mapping.outputName = transformation.output.name
  named : ∀ mapping ∈ transformation.mappings,
    mapping.target.property.isSome = mapping.target.propertyName.isSome
  alone : ∀ mapping ∈ transformation.mappings, mapping.isDirect = true →
    transformation.mappings = [mapping] ∧ mapping = .direct transformation.output

namespace Transformation

variable {mappings : List Mapping} {arguments : List Argument} {transformation : Transformation}

/-- Merging indirect mappings makes records without direct ones. -/
theorem unmixed_of_mem_merged (hindirect : ∀ mapping ∈ mappings, mapping.isDirect = false)
    (hnamed : ∀ mapping ∈ mappings,
      mapping.target.property.isSome = mapping.target.propertyName.isSome)
    (hmem : transformation ∈ merged mappings) : transformation.Unmixed := by
  obtain ⟨first, hfirst, rfl⟩ := List.mem_map.mp hmem
  have hown : first ∈ mappings := mem_of_mem_firstOfEach _ hfirst
  refine ⟨?_, ?_, ?_, ?_⟩
  · exact List.ne_nil_of_mem (List.mem_filter.mpr ⟨hown, decide_eq_true rfl⟩)
  · intro mapping hmapping
    exact of_decide_eq_true (List.mem_filter.mp hmapping).2
  · intro mapping hmapping
    exact hnamed mapping (List.mem_of_mem_filter hmapping)
  · intro mapping hmapping hdirect
    have hnot := hindirect mapping (List.mem_of_mem_filter hmapping)
    cases hdirect.symm.trans hnot

/-- A record that hands an argument on has a direct mapping and no other. -/
theorem unmixed_direct (argument : Argument) :
    Transformation.Unmixed ⟨argument, [.direct argument]⟩ := by
  refine ⟨List.cons_ne_nil _ _, ?_, ?_, ?_⟩
  · intro mapping hmapping
    rw [List.mem_singleton.mp hmapping]
    rfl
  · intro mapping hmapping
    rw [List.mem_singleton.mp hmapping]
    rfl
  · intro mapping hmapping _
    rw [List.mem_singleton.mp hmapping]
    exact ⟨rfl, rfl⟩

/-- Indirect mappings and arguments that are handed on do not mix. -/
theorem unmixed_of_mem_rebuilt (hindirect : ∀ mapping ∈ mappings, mapping.isDirect = false)
    (hnamed : ∀ mapping ∈ mappings,
      mapping.target.property.isSome = mapping.target.propertyName.isSome)
    (hmem : transformation ∈ rebuilt mappings arguments) : transformation.Unmixed := by
  rcases List.mem_append.mp hmem with hmerged | hpassed
  · exact unmixed_of_mem_merged hindirect hnamed hmerged
  · obtain ⟨argument, -, rfl⟩ := List.mem_map.mp hpassed
    exact unmixed_direct argument

/-- The indirect mappings of all records are as many as were merged. -/
theorem countP_indirect_rebuilt (hindirect : ∀ mapping ∈ mappings, mapping.isDirect = false)
    (arguments : List Argument) :
    ((rebuilt mappings arguments).flatMap (·.mappings)).countP (fun mapping => !mapping.isDirect) =
      mappings.length := by
  obtain ⟨handed, -, hperm⟩ := exists_rebuilt_flatMap_perm mappings arguments
  have hall : mappings.countP (fun mapping => !mapping.isDirect) = mappings.length :=
    List.countP_eq_length.mpr fun mapping hmem => by simp [hindirect mapping hmem]
  have hnone : (handed.map Mapping.direct).countP (fun mapping => !mapping.isDirect) = 0 :=
    List.countP_eq_zero.mpr fun mapping hmem => by
      obtain ⟨argument, -, rfl⟩ := List.mem_map.mp hmem
      simp [Mapping.direct, Mapping.isDirect]
  rw [hperm.countP_eq, List.countP_append, hall, hnone, Nat.add_zero]

end Transformation

namespace Registry

variable {tables : Tables} {mapper : Mapper} {operation : String} {isProtocol : Bool}
  {offers : List Registration} {registration : Registration} {mapping : Mapping}

/-- Registrations were made from parameters that are accepted. -/
theorem accepts_of_mem_entries
    (hmem : registration ∈ ((Registry.new operation isProtocol).offerAll tables offers).entries) :
    tables.accepts registration.parameter = true := by
  have hlast := (entries_perm_lastAccepted operation isProtocol offers).mem_iff.mp hmem
  obtain ⟨-, haccepted⟩ := List.mem_filter.mp (mem_of_mem_lastOfEach _ hlast)
  unfold Registration.isAccepted at haccepted
  rw [Bool.and_eq_true] at haccepted
  exact haccepted.2

/-- The mapping of a registration goes through a property, and names it where it is written to. -/
theorem mapping_of_mem_entries
    (hmem : registration ∈ ((Registry.new operation isProtocol).offerAll tables offers).entries)
    (hmapping : registration.mapping tables mapper operation = .ok mapping) :
    mapping.isDirect = false ∧
      mapping.target.property.isSome = mapping.target.propertyName.isSome := by
  obtain ⟨parameter, hparameter, hreads, hwrites⟩ := Registration.mapping_eq_ok.mp hmapping
  have hlinked := isLinked_of_accepts (accepts_of_mem_entries hmem) hparameter
  exact ⟨Mapper.isDirect_eq_false_of_isLinked hreads hwrites hlinked,
    hwrites.isSome_propertyName.symm⟩

end Registry

/-- After every run of offers, the transformations of a request have as many indirect mappings as
there are registrations. Each has one mapping at least, and all of its mappings write to the name of
its output. A direct mapping stands alone in its transformation, where it hands the output on as it
is. A property is named wherever it is written to, and only there. Hence all mappings are direct
exactly if nothing is registered. -/
theorem mappings_unmixed (model : CodeModel) (mapper : Mapper) (operation : String)
    (isProtocol : Bool) (offers : List Registration) {request : Request}
    {transformations : List Transformation}
    (h : ((Registry.new operation isProtocol).offerAll model.toTables offers).transformations
      model.toTables mapper request = .ok transformations) :
    let registry := (Registry.new operation isProtocol).offerAll model.toTables offers
    (transformations.flatMap (·.mappings)).countP (fun mapping => !mapping.isDirect) =
        registry.size ∧
      (∀ transformation ∈ transformations, transformation.Unmixed) ∧
      (registry.isEmpty = true ↔ ∀ transformation ∈ transformations,
        ∀ mapping ∈ transformation.mappings, mapping.isDirect = true) := by
  intro registry
  obtain ⟨mappings, arguments, hmappings, rfl⟩ := Registry.exists_rebuilt_inWireOrder model h
  have hregistered (mapping : Mapping) (hmem : mapping ∈ mappings) : mapping.isDirect = false ∧
      mapping.target.property.isSome = mapping.target.propertyName.isSome := by
    obtain ⟨registration, hregistration, hstep⟩ := exists_of_mem_right hmappings hmem
    exact Registry.mapping_of_mem_entries (List.mem_mergeSort.mp hregistration) hstep
  have hindirect (mapping : Mapping) (hmem : mapping ∈ mappings) := (hregistered mapping hmem).1
  have hnamed (mapping : Mapping) (hmem : mapping ∈ mappings) := (hregistered mapping hmem).2
  have hsize : mappings.length = registry.size := by
    rw [← hmappings.length_eq]
    exact List.length_mergeSort _
  have hcount := Transformation.countP_indirect_rebuilt hindirect arguments
  rw [hsize] at hcount
  refine ⟨hcount, fun transformation hmem =>
    Transformation.unmixed_of_mem_rebuilt hindirect hnamed hmem, ?_⟩
  -- Nothing is registered if and only if no mapping is counted.
  have hempty : registry.isEmpty = true ↔ registry.size = 0 := by
    unfold Registry.isEmpty Registry.size
    exact List.isEmpty_iff_length_eq_zero
  rw [hempty, ← hcount, List.countP_eq_zero]
  simp only [List.mem_flatMap, Bool.not_eq_true', Bool.not_eq_false]
  constructor
  · intro hall transformation hmem mapping hmapping
    exact hall mapping ⟨transformation, hmem, hmapping⟩
  · rintro hall mapping ⟨transformation, hmem, hmapping⟩
    exact hall transformation hmem mapping hmapping

/-- Two arguments are registered, and the settings are handed on. The transformations have two
indirect mappings, and none of them is mixed. -/
theorem mappings_unmixed_user :
    let registry := (Registry.new "addUser" false).offerAll userModel.toTables userOffers
    let transformations := userMethod.transformations
    registry.transformations userModel.toTables (.ofTables userModel.toTables) userRequest =
        .ok transformations ∧
      (transformations.flatMap (·.mappings)).countP (fun mapping => !mapping.isDirect) =
        registry.size ∧
      (∀ transformation ∈ transformations, transformation.Unmixed) ∧
      (registry.isEmpty = true ↔ ∀ transformation ∈ transformations,
        ∀ mapping ∈ transformation.mappings, mapping.isDirect = true) := by
  intro registry transformations
  have hrun : registry.transformations userModel.toTables (.ofTables userModel.toTables)
      userRequest = .ok transformations := by cbv
  exact ⟨hrun, mappings_unmixed userModel (.ofTables userModel.toTables) "addUser" false userOffers
    hrun⟩

end ClientPlan

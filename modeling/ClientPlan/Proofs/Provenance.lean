import ClientPlan.Proofs.Transformations

/-!
# Where mappings come from

A registry that returns transformations has resolved each of its registrations to one mapping.
Merging moves these into the records of their outputs, and flattened parameters that are handed on
add direct mappings. So what is known of the mapping of every registration is known of every
mapping that goes through a property, and the other way round.
-/

namespace ClientPlan

open Wire (CodeModel Request)

namespace Registry

variable (model : CodeModel) {mapper : Mapper} {operation : String} {isProtocol : Bool}
  {offers : List Registration} {request : Request} {transformations : List Transformation}

/-- The transformations are made of one mapping for each registration, and of arguments that are
handed on. -/
theorem exists_rebuilt_inWireOrder
    (h : ((Registry.new operation isProtocol).offerAll model.toTables offers).transformations
      model.toTables mapper request = .ok transformations) :
    ∃ mappings arguments,
      List.Forall₂ (fun registration mapping =>
          registration.mapping model.toTables mapper operation = .ok mapping)
        ((Registry.new operation isProtocol).offerAll model.toTables offers).inWireOrder mappings ∧
      transformations = Transformation.rebuilt mappings arguments := by
  cases isProtocol with
  | true =>
    have hrequest : request.Resolves model.toTables :=
      Wire.Tables.checkRequest_eq_ok.mp (mapError_eq_ok.mp (check_bind_eq_ok.mp h).1)
    rw [offerAll_eq_self rfl, transformations_eq_nil rfl hrequest] at h
    cases h
    rw [offerAll_eq_self rfl]
    exact ⟨[], [], by simp [inWireOrder, Registry.new], rfl⟩
  | false =>
    obtain ⟨mappings, arguments, hmappings, -, hrebuilt⟩ := exists_rebuilt model h
    rw [inWireOrder_offerAll]
    exact ⟨mappings, arguments, mapM_eq_ok.mp hmappings, hrebuilt⟩

/-- The mappings of all transformations are, up to their order, one for each registration, and
direct ones. -/
theorem exists_mappings
    (h : ((Registry.new operation isProtocol).offerAll model.toTables offers).transformations
      model.toTables mapper request = .ok transformations) :
    ∃ (mappings : List Mapping) (handed : List Argument),
      List.Forall₂ (fun registration mapping =>
          registration.mapping model.toTables mapper operation = .ok mapping)
        ((Registry.new operation isProtocol).offerAll model.toTables offers).inWireOrder mappings ∧
      (transformations.flatMap (·.mappings)).Perm (mappings ++ handed.map .direct) := by
  obtain ⟨mappings, arguments, hmappings, rfl⟩ := exists_rebuilt_inWireOrder model h
  obtain ⟨handed, -, hperm⟩ := Transformation.exists_rebuilt_flatMap_perm mappings arguments
  exact ⟨mappings, handed, hmappings, hperm⟩

/-- Every registration has its mapping in the transformations. -/
theorem exists_mem_flatMap_mappings
    (h : ((Registry.new operation isProtocol).offerAll model.toTables offers).transformations
      model.toTables mapper request = .ok transformations)
    {registration : Registration}
    (hmem : registration ∈
      ((Registry.new operation isProtocol).offerAll model.toTables offers).entries) :
    ∃ mapping ∈ transformations.flatMap (·.mappings),
      registration.mapping model.toTables mapper operation = .ok mapping := by
  obtain ⟨mappings, handed, hmappings, hperm⟩ := exists_mappings model h
  obtain ⟨mapping, hmapping, hstep⟩ :=
    exists_of_mem_left hmappings (List.mem_mergeSort.mpr hmem)
  exact ⟨mapping, hperm.mem_iff.mpr (List.mem_append_left _ hmapping), hstep⟩

/-- Every mapping that goes through a property of its target is that of a registration. -/
theorem exists_mem_entries
    (h : ((Registry.new operation isProtocol).offerAll model.toTables offers).transformations
      model.toTables mapper request = .ok transformations)
    {mapping : Mapping} (hmem : mapping ∈ transformations.flatMap (·.mappings))
    (hproperty : mapping.target.property.isSome = true) :
    ∃ registration ∈ ((Registry.new operation isProtocol).offerAll model.toTables offers).entries,
      registration.mapping model.toTables mapper operation = .ok mapping := by
  obtain ⟨mappings, handed, hmappings, hperm⟩ := exists_mappings model h
  rcases List.mem_append.mp (hperm.mem_iff.mp hmem) with hmapping | hdirect
  · obtain ⟨registration, hregistration, hstep⟩ := exists_of_mem_right hmappings hmapping
    exact ⟨registration, List.mem_mergeSort.mp hregistration, hstep⟩
  · obtain ⟨argument, -, rfl⟩ := List.mem_map.mp hdirect
    cases hproperty

end Registry

end ClientPlan

import ClientPlan.Method.Mapping
import ClientPlan.Proofs.Keyed

/-!
# Merging mappings by output

Mappings are added one by one, each to the record of its output's name or to a new one, and
arguments that nothing rebuilds are handed on afterwards. Both loops are related here to a
description of their result: one record for each name, in the order of first appearance, with
the first output of that name and all mappings onto it.
-/

namespace ClientPlan

/-- The name of the argument that a mapping writes to. -/
def Mapping.outputName (mapping : Mapping) : String := mapping.target.argument.name

/-- The records that hand arguments on. -/
def handingOn (arguments : List Argument) : List Transformation :=
  arguments.map fun argument => ⟨argument, [.direct argument]⟩

namespace Transformation

/-- The names of the outputs of records. -/
def names (transformations : List Transformation) : List String :=
  transformations.map (·.output.name)

/-- One record for each output name, in the order in which the names first appear. It has the
first output of its name, and all mappings onto that name in their order. -/
def merged (mappings : List Mapping) : List Transformation :=
  (firstOfEach Mapping.outputName mappings).map fun first =>
    ⟨first.target.argument, mappings.filter fun mapping => mapping.outputName = first.outputName⟩

/-- One record for each argument that is the first of its name and has none of the given names.
It hands the argument on. -/
def passedOn (names : List String) (arguments : List Argument) : List Transformation :=
  handingOn ((firstOfEach (·.name) arguments).filter fun argument => argument.name ∉ names)

/-- The records that mappings and then arguments make: the mappings merged by output, and each
argument handed on whose name no mapping writes to. -/
def rebuilt (mappings : List Mapping) (arguments : List Argument) : List Transformation :=
  merged mappings ++ passedOn (mappings.map Mapping.outputName) arguments

/-- The records that hand arguments on have the names of the arguments. -/
@[simp] theorem names_handingOn (arguments : List Argument) :
    names (handingOn arguments) = arguments.map (·.name) := by
  rw [names, handingOn, List.map_map]
  rfl

/-- A mapping goes to the first record if that has its name, and past it otherwise. -/
theorem addMapping_cons (transformation : Transformation) (rest : List Transformation)
    (mapping : Mapping) :
    addMapping (transformation :: rest) mapping =
      if transformation.output.name = mapping.outputName then
        { transformation with mappings := transformation.mappings ++ [mapping] } :: rest
      else transformation :: addMapping rest mapping := rfl

/-- A mapping onto a new name makes a record of its own, behind all others. -/
theorem addMapping_of_not_mem {transformations : List Transformation} {mapping : Mapping}
    (h : mapping.outputName ∉ names transformations) :
    addMapping transformations mapping =
      transformations ++ [⟨mapping.target.argument, [mapping]⟩] := by
  induction transformations with
  | nil => rfl
  | cons transformation rest ih =>
    simp only [names, List.map_cons, List.mem_cons, not_or] at h
    rw [addMapping_cons, if_neg (Ne.symm h.1), ih h.2, List.cons_append]

/-- A mapping onto a known name goes to the record of that name. -/
theorem addMapping_of_mem {transformations : List Transformation} {mapping : Mapping}
    (hnodup : (names transformations).Nodup) (h : mapping.outputName ∈ names transformations) :
    addMapping transformations mapping = transformations.map fun transformation =>
      if transformation.output.name = mapping.outputName then
        { transformation with mappings := transformation.mappings ++ [mapping] }
      else transformation := by
  induction transformations with
  | nil => cases h
  | cons transformation rest ih =>
    simp only [names, List.map_cons, List.nodup_cons] at hnodup
    rw [addMapping_cons, List.map_cons]
    by_cases heq : transformation.output.name = mapping.outputName
    · have hrest : ∀ other ∈ rest, other.output.name ≠ mapping.outputName := by
        intro other hother heq'
        exact hnodup.1 (List.mem_map.mpr ⟨other, hother, heq'.trans heq.symm⟩)
      have hid : (rest.map fun other =>
          if other.output.name = mapping.outputName then
            { other with mappings := other.mappings ++ [mapping] } else other) = rest :=
        (List.map_congr_left fun other hother => if_neg (hrest other hother)).trans
          (List.map_id' rest)
      rw [if_pos heq, if_pos heq, hid]
    · have hmem : mapping.outputName ∈ names rest := by
        rcases List.mem_cons.mp h with heq' | hmem
        · exact absurd heq'.symm heq
        · exact hmem
      rw [if_neg heq, if_neg heq, ih hnodup.2 hmem]

/-- Adding a mapping loses and doubles none. -/
theorem addMapping_flatMap_perm (transformations : List Transformation) (mapping : Mapping) :
    ((addMapping transformations mapping).flatMap (·.mappings)).Perm
      (transformations.flatMap (·.mappings) ++ [mapping]) := by
  induction transformations with
  | nil => exact .refl _
  | cons transformation rest ih =>
    rw [addMapping]
    split
    · rw [List.flatMap_cons, List.flatMap_cons, List.append_assoc, List.append_assoc]
      exact List.perm_append_comm.append_left _
    · rw [List.flatMap_cons, List.flatMap_cons, List.append_assoc]
      exact ih.append_left _

/-- The merged records have the output names of the mappings, each once. -/
theorem names_merged (mappings : List Mapping) :
    names (merged mappings) = (firstOfEach Mapping.outputName mappings).map Mapping.outputName := by
  unfold names merged
  rw [List.map_map]
  rfl

/-- A name is the output of a merged record exactly when some mapping writes to it. -/
theorem mem_names_merged {mappings : List Mapping} {name : String} :
    name ∈ names (merged mappings) ↔ name ∈ mappings.map Mapping.outputName := by
  rw [names_merged, mem_map_firstOfEach]

/-- No two merged records have the same name. -/
theorem nodup_names_merged (mappings : List Mapping) : (names (merged mappings)).Nodup :=
  names_merged mappings ▸ nodup_map_firstOfEach _ mappings

/-- Merging one more mapping is adding it to the merged records. -/
theorem merged_concat (mappings : List Mapping) (mapping : Mapping) :
    merged (mappings ++ [mapping]) = addMapping (merged mappings) mapping := by
  by_cases hmem : mapping.outputName ∈ mappings.map Mapping.outputName
  · rw [addMapping_of_mem (nodup_names_merged mappings) (mem_names_merged.mpr hmem)]
    unfold merged
    rw [firstOfEach_concat, if_pos hmem, List.map_map]
    refine List.map_congr_left fun first _ => ?_
    by_cases heq : first.outputName = mapping.outputName
    · have hname : first.target.argument.name = mapping.outputName := heq
      simp [hname, heq]
    · have hname : first.target.argument.name ≠ mapping.outputName := heq
      simp [hname, Ne.symm heq]
  · rw [addMapping_of_not_mem fun h => hmem (mem_names_merged.mp h)]
    unfold merged
    rw [firstOfEach_concat, if_neg hmem, List.map_append]
    have hne : ∀ other ∈ mappings, other.outputName ≠ mapping.outputName := fun other hother heq =>
      hmem (heq ▸ List.mem_map_of_mem hother)
    congr 1
    · refine List.map_congr_left fun first hfirst => ?_
      have hneg := hne first (mem_of_mem_firstOfEach _ hfirst)
      simp [Ne.symm hneg]
    · have hnone : mappings.filter (fun other => other.outputName = mapping.outputName) = [] :=
        List.filter_eq_nil_iff.mpr fun other hother => by simpa using hne other hother
      simp [hnone]

/-- Adding mappings one by one merges them by their outputs. -/
theorem foldl_addMapping (mappings : List Mapping) :
    mappings.foldl addMapping [] = merged mappings := by
  induction mappings using List.reverseRecOn with
  | nil => rfl
  | append_singleton mappings mapping ih =>
    rw [List.foldl_append, ih, List.foldl_cons, List.foldl_nil, merged_concat]

/-- Merging loses and doubles no mapping. -/
theorem merged_flatMap_perm (mappings : List Mapping) :
    ((merged mappings).flatMap (·.mappings)).Perm mappings := by
  induction mappings using List.reverseRecOn with
  | nil => exact .refl _
  | append_singleton mappings mapping ih =>
    rw [merged_concat]
    exact (addMapping_flatMap_perm _ _).trans (ih.append_right _)

/-- An argument is handed on unless some record has its name. -/
theorem cover_eq (transformations : List Transformation) (argument : Argument) :
    cover transformations argument =
      if argument.name ∈ names transformations then transformations
      else transformations ++ [⟨argument, [.direct argument]⟩] := by
  have hany : (transformations.any fun transformation =>
      transformation.output.name = argument.name) = true ↔
        argument.name ∈ names transformations := by
    simp [names]
  unfold cover
  simp only [hany]

/-- The names of the arguments that are handed on are those without a record. -/
theorem mem_names_passedOn {taken : List String} {arguments : List Argument} {name : String} :
    name ∈ names (passedOn taken arguments) ↔
      name ∈ arguments.map (·.name) ∧ name ∉ taken := by
  rw [← mem_map_firstOfEach, passedOn, names_handingOn]
  simp only [List.mem_map, List.mem_filter, decide_eq_true_eq]
  constructor
  · rintro ⟨argument, ⟨hmem, hnew⟩, rfl⟩
    exact ⟨⟨argument, hmem, rfl⟩, hnew⟩
  · rintro ⟨⟨argument, hmem, rfl⟩, hnew⟩
    exact ⟨argument, ⟨hmem, hnew⟩, rfl⟩

/-- Handing on arguments behind records adds the names of the arguments. -/
theorem mem_names_append_passedOn {transformations : List Transformation}
    {arguments : List Argument} {name : String} :
    name ∈ names (transformations ++ passedOn (names transformations) arguments) ↔
      name ∈ names transformations ∨ name ∈ arguments.map (·.name) := by
  rw [names, List.map_append, List.mem_append, ← names, ← names, mem_names_passedOn]
  constructor
  · exact fun h => h.imp_right And.left
  · intro h
    by_cases hmem : name ∈ names transformations
    · exact Or.inl hmem
    · exact Or.inr ⟨h.resolve_left hmem, hmem⟩

/-- Covering arguments one by one hands on the first of each name that has no record yet. -/
theorem foldl_cover (transformations : List Transformation) (arguments : List Argument) :
    arguments.foldl cover transformations =
      transformations ++ passedOn (names transformations) arguments := by
  induction arguments using List.reverseRecOn with
  | nil => exact (List.append_nil _).symm
  | append_singleton arguments argument ih =>
    rw [List.foldl_append, ih, List.foldl_cons, List.foldl_nil, cover_eq]
    simp only [mem_names_append_passedOn]
    unfold passedOn handingOn
    rw [firstOfEach_concat]
    by_cases hknown : argument.name ∈ arguments.map (·.name)
    · rw [if_pos (Or.inr hknown), if_pos hknown]
    · rw [if_neg hknown, List.filter_append, List.map_append]
      by_cases htaken : argument.name ∈ names transformations
      · rw [if_pos (Or.inl htaken), List.filter_cons_of_neg (by simpa using htaken)]
        simp
      · rw [if_neg (not_or.mpr ⟨htaken, hknown⟩), List.filter_cons_of_pos (by simpa using htaken)]
        simp

/-- Covering arguments after all mappings were merged gives the records of both. -/
theorem foldl_cover_merged (mappings : List Mapping) (arguments : List Argument) :
    arguments.foldl cover (merged mappings) = rebuilt mappings arguments := by
  have hcongr : passedOn (names (merged mappings)) arguments =
      passedOn (mappings.map Mapping.outputName) arguments := by
    unfold passedOn
    simp only [mem_names_merged]
  rw [foldl_cover, hcongr, rebuilt]

/-- More arguments are handed on behind all records that there are. -/
theorem rebuilt_append (mappings : List Mapping) (arguments more : List Argument) :
    rebuilt mappings (arguments ++ more) =
      rebuilt mappings arguments ++ passedOn (names (rebuilt mappings arguments)) more := by
  rw [← foldl_cover_merged, List.foldl_append, foldl_cover_merged, foldl_cover]

/-- Only the first argument of each name matters for the records. -/
theorem rebuilt_eq_of_firstOfEach (mappings : List Mapping) {arguments arguments' : List Argument}
    (hfirst : firstOfEach (·.name) arguments = firstOfEach (·.name) arguments') :
    rebuilt mappings arguments = rebuilt mappings arguments' := by
  unfold rebuilt passedOn
  rw [hfirst]

/-- The names of all records are those that mappings write to and those of the arguments. -/
theorem mem_names_rebuilt {mappings : List Mapping} {arguments : List Argument} {name : String} :
    name ∈ names (rebuilt mappings arguments) ↔
      name ∈ mappings.map Mapping.outputName ∨ name ∈ arguments.map (·.name) := by
  rw [← foldl_cover_merged, foldl_cover, mem_names_append_passedOn, mem_names_merged]

/-- No two records have the same name. -/
theorem nodup_names_rebuilt (mappings : List Mapping) (arguments : List Argument) :
    (names (rebuilt mappings arguments)).Nodup := by
  rw [rebuilt, names, List.map_append, ← names, ← names, List.nodup_append']
  refine ⟨nodup_names_merged mappings, ?_, fun name hname hpassed => ?_⟩
  · have hsublist : (names (passedOn (mappings.map Mapping.outputName) arguments)).Sublist
        ((firstOfEach (·.name) arguments).map (·.name)) := by
      rw [passedOn, names_handingOn]
      exact List.filter_sublist.map _
    exact hsublist.nodup (nodup_map_firstOfEach _ arguments)
  · exact (mem_names_passedOn.mp hpassed).2 (mem_names_merged.mp hname)

/-- Handing arguments on makes one direct mapping for each argument that is handed on. -/
theorem passedOn_flatMap (names : List String) (arguments : List Argument) :
    (passedOn names arguments).flatMap (·.mappings) =
      ((firstOfEach (·.name) arguments).filter fun argument => argument.name ∉ names).map
        .direct := by
  rw [passedOn, handingOn, List.flatMap_map, List.map_eq_flatMap]

/-- The records hold all mappings, and one direct mapping for each argument that is handed on. -/
theorem exists_rebuilt_flatMap_perm (mappings : List Mapping) (arguments : List Argument) :
    ∃ handed : List Argument, (∀ argument ∈ handed, argument ∈ arguments) ∧
      ((rebuilt mappings arguments).flatMap (·.mappings)).Perm
        (mappings ++ handed.map .direct) := by
  refine ⟨(firstOfEach (·.name) arguments).filter fun argument =>
    argument.name ∉ mappings.map Mapping.outputName, fun argument hmem => ?_, ?_⟩
  · exact mem_of_mem_firstOfEach _ (List.mem_of_mem_filter hmem)
  · rw [rebuilt, List.flatMap_append, passedOn_flatMap]
    exact (merged_flatMap_perm mappings).append_right _

/-- Every mapping lies in the record of the name that it writes to. -/
theorem outputName_of_mem_rebuilt {mappings : List Mapping} {arguments : List Argument}
    {transformation : Transformation} {mapping : Mapping}
    (hmem : transformation ∈ rebuilt mappings arguments)
    (hmapping : mapping ∈ transformation.mappings) :
    mapping.outputName = transformation.output.name := by
  rcases List.mem_append.mp hmem with hmerged | hpassed
  · obtain ⟨first, -, rfl⟩ := List.mem_map.mp hmerged
    exact of_decide_eq_true (List.mem_filter.mp hmapping).2
  · obtain ⟨argument, -, rfl⟩ := List.mem_map.mp hpassed
    rw [List.mem_singleton.mp hmapping]
    rfl

/-- A record holds mappings onto its output, of which one gave it this output, or it hands on an
argument. -/
theorem exists_of_mem_rebuilt {mappings : List Mapping} {arguments : List Argument}
    {transformation : Transformation} (hmem : transformation ∈ rebuilt mappings arguments) :
    (∃ first ∈ mappings, transformation.output = first.target.argument ∧
        ∀ mapping ∈ transformation.mappings, mapping ∈ mappings) ∨
      ∃ argument ∈ arguments, transformation = ⟨argument, [.direct argument]⟩ := by
  rcases List.mem_append.mp hmem with hmerged | hpassed
  · obtain ⟨first, hfirst, rfl⟩ := List.mem_map.mp hmerged
    exact Or.inl ⟨first, mem_of_mem_firstOfEach _ hfirst, rfl, fun _ => List.mem_of_mem_filter⟩
  · obtain ⟨argument, hargument, rfl⟩ := List.mem_map.mp hpassed
    exact Or.inr ⟨argument, mem_of_mem_firstOfEach _ (List.mem_of_mem_filter hargument), rfl⟩

/-- Every mapping lies in some record. -/
theorem exists_mem_rebuilt {mappings : List Mapping} {mapping : Mapping} (h : mapping ∈ mappings)
    (arguments : List Argument) :
    ∃ transformation ∈ rebuilt mappings arguments, mapping ∈ transformation.mappings := by
  have hmem := (merged_flatMap_perm mappings).mem_iff.mpr h
  obtain ⟨transformation, htransformation, hmapping⟩ := List.mem_flatMap.mp hmem
  exact ⟨transformation, List.mem_append_left _ htransformation, hmapping⟩

/-- The records read what the mappings read, and by themselves the arguments that are handed on. -/
theorem exists_source_rebuilt {mappings : List Mapping} {arguments : List Argument}
    {name : String} :
    (∃ transformation ∈ rebuilt mappings arguments, ∃ mapping ∈ transformation.mappings,
        mapping.source.argument.name = name) ↔
      name ∈ mappings.map (·.source.argument.name) ∨
        (name ∈ arguments.map (·.name) ∧ name ∉ mappings.map Mapping.outputName) := by
  have hmerged : (∃ transformation ∈ merged mappings, ∃ mapping ∈ transformation.mappings,
      mapping.source.argument.name = name) ↔ name ∈ mappings.map (·.source.argument.name) := by
    simp only [List.mem_map, ← (merged_flatMap_perm mappings).mem_iff, List.mem_flatMap]
    constructor
    · rintro ⟨transformation, hmem, mapping, hmapping, hname⟩
      exact ⟨mapping, ⟨transformation, hmem, hmapping⟩, hname⟩
    · rintro ⟨mapping, ⟨transformation, hmem, hmapping⟩, hname⟩
      exact ⟨transformation, hmem, mapping, hmapping, hname⟩
  have hpassed (taken : List String) : (∃ transformation ∈ passedOn taken arguments,
      ∃ mapping ∈ transformation.mappings, mapping.source.argument.name = name) ↔
        name ∈ names (passedOn taken arguments) := by
    simp [names, passedOn, handingOn, Mapping.direct]
  simp only [rebuilt, List.mem_append, or_and_right, exists_or, hmerged, hpassed,
    mem_names_passedOn]

end Transformation

end ClientPlan

import ClientPlan.Proofs.Provenance
import ClientPlan.Proofs.Resolution
import Mathlib.Data.List.Permutation

/-!
# What grouped parameters read

The value of a grouped parameter is read from a property of the argument that groups it. Names are
not always the same on both sides, so two searches look for this property: the first one for the
name that clients see, and only if there is none the second one for the name on the wire. A
property late in the model that has the right name wins over an early one that is only written in
the same way.
-/

namespace ClientPlan

open Wire (CodeModel Parameter ParameterId Request Tables)

/-- A property of a group's model stands for a parameter: it is the first one with the name that
clients see or, where none has this name, the first one with the name on the wire. -/
inductive Model.StandsFor (model : Model) (parameter : Parameter) : ModelProperty → Prop
  | named {before after : List ModelProperty} {property : ModelProperty}
      (hsplit : model.properties = before ++ property :: after)
      (hbefore : ∀ other ∈ before, other.name ≠ parameter.shownName)
      (hname : property.name = parameter.shownName) : StandsFor model parameter property
  | serialized {before after : List ModelProperty} {property : ModelProperty}
      (hunnamed : ∀ other ∈ model.properties, other.name ≠ parameter.shownName)
      (hsplit : model.properties = before ++ property :: after)
      (hbefore : ∀ other ∈ before, other.serializedName ≠ parameter.serializedName)
      (hserialized : property.serializedName = parameter.serializedName) :
      StandsFor model parameter property

namespace Registration

variable {model : Model} {parameter : Parameter}

/-- A search for a value of some key finds the first property that has it. -/
private theorem find?_key_eq_some {key : ModelProperty → String} {value : String}
    {properties : List ModelProperty} {property : ModelProperty} :
    (properties.find? fun other => key other = value) = some property ↔
      key property = value ∧ ∃ before after, properties = before ++ property :: after ∧
        ∀ other ∈ before, key other ≠ value := by
  simp [List.find?_eq_some_iff_append]

/-- A search for a value of some key finds nothing exactly when no property has it. -/
private theorem find?_key_eq_none {key : ModelProperty → String} {value : String}
    {properties : List ModelProperty} :
    (properties.find? fun other => key other = value) = none ↔
      ∀ other ∈ properties, key other ≠ value := by
  simp

/-- The property that is found for a parameter is the one that stands for it. -/
theorem groupProperty?_eq_some_iff {property : ModelProperty} :
    groupProperty? model parameter = some property ↔ model.StandsFor parameter property := by
  unfold groupProperty? Model.named? Model.serializedAs?
  rw [Option.or_eq_some_iff, find?_key_eq_some, find?_key_eq_none, find?_key_eq_some]
  constructor
  · rintro (⟨hname, before, after, hsplit, hbefore⟩ |
      ⟨hunnamed, hserialized, before, after, hsplit, hbefore⟩)
    · exact .named hsplit hbefore hname
    · exact .serialized hunnamed hsplit hbefore hserialized
  · rintro (⟨hsplit, hbefore, hname⟩ | ⟨hunnamed, hsplit, hbefore, hserialized⟩)
    · exact Or.inl ⟨hname, _, _, hsplit, hbefore⟩
    · exact Or.inr ⟨hunnamed, hserialized, _, _, hsplit, hbefore⟩

/-- No property is found for a parameter exactly when none has either of its names. -/
theorem groupProperty?_eq_none_iff :
    groupProperty? model parameter = none ↔ ∀ property ∈ model.properties,
      property.name ≠ parameter.shownName ∧
        property.serializedName ≠ parameter.serializedName := by
  unfold groupProperty? Model.named? Model.serializedAs?
  rw [Option.or_eq_none_iff, find?_key_eq_none, find?_key_eq_none]
  exact ⟨fun ⟨hnames, hserialized⟩ property hmem =>
      ⟨hnames property hmem, hserialized property hmem⟩,
    fun h => ⟨fun property hmem => (h property hmem).1, fun property hmem => (h property hmem).2⟩⟩

end Registration

/-- A mapping reads the argument that groups a parameter, through the property of its model that
stands for the parameter. -/
def Mapping.ReadsGroup (mapping : Mapping) (tables : Tables) (mapper : Mapper)
    (parameter : Parameter) (id : ParameterId) : Prop :=
  ∃ group model property, tables.parameters[id]? = some group ∧
    mapper.model group.schema = .ok model ∧ mapper.argument id = .ok mapping.source.argument ∧
    mapping.source.property = some property ∧ model.StandsFor parameter property

/-- The mapping of a registration whose parameter is grouped reads the group. -/
theorem Registration.readsGroup_mapping {tables : Tables} {mapper : Mapper} {operation : String}
    {registration : Registration} {mapping : Mapping} {parameter : Parameter} {id : ParameterId}
    (hmapping : registration.mapping tables mapper operation = .ok mapping)
    (hparameter : tables.parameters[registration.parameter]? = some parameter)
    (hgroup : parameter.groupedBy = some id) :
    mapping.ReadsGroup tables mapper parameter id := by
  obtain ⟨hreads, -⟩ := sides_of_mapping hmapping hparameter
  obtain ⟨⟨argument, property?⟩, target⟩ := mapping
  cases hreads with
  | itself hnone => cases hnone.symm.trans hgroup
  | property hid hat _ _ hmodel hread hinput =>
    cases hid.symm.trans hgroup
    exact ⟨_, _, _, hat, hmodel, hinput, rfl, groupProperty?_eq_some_iff.mp hread⟩

/-- After every run of offers the mappings that are returned are, up to their order, one for each
registration, and direct ones. That of a grouped parameter reads the argument of the group through
the property that stands for the parameter in the group's model, whether or not it was spread as
well: in that case the value goes to what it was spread from. -/
theorem grouped_reads_group (model : CodeModel) {mapper : Mapper} {operation : String}
    {isProtocol : Bool} {offers : List Registration} {request : Request}
    {transformations : List Transformation}
    (h : ((Registry.new operation isProtocol).offerAll model.toTables offers).transformations
      model.toTables mapper request = .ok transformations) :
    ∃ (mappings : List Mapping) (handed : List Argument),
      List.Forall₂ (fun registration mapping =>
          registration.mapping model.toTables mapper operation = .ok mapping ∧
          ∀ parameter id, model.parameters[registration.parameter]? = some parameter →
            parameter.groupedBy = some id →
              mapping.ReadsGroup model.toTables mapper parameter id ∧
              ∀ whole, parameter.spreadFrom = some whole →
                mapper.argument whole = .ok mapping.target.argument)
        ((Registry.new operation isProtocol).offerAll model.toTables offers).inWireOrder mappings ∧
      (transformations.flatMap (·.mappings)).Perm (mappings ++ handed.map .direct) := by
  obtain ⟨mappings, handed, hmappings, hperm⟩ := Registry.exists_mappings model h
  refine ⟨mappings, handed, hmappings.imp fun registration mapping hmapping => ?_, hperm⟩
  refine ⟨hmapping, fun parameter id hparameter hgroup => ?_⟩
  refine ⟨Registration.readsGroup_mapping hmapping hparameter hgroup, fun whole hwhole => ?_⟩
  obtain ⟨-, hwrites⟩ := Registration.sides_of_mapping hmapping hparameter
  exact hwrites.argument_of_spreadFrom hwhole

/-- The size of a search is grouped and spread, and the number of its pages is grouped. The paging
has a limit that is written like the size, and behind it a size that is written like the number of
pages. -/
def searchModel : CodeModel where
  schemas := [⟨"Search", .object [0]⟩, ⟨"Paging", .object [1, 2]⟩, ⟨"string", .scalar .string⟩]
  properties := [⟨"size", none, "size", 2, true⟩, ⟨"limit", none, "size", 2, true⟩,
    ⟨"size", none, "count", 2, true⟩]
  parameters := [
    ⟨"search", none, "search", 0, inBody, true, true, none, none, none⟩,
    ⟨"paging", none, "paging", 1, none, false, true, none, none, none⟩,
    ⟨"size", none, "size", 2, none, false, true, some 1, some 0, some 0⟩,
    ⟨"pages", none, "count", 2, none, false, true, some 1, none, none⟩]
  operations := []
  checked := by rfl

/-- The transformations of a request for a search. Both mappings read the size of the paging. -/
def searchTransformations : List Transformation :=
  let search : Argument := ⟨"search", .model "Search", true, some .body, false⟩
  let size : Source := ⟨⟨"paging", .model "Paging", true, none, false⟩,
    some ⟨"size", "count", .string, true⟩⟩
  [⟨search, [⟨size, ⟨search, some ⟨"size", "size", .string, true⟩, some "size"⟩⟩]⟩,
    ⟨textArgument "pages", [⟨size, ⟨textArgument "pages", none, none⟩⟩]⟩]

/-- One property of the paging stands for the size by its name, and for the number of pages by its
name on the wire. -/
theorem grouped_reads_group_search :
    ((Registry.new "search" false).offerAll searchModel.toTables
        [⟨textArgument "pages", 3⟩, ⟨textArgument "size", 2⟩]).transformations
      searchModel.toTables (.ofTables searchModel.toTables) ⟨[0, 2, 3], [], none⟩ =
        .ok searchTransformations ∧
    ∃ (mappings : List Mapping) (handed : List Argument),
      List.Forall₂ (fun registration mapping =>
          registration.mapping searchModel.toTables (.ofTables searchModel.toTables) "search" =
            .ok mapping ∧
          ∀ parameter id, searchModel.parameters[registration.parameter]? = some parameter →
            parameter.groupedBy = some id →
              mapping.ReadsGroup searchModel.toTables (.ofTables searchModel.toTables) parameter
                id ∧
              ∀ whole, parameter.spreadFrom = some whole →
                (Mapper.ofTables searchModel.toTables).argument whole =
                  .ok mapping.target.argument)
        ((Registry.new "search" false).offerAll searchModel.toTables
          [⟨textArgument "pages", 3⟩, ⟨textArgument "size", 2⟩]).inWireOrder mappings ∧
      (searchTransformations.flatMap (·.mappings)).Perm (mappings ++ handed.map .direct) := by
  have hrun : ((Registry.new "search" false).offerAll searchModel.toTables
      [⟨textArgument "pages", 3⟩, ⟨textArgument "size", 2⟩]).transformations
        searchModel.toTables (.ofTables searchModel.toTables) ⟨[0, 2, 3], [], none⟩ =
          .ok searchTransformations := by cbv
  exact ⟨hrun, grouped_reads_group searchModel hrun⟩

end ClientPlan

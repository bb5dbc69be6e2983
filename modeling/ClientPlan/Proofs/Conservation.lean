import ClientPlan.Proofs.DerivedPlans
import Mathlib.Data.List.Permutation

/-!
# No linked parameter is lost

A grouped or spread parameter of a request makes one offer each time it occurs. The registry keeps
one registration for each argument name. Where different parameters have different argument
names these are as many as there are different linked parameters, and each of them resolves to
one mapping. Merging the mappings by output loses and doubles none, so that a plan holds exactly
one mapping for each linked parameter, and besides them only arguments that are handed on.
-/

namespace ClientPlan

open Wire (CodeModel Parameter ParameterId Request Tables)

/-- Different parameters among the given ones have arguments of different names. -/
def Mapper.Distinguishes (mapper : Mapper) (ids : List ParameterId) : Prop :=
  ∀ id ∈ ids, ∀ other ∈ ids, ∀ argument argument', mapper.argument id = .ok argument →
    mapper.argument other = .ok argument' → argument.name = argument'.name → id = other

/-- The different grouped or spread parameters of a request that are not constant. -/
def linked (tables : Tables) (request : Request) : List ParameterId :=
  (request.parameters.filter tables.accepts).dedup

/-- A mapping copies the value of a wire parameter: it reads where the argument of this parameter
reads from, and writes where that writes to. -/
def Mapping.ComesFrom (mapping : Mapping) (tables : Tables) (mapper : Mapper)
    (id : ParameterId) : Prop :=
  ∃ parameter argument, tables.parameters[id]? = some parameter ∧
    mapper.argument id = .ok argument ∧
    mapper.ReadsFrom tables argument parameter mapping.source ∧
    mapper.WritesTo tables argument parameter mapping.target

variable {tables : Tables} {mapper : Mapper}

/-- A mapping that comes from a grouped or spread parameter goes through a property. -/
theorem Mapping.ComesFrom.isDirect_eq_false {mapping : Mapping} {id : ParameterId}
    (h : mapping.ComesFrom tables mapper id) (haccepts : tables.accepts id = true) :
    mapping.isDirect = false := by
  obtain ⟨parameter, argument, hparameter, -, hreads, hwrites⟩ := h
  exact Mapper.isDirect_eq_false_of_isLinked hreads hwrites
    (isLinked_of_accepts haccepts hparameter)

/-- Where different parameters have different argument names, the registrations that survive their
offers stand for the different parameters that are linked. -/
theorem map_parameter_surviving {request : Request} {offers : List Registration}
    (hoffers : mapper.offers request.parameters = .ok offers)
    (hdistinct : mapper.Distinguishes request.parameters) :
    (surviving tables offers).map (·.parameter) = linked tables request := by
  have hids := Mapper.map_parameter_offers hoffers
  have hname : ∀ left ∈ offers, ∀ right ∈ offers,
      left.argument.name = right.argument.name ↔ left.parameter = right.parameter := by
    intro left hleft right hright
    have hargument := Mapper.argument_of_mem_offers hoffers hleft
    have hargument' := Mapper.argument_of_mem_offers hoffers hright
    have hmem : left.parameter ∈ request.parameters := hids ▸ List.mem_map_of_mem hleft
    have hmem' : right.parameter ∈ request.parameters := hids ▸ List.mem_map_of_mem hright
    constructor
    · exact hdistinct _ hmem _ hmem' _ _ hargument hargument'
    · intro heq
      rw [heq, hargument'] at hargument
      exact congrArg Argument.name (Except.ok.inj hargument).symm
  have hcongr : surviving tables offers =
      lastOfEach (·.parameter) (offers.filter fun offered => tables.accepts offered.parameter) :=
    lastOfEach_congr _ fun left hleft right hright =>
      hname left (List.mem_of_mem_filter hleft) right (List.mem_of_mem_filter hright)
  rw [hcongr, map_lastOfEach, linked, ← hids, List.filter_map]
  rfl

/-- The mapping of a registration with the argument of its parameter comes from this parameter. -/
theorem Registration.comesFrom_mapping {registration : Registration} {mapping : Mapping}
    {operation : String}
    (hargument : mapper.argument registration.parameter = .ok registration.argument)
    (hmapping : registration.mapping tables mapper operation = .ok mapping) :
    mapping.ComesFrom tables mapper registration.parameter := by
  obtain ⟨parameter, hparameter, hreads, hwrites⟩ := Registration.mapping_eq_ok.mp hmapping
  exact ⟨parameter, registration.argument, hparameter, hargument, hreads, hwrites⟩

/-- The mapping of an offer comes from its parameter. -/
theorem comesFrom_of_mem_offers {ids : List ParameterId} {offers : List Registration}
    {offered : Registration} {mapping : Mapping} {operation : String}
    (hoffers : mapper.offers ids = .ok offers) (hmem : offered ∈ offers)
    (hmapping : offered.mapping tables mapper operation = .ok mapping) :
    mapping.ComesFrom tables mapper offered.parameter :=
  offered.comesFrom_mapping (Mapper.argument_of_mem_offers hoffers hmem) hmapping

/-- The mappings of the registrations that survive are, up to their order, one for each linked
parameter. -/
theorem exists_forall₂_comesFrom {request : Request} {offers : List Registration}
    {mappings : List Mapping} {operation : String}
    (hoffers : mapper.offers request.parameters = .ok offers)
    (hdistinct : mapper.Distinguishes request.parameters)
    (hmappings : (wireSorted (surviving tables offers)).mapM
      (·.mapping tables mapper operation) = .ok mappings) :
    ∃ ordered, ordered.Perm mappings ∧
      List.Forall₂ (fun id mapping => mapping.ComesFrom tables mapper id ∧
        mapping.isDirect = false) (linked tables request) ordered := by
  have hperm : (surviving tables offers).Perm (wireSorted (surviving tables offers)) :=
    (List.mergeSort_perm _ _).symm
  obtain ⟨ordered, hordered, hsame⟩ := List.perm_comp_forall₂ hperm (mapM_eq_ok.mp hmappings)
  refine ⟨ordered, hsame, ?_⟩
  have hsteps := (List.forall₂_and_left (p := (· ∈ surviving tables offers)) _ _).mpr
    ⟨fun _ hmem => hmem, hordered⟩
  rw [← map_parameter_surviving hoffers hdistinct, List.forall₂_map_left_iff]
  refine hsteps.imp fun registration mapping ⟨hsurvives, hmapping⟩ => ?_
  obtain ⟨hoffered, haccepts⟩ := accepts_of_mem_surviving hsurvives
  have hfrom := comesFrom_of_mem_offers hoffers hoffered hmapping
  exact ⟨hfrom, hfrom.isDirect_eq_false haccepts⟩

/-- The descriptions that tables give distinguish parameters whose shown names differ. -/
theorem Mapper.distinguishes_ofTables {ids : List ParameterId}
    (h : ∀ id ∈ ids, ∀ other ∈ ids,
      tables.shownNameAt id = tables.shownNameAt other → id = other) :
    (Mapper.ofTables tables).Distinguishes ids := by
  intro id hid other hother argument argument' hargument hargument' hname
  refine h id hid other hother ?_
  rw [Tables.shownNameAt_eq_some hargument, Tables.shownNameAt_eq_some hargument', hname]

/-- The plan of a convenience method conserves the linked parameters of its request. Where different
parameters have arguments of different names, all mappings of its transformations are, up to their
order, one for each different linked parameter, which goes through a property, and direct ones
that hand on flattened parameters. Each lies in the one transformation of the name that it writes
to. Hence there are as many indirect mappings as there are different linked parameters. -/
theorem linked_conserved (model : CodeModel) {mapper : Mapper} {operation : String}
    {request : Request} {method : ClientMethod}
    (hdistinct : mapper.Distinguishes request.parameters)
    (hplan : ClientMethod.plan model.toTables mapper operation request .convenience =
      .ok method) :
    ∃ (mappings : List Mapping) (handed : List Argument),
      List.Forall₂ (fun id mapping => mapping.ComesFrom model.toTables mapper id ∧
        mapping.isDirect = false) (linked model.toTables request) mappings ∧
      (method.transformations.flatMap (·.mappings)).Perm (mappings ++ handed.map .direct) ∧
      (∀ argument ∈ handed, ∃ id ∈ request.parameters, model.toTables.flattens id = true ∧
        mapper.argument id = .ok argument) ∧
      (∀ transformation ∈ method.transformations, ∀ mapping ∈ transformation.mappings,
        mapping.outputName = transformation.output.name) ∧
      (Transformation.names method.transformations).Nodup ∧
      ((method.transformations.flatMap (·.mappings)).filter fun mapping =>
        !mapping.isDirect).length = (linked model.toTables request).length := by
  obtain ⟨-, offers, -, -, hoffers, hrun⟩ := ClientMethod.exists_offers model hplan
  obtain ⟨mappings, arguments, hmappings, harguments, htransformations⟩ :=
    Registry.exists_rebuilt model hrun
  obtain ⟨ordered, hordered, hfrom⟩ := exists_forall₂_comesFrom hoffers hdistinct hmappings
  obtain ⟨handed, hhanded, hperm⟩ := Transformation.exists_rebuilt_flatMap_perm mappings arguments
  have hall : (method.transformations.flatMap (·.mappings)).Perm
      (ordered ++ handed.map .direct) := by
    rw [htransformations]
    exact hperm.trans (hordered.symm.append_right _)
  refine ⟨ordered, handed, hfrom, hall, fun argument hmem => ?_, ?_, ?_, ?_⟩
  · obtain ⟨id, hid, hargument⟩ := exists_of_mem_mapM harguments (hhanded argument hmem)
    obtain ⟨hrequest, hkept⟩ := List.mem_filter.mp hid
    rw [Bool.and_eq_true] at hkept
    exact ⟨id, hrequest, hkept.1, hargument⟩
  · rw [htransformations]
    exact fun _ hmem _ hmapping => Transformation.outputName_of_mem_rebuilt hmem hmapping
  · rw [htransformations]
    exact Transformation.nodup_names_rebuilt mappings arguments
  · have hindirect : (ordered.filter fun mapping => !mapping.isDirect) = ordered :=
      List.filter_eq_self.mpr fun mapping hmem => by
        obtain ⟨id, -, -, hdirect⟩ := exists_of_mem_right hfrom hmem
        simp [hdirect]
    have hdirect : ((handed.map Mapping.direct).filter fun mapping => !mapping.isDirect) = [] :=
      List.filter_eq_nil_iff.mpr fun mapping hmem => by
        obtain ⟨argument, -, rfl⟩ := List.mem_map.mp hmem
        simp [Mapping.direct, Mapping.isDirect]
    rw [(hall.filter _).length_eq, List.filter_append, hindirect, hdirect, List.append_nil]
    exact hfrom.length_eq.symm

/-- The binding of a parameter that is sent in the query. -/
def inQuery : Option (Wire.Protocols Wire.ParameterBinding) := some ⟨some ⟨.query⟩⟩

/-- A user is spread into a name and an age. The size of pages and the age are grouped, and so is a
version that is constant. -/
def pagedModel : CodeModel where
  schemas := [⟨"User", .object [0, 1]⟩, ⟨"string", .scalar .string⟩, ⟨"Paging", .object [2, 1]⟩,
    ⟨"Version", .constant (.text "1") 1⟩]
  properties := [⟨"name", none, "name", 1, true⟩, ⟨"age", none, "age", 1, true⟩,
    ⟨"pageSize", none, "size", 1, true⟩]
  parameters := [
    ⟨"user", none, "user", 0, inBody, true, true, none, none, none⟩,
    ⟨"name", none, "name", 1, none, false, true, none, some 0, some 0⟩,
    ⟨"paging", none, "paging", 2, none, false, true, none, none, none⟩,
    ⟨"size", none, "size", 1, inQuery, false, true, some 2, none, none⟩,
    ⟨"age", none, "age", 1, none, false, true, some 2, some 0, some 1⟩,
    ⟨"version", none, "version", 3, inQuery, false, true, some 2, none, none⟩]
  operations := []
  checked := by rfl

/-- A request that repeats a grouped parameter and one that is grouped and spread. -/
def pagedRequest : Request := ⟨[0, 3, 4, 1, 5, 3, 4], [], none⟩

/-- The plan of the request. -/
def pagedMethod : ClientMethod :=
  let user : Argument := ⟨"user", .model "User", true, some .body, false⟩
  let paging : Argument := ⟨"paging", .model "Paging", true, none, false⟩
  let size : Argument := ⟨"size", .string, true, some .query, false⟩
  let field (name : String) : ModelProperty := ⟨name, name, .string, true⟩
  { name := "search"
    kind := .convenience
    httpMethod := none
    path := none
    contentType := "application/json"
    parameters := [paging, textArgument "name"]
    transformations :=
      [⟨user,
        [⟨⟨textArgument "name", none⟩, ⟨user, some (field "name"), some "name"⟩⟩,
          ⟨⟨paging, some (field "age")⟩, ⟨user, some (field "age"), some "age"⟩⟩]⟩,
        ⟨size, [⟨⟨paging, some ⟨"pageSize", "size", .string, true⟩⟩, ⟨size, none, none⟩⟩]⟩] }

/-- The three linked parameters of the request are conserved. -/
theorem linked_conserved_paged :
    (Mapper.ofTables pagedModel.toTables).Distinguishes pagedRequest.parameters ∧
      ClientMethod.plan pagedModel.toTables (.ofTables pagedModel.toTables) "search" pagedRequest
        .convenience = .ok pagedMethod ∧
      ∃ (mappings : List Mapping) (handed : List Argument),
        List.Forall₂ (fun id mapping =>
          mapping.ComesFrom pagedModel.toTables (.ofTables pagedModel.toTables) id ∧
            mapping.isDirect = false) (linked pagedModel.toTables pagedRequest) mappings ∧
        (pagedMethod.transformations.flatMap (·.mappings)).Perm
          (mappings ++ handed.map .direct) ∧
        (∀ argument ∈ handed, ∃ id ∈ pagedRequest.parameters,
          pagedModel.toTables.flattens id = true ∧
            (Mapper.ofTables pagedModel.toTables).argument id = .ok argument) ∧
        (∀ transformation ∈ pagedMethod.transformations,
          ∀ mapping ∈ transformation.mappings,
            mapping.outputName = transformation.output.name) ∧
        (Transformation.names pagedMethod.transformations).Nodup ∧
        ((pagedMethod.transformations.flatMap (·.mappings)).filter fun mapping =>
          !mapping.isDirect).length = (linked pagedModel.toTables pagedRequest).length := by
  have hdistinct : (Mapper.ofTables pagedModel.toTables).Distinguishes pagedRequest.parameters :=
    Mapper.distinguishes_ofTables (by decide)
  have hplan : ClientMethod.plan pagedModel.toTables (.ofTables pagedModel.toTables) "search"
      pagedRequest .convenience = .ok pagedMethod := by cbv
  exact ⟨hdistinct, hplan, linked_conserved pagedModel hdistinct hplan⟩

end ClientPlan

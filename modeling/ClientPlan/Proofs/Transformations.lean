import ClientPlan.Proofs.Merging
import ClientPlan.Proofs.WireOrder

/-!
# The transformations of a request

The transformations of a convenience method are those of its registrations, merged by output,
followed by the flattened parameters of the request that nothing rebuilds. This file brings the
run of the registry into that form, for every run of offers and every mapper.
-/

namespace ClientPlan

open Wire (CodeModel Parameter ParameterId Request Tables)

/-- The tables hold a flattened parameter that is sent by itself and is not constant. -/
def Wire.Tables.flattens (tables : Tables) (id : ParameterId) : Bool :=
  match tables.entryAt id with
  | .ok entry => entry.isFlattened
  | .error _ => false

/-- A flattened parameter stands in the tables as an entry that is flattened. -/
theorem Wire.Tables.flattens_iff {tables : Tables} {id : ParameterId} :
    tables.flattens id = true ↔
      ∃ entry, tables.entryAt id = .ok entry ∧ entry.isFlattened = true := by
  unfold flattens
  cases tables.entryAt id <;> simp

/-- The parameters that registered arguments were spread from. -/
def wholes (tables : Tables) (registrations : List Registration) : List ParameterId :=
  registrations.filterMap fun registration =>
    tables.parameters[registration.parameter]?.bind (·.spreadFrom)

/-- The flattened parameters of a request that no registered argument was spread from. -/
def unspread (tables : Tables) (request : Request) (registrations : List Registration) :
    List ParameterId :=
  request.parameters.filter fun id => tables.flattens id && id ∉ wholes tables registrations

/-- Some registered argument was spread from each of these parameters. -/
theorem mem_wholes {tables : Tables} {registrations : List Registration} {id : ParameterId} :
    id ∈ wholes tables registrations ↔ ∃ registration ∈ registrations, ∃ parameter,
      tables.parameters[registration.parameter]? = some parameter ∧
        parameter.spreadFrom = some id := by
  simp only [wholes, List.mem_filterMap, Option.bind_eq_some_iff]

/-- Only which registrations there are matters for what they were spread from. -/
theorem mem_wholes_congr {tables : Tables} {left right : List Registration}
    (h : ∀ registration, registration ∈ left ↔ registration ∈ right) (id : ParameterId) :
    id ∈ wholes tables left ↔ id ∈ wholes tables right := by
  simp only [mem_wholes, h]

/-- Only which registrations there are matters for what is spread, not their order. -/
theorem unspread_congr {tables : Tables} {request : Request} {left right : List Registration}
    (h : ∀ registration, registration ∈ left ↔ registration ∈ right) :
    unspread tables request left = unspread tables request right := by
  unfold unspread
  exact List.filter_congr fun id _ => by simp only [mem_wholes_congr h]

/-- The flattened parameters of a request are found among its entries. -/
theorem unspread_eq {tables : Tables} {request : Request} {entries : List WireEntry}
    (hentries : request.parameters.mapM tables.entryAt = .ok entries)
    (registrations : List Registration) :
    unspread tables request registrations = (entries.filter fun entry =>
      entry.isFlattened && entry.id ∉ wholes tables registrations).map (·.id) := by
  obtain ⟨hids, hat⟩ := Tables.map_id_of_mapM_entryAt hentries
  rw [unspread, ← hids, List.filter_map]
  refine congrArg (List.map WireEntry.id) (List.filter_congr fun entry hentry => ?_)
  simp [Tables.flattens, hat entry hentry]

namespace Registry

variable {tables : Tables}

/-- The registrations of a registry were made from parameters of the tables. -/
def Within (tables : Tables) (registry : Registry) : Prop :=
  ∀ registration ∈ registry.entries, registration.parameter < tables.parameters.length

/-- Offers that are accepted are made from parameters of the tables. -/
theorem lt_length_of_accepts {id : ParameterId} (h : tables.accepts id = true) :
    id < tables.parameters.length := by
  obtain ⟨entry, hentry, -⟩ := Tables.accepts_iff.mp h
  exact (List.getElem?_eq_some_iff.mp (Tables.entryAt_eq_ok.mp hentry).1).1

/-- Every run of offers leaves a registry within its tables. -/
theorem within_offerAll (operation : String) (isProtocol : Bool) (offers : List Registration) :
    ((Registry.new operation isProtocol).offerAll tables offers).Within tables := by
  cases isProtocol with
  | true =>
    rw [offerAll_eq_self rfl]
    exact fun _ h => absurd h List.not_mem_nil
  | false =>
    intro registration h
    exact lt_length_of_accepts (accepts_of_mem_surviving ((mem_entries_offerAll operation).mp h)).2

/-- What the parameters of registrations were spread from, looked up one by one. -/
theorem filterMap_spreadFrom {registrations : List Registration} {parameters : List Parameter}
    (h : registrations.mapM (fun entry => tables.parameterAt entry.parameter) = .ok parameters) :
    parameters.filterMap (·.spreadFrom) = wholes tables registrations := by
  refine (filterMap_eq_of_forall₂ (fun registration parameter hstep => ?_) (mapM_eq_ok.mp h)).symm
  rw [Tables.parameterAt_eq_ok.mp hstep]
  rfl

/-- Looking up what registrations were spread from succeeds within the tables. -/
theorem spreadFrom_eq_ok {registry : Registry} (hwithin : registry.Within tables) :
    registry.spreadFrom tables = .ok (wholes tables registry.entries) := by
  obtain ⟨parameters, hparameters⟩ := exists_mapM_eq_ok fun entry hentry =>
    ⟨_, Tables.parameterAt_eq_ok.mpr (List.getElem?_eq_getElem (hwithin entry hentry))⟩
  exact bind_eq_ok.mpr
    ⟨parameters, hparameters, congrArg Except.ok (filterMap_spreadFrom hparameters)⟩

/-- The flattened parameters of a request that resolves are found. -/
theorem uncovered_eq_ok (model : CodeModel) {registry : Registry}
    (hwithin : registry.Within model.toTables) {request : Request}
    (hrequest : request.Resolves model.toTables) :
    registry.uncovered model.toTables request =
      .ok (unspread model.toTables request registry.entries) := by
  obtain ⟨entries, hentries⟩ := exists_mapM_eq_ok fun id hid =>
    model.exists_entryAt (hrequest.parameters id hid)
  refine bind_eq_ok.mpr ⟨_, spreadFrom_eq_ok hwithin, bind_eq_ok.mpr ⟨entries, hentries, ?_⟩⟩
  simp [unspread_eq hentries, pure, Except.pure]

/-- The registry of a protocol method rebuilds nothing. -/
theorem transformations_eq_nil {mapper : Mapper} {registry : Registry}
    (hkind : registry.isProtocol = true) {request : Request}
    (hrequest : request.Resolves tables) :
    registry.transformations tables mapper request = .ok [] := by
  unfold transformations
  refine check_bind_eq_ok.mpr ⟨mapError_eq_ok.mpr (Tables.checkRequest_eq_ok.mpr hrequest), ?_⟩
  rw [if_pos hkind]
  rfl

/-- What a registry of a convenience method returns for a request that resolves. -/
theorem transformations_eq (model : CodeModel) {mapper : Mapper}
    {registry : Registry} (hkind : registry.isProtocol = false)
    (hwithin : registry.Within model.toTables) {request : Request}
    (hrequest : request.Resolves model.toTables) :
    registry.transformations model.toTables mapper request = (do
      let mappings ← registry.inWireOrder.mapM
        (·.mapping model.toTables mapper registry.operation)
      let arguments ←
        (unspread model.toTables request registry.entries).mapM mapper.argument
      return Transformation.rebuilt mappings arguments) := by
  have hcheck : (model.checkRequest registry.operation request).mapError PlanError.danglingRequest =
      .ok () := mapError_eq_ok.mpr (Tables.checkRequest_eq_ok.mpr hrequest)
  simp only [transformations, hcheck, hkind, uncovered_eq_ok model hwithin hrequest, bind,
    Except.bind, Bool.false_eq_true, if_false, Transformation.foldl_addMapping,
    Transformation.foldl_cover_merged]

/-- What the registry of a convenience method returns after a run of offers. -/
theorem transformations_of_offers (model : CodeModel) (mapper : Mapper) (operation : String)
    (offers : List Registration) {request : Request} (hrequest : request.Resolves model.toTables) :
    ((Registry.new operation false).offerAll model.toTables offers).transformations
        model.toTables mapper request = (do
      let mappings ← (wireSorted (surviving model.toTables offers)).mapM
        (·.mapping model.toTables mapper operation)
      let arguments ←
        (unspread model.toTables request (surviving model.toTables offers)).mapM mapper.argument
      return Transformation.rebuilt mappings arguments) := by
  obtain ⟨hoperation, hkind⟩ := offerAll_keeps model.toTables (Registry.new operation false) offers
  have hunspread : unspread model.toTables request
      ((Registry.new operation false).offerAll model.toTables offers).entries =
        unspread model.toTables request (surviving model.toTables offers) :=
    unspread_congr fun _ => mem_entries_offerAll operation
  rw [transformations_eq model hkind (within_offerAll operation false offers) hrequest,
    inWireOrder_offerAll, hoperation, hunspread]
  rfl

/-- What was looked up where the registry of a convenience method returns transformations after a
run of offers. -/
theorem exists_rebuilt (model : CodeModel) {mapper : Mapper} {operation : String}
    {offers : List Registration} {request : Request} {transformations : List Transformation}
    (h : ((Registry.new operation false).offerAll model.toTables offers).transformations
      model.toTables mapper request = .ok transformations) :
    ∃ mappings arguments,
      (wireSorted (surviving model.toTables offers)).mapM
        (·.mapping model.toTables mapper operation) = .ok mappings ∧
      (unspread model.toTables request (surviving model.toTables offers)).mapM mapper.argument =
        .ok arguments ∧
      transformations = Transformation.rebuilt mappings arguments := by
  have hrequest : request.Resolves model.toTables :=
    Tables.checkRequest_eq_ok.mp (mapError_eq_ok.mp (check_bind_eq_ok.mp h).1)
  rw [transformations_of_offers model mapper operation offers hrequest] at h
  obtain ⟨mappings, hmappings, h⟩ := bind_eq_ok.mp h
  obtain ⟨arguments, harguments, h⟩ := bind_eq_ok.mp h
  exact ⟨mappings, arguments, hmappings, harguments, (pure_eq_ok.mp h).symm⟩

end Registry

/-- A run of offers leaves the survivors registered. If all of them resolve, they are resolved by
wire parameter and then by argument name, and merged by output: one record for each output name
in the order of first appearance, with the first output of that name and all mappings onto it.
The flattened parameters that no registration was spread from follow, in the order of the
request, each that is the first of a new name with a single direct mapping. No name occurs twice,
and the merged records hold each mapping exactly once. -/
theorem transformations_offerAll (model : CodeModel) {mapper : Mapper}
    (hmapper : mapper.Describes model.toTables) (operation : String)
    (offers : List Registration) {request : Request}
    (hrequest : model.checkRequest operation request = .ok ())
    (hresolves : ∀ registration ∈ surviving model.toTables offers,
      ∃ mapping, registration.mapping model.toTables mapper operation = .ok mapping) :
    (∀ registration,
      registration ∈ ((Registry.new operation false).offerAll model.toTables offers).entries ↔
        registration ∈ surviving model.toTables offers) ∧
    ∃ mappings arguments,
      (wireSorted (surviving model.toTables offers)).mapM
        (·.mapping model.toTables mapper operation) = .ok mappings ∧
      (unspread model.toTables request (surviving model.toTables offers)).mapM mapper.argument =
        .ok arguments ∧
      ((Registry.new operation false).offerAll model.toTables offers).transformations
        model.toTables mapper request = .ok (Transformation.rebuilt mappings arguments) ∧
      (Transformation.names (Transformation.rebuilt mappings arguments)).Nodup ∧
      ((Transformation.merged mappings).flatMap (·.mappings)).Perm mappings := by
  have hresolvesRequest := Tables.checkRequest_eq_ok.mp hrequest
  obtain ⟨mappings, hmappings⟩ : ∃ mappings, (wireSorted (surviving model.toTables offers)).mapM
      (·.mapping model.toTables mapper operation) = .ok mappings :=
    exists_mapM_eq_ok fun registration hmem =>
      hresolves registration (List.mem_mergeSort.mp hmem)
  obtain ⟨arguments, harguments⟩ : ∃ arguments,
      (unspread model.toTables request (surviving model.toTables offers)).mapM mapper.argument =
        .ok arguments :=
    exists_mapM_eq_ok fun id hid => hmapper.argument id
      (hresolvesRequest.parameters id (List.mem_of_mem_filter hid))
  refine ⟨fun _ => Registry.mem_entries_offerAll operation, mappings, arguments, hmappings,
    harguments, ?_, Transformation.nodup_names_rebuilt mappings arguments,
    Transformation.merged_flatMap_perm mappings⟩
  rw [Registry.transformations_of_offers model mapper operation offers hresolvesRequest]
  exact bind_eq_ok.mpr ⟨mappings, hmappings, bind_eq_ok.mpr ⟨arguments, harguments, rfl⟩⟩

/-- The binding of a parameter that is sent as the body. -/
def inBody : Option (Wire.Protocols Wire.ParameterBinding) := some ⟨some ⟨.body⟩⟩

/-- A user is spread into a name and an age. Settings are flattened, but nothing is spread from
them. -/
def userModel : CodeModel where
  schemas := [⟨"User", .object [0, 1]⟩, ⟨"string", .scalar .string⟩]
  properties := [⟨"name", none, "name", 1, true⟩, ⟨"age", none, "age", 1, true⟩]
  parameters := [
    ⟨"user", none, "user", 0, inBody, true, true, none, none, none⟩,
    ⟨"name", none, "name", 1, none, false, true, none, some 0, some 0⟩,
    ⟨"age", none, "age", 1, none, false, true, none, some 0, some 1⟩,
    ⟨"settings", none, "settings", 0, inBody, true, false, none, none, none⟩]
  operations := []
  checked := by rfl

/-- A required text. -/
def textArgument (name : String) : Argument := ⟨name, .string, true, none, false⟩

/-- Offers against the order of the wire. One is replaced, one is skipped and one fails. -/
def userOffers : List Registration :=
  [⟨textArgument "name", 2⟩, ⟨textArgument "age", 2⟩, ⟨textArgument "name", 1⟩,
    ⟨textArgument "settings", 3⟩, ⟨textArgument "age", 9⟩]

/-- A request that sends the settings before the user. -/
def userRequest : Request := ⟨[3, 0, 1, 2, 3], [], none⟩

/-- All survivors of these offers resolve, so that their transformations are found. -/
theorem transformations_offerAll_user :
    (Mapper.ofTables userModel.toTables).Describes userModel.toTables ∧
      userModel.checkRequest "addUser" userRequest = .ok () ∧
      (∀ registration ∈ surviving userModel.toTables userOffers, ∃ mapping,
        registration.mapping userModel.toTables (.ofTables userModel.toTables) "addUser" =
          .ok mapping) ∧
      (∀ registration,
        registration ∈ ((Registry.new "addUser" false).offerAll userModel.toTables
          userOffers).entries ↔ registration ∈ surviving userModel.toTables userOffers) ∧
      ∃ mappings arguments,
        (wireSorted (surviving userModel.toTables userOffers)).mapM
          (·.mapping userModel.toTables (.ofTables userModel.toTables) "addUser") = .ok mappings ∧
        (unspread userModel.toTables userRequest (surviving userModel.toTables userOffers)).mapM
          (Mapper.ofTables userModel.toTables).argument = .ok arguments ∧
        ((Registry.new "addUser" false).offerAll userModel.toTables userOffers).transformations
          userModel.toTables (.ofTables userModel.toTables) userRequest =
            .ok (Transformation.rebuilt mappings arguments) ∧
        (Transformation.names (Transformation.rebuilt mappings arguments)).Nodup ∧
        ((Transformation.merged mappings).flatMap (·.mappings)).Perm mappings := by
  have hsurviving : surviving userModel.toTables userOffers =
      [⟨textArgument "age", 2⟩, ⟨textArgument "name", 1⟩] := by decide
  have hresolves : ∀ registration ∈ surviving userModel.toTables userOffers, ∃ mapping,
      registration.mapping userModel.toTables (.ofTables userModel.toTables) "addUser" =
        .ok mapping := by
    rw [hsurviving]
    intro registration hmem
    rcases List.mem_pair.mp hmem with rfl | rfl
    · exact ⟨_, rfl⟩
    · exact ⟨_, rfl⟩
  exact ⟨userModel.describes, rfl, hresolves,
    transformations_offerAll userModel userModel.describes "addUser" userOffers rfl hresolves⟩

end ClientPlan

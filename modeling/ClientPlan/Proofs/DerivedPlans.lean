import ClientPlan.Proofs.Planning
import ClientPlan.Proofs.Resolution

/-!
# Plans with derived signatures

Where the model fixes no signature, the arguments of a convenience method and its
transformations are both derived from the wire parameters of the request, in two independent
passes. This file says in terms of these parameters alone which names the arguments have, which
names the mappings read, and which names the transformations rebuild.
-/

namespace ClientPlan

open Wire (CodeModel Parameter ParameterId Request Tables)

/-- The name of the argument of a parameter. -/
def Wire.Tables.shownNameAt (tables : Tables) (id : ParameterId) : Option String :=
  tables.parameters[id]?.map (·.shownName)

/-- The parameter that the argument of an entry helps to rebuild: the one it was spread from, or
its own. -/
def WireEntry.rebuilds (entry : WireEntry) : ParameterId :=
  entry.parameter.spreadFrom.getD entry.id

/-- The entries whose arguments stay registered: of the registrable ones of each name the last. -/
def registered (entries : List WireEntry) : List WireEntry :=
  lastOfEach (·.parameter.shownName) (entries.filter (·.isRegistrable))

/-- The flattened entries that no registered one was spread from. -/
def handedOn (entries : List WireEntry) : List WireEntry :=
  entries.filter fun entry => entry.isFlattened && entry.id ∉ wholesOf (registered entries)

/-- The names of the arguments that are taken. -/
def takenNames (tables : Tables) (entries : List WireEntry) : List String :=
  (derivedSignature entries).filterMap tables.shownNameAt

/-- The names of the arguments that carry the registered entries. -/
def carrierNames (tables : Tables) (entries : List WireEntry) : List String :=
  (registered entries).filterMap fun entry => tables.shownNameAt entry.carrier

/-- The names of the parameters that the registered entries rebuild. -/
def rebuiltNames (tables : Tables) (entries : List WireEntry) : List String :=
  (registered entries).filterMap fun entry => tables.shownNameAt entry.rebuilds

/-- The names of the flattened entries that are handed on. -/
def handedOnNames (entries : List WireEntry) : List String :=
  (handedOn entries).map (·.parameter.shownName)

variable {tables : Tables}

/-- An argument has the name of its parameter. -/
theorem Wire.Tables.shownNameAt_eq_some {id : ParameterId} {argument : Argument}
    (h : tables.argument id = .ok argument) : tables.shownNameAt id = some argument.name := by
  obtain ⟨parameter, hparameter, hname⟩ := argument_name h
  rw [shownNameAt, hparameter, hname]
  rfl

/-- The arguments of parameters have their names, in order. -/
theorem map_name_of_mapM_argument {ids : List ParameterId} {arguments : List Argument}
    (h : ids.mapM tables.argument = .ok arguments) :
    arguments.map (·.name) = ids.filterMap tables.shownNameAt := by
  rw [← List.filterMap_eq_map]
  refine (filterMap_eq_of_forall₂ (fun id argument hstep => ?_) (mapM_eq_ok.mp h)).symm
  exact Tables.shownNameAt_eq_some hstep

/-- An entry of the tables has the name that its parameter shows. -/
theorem WireEntry.shownNameAt_id {entry : WireEntry} (h : tables.entryAt entry.id = .ok entry) :
    tables.shownNameAt entry.id = some entry.parameter.shownName := by
  rw [Tables.shownNameAt, (Tables.entryAt_eq_ok.mp h).1]
  rfl

/-- The argument of an entry has the name that its parameter shows. -/
theorem WireEntry.name_argument {entry : WireEntry} {argument : Argument}
    (h : tables.entryAt entry.id = .ok entry)
    (hargument : tables.argument entry.id = .ok argument) :
    argument.name = entry.parameter.shownName :=
  Option.some.inj ((Tables.shownNameAt_eq_some hargument).symm.trans (shownNameAt_id h))

/-- Entries of the tables have the names that their parameters show. -/
theorem filterMap_shownNameAt_id {entries : List WireEntry}
    (h : ∀ entry ∈ entries, tables.entryAt entry.id = .ok entry) :
    (entries.map (·.id)).filterMap tables.shownNameAt =
      entries.map (·.parameter.shownName) := by
  rw [List.filterMap_map, ← List.filterMap_eq_map]
  exact List.filterMap_congr fun entry hentry => WireEntry.shownNameAt_id (h entry hentry)

/-- A registration was made from an entry of the tables and its argument. -/
structure Registration.MadeFrom (tables : Tables) (registration : Registration)
    (entry : WireEntry) : Prop where
  entryAt : tables.entryAt entry.id = .ok entry
  argument : tables.argument entry.id = .ok registration.argument
  parameter : registration.parameter = entry.id

namespace Registration.MadeFrom

variable {registration : Registration} {entry : WireEntry} {operation : String}

/-- A registration has the name of its entry. -/
theorem name_eq (h : registration.MadeFrom tables entry) :
    registration.argument.name = entry.parameter.shownName :=
  WireEntry.name_argument h.entryAt h.argument

/-- The names on both sides of a mapping are those of the carrier of its entry and of the parameter
that its entry rebuilds. -/
theorem mapping_names (h : registration.MadeFrom tables entry) {mapping : Mapping}
    (hmapping : registration.mapping tables (.ofTables tables) operation = .ok mapping) :
    tables.shownNameAt entry.carrier = some mapping.source.argument.name ∧
      tables.shownNameAt entry.rebuilds = some mapping.outputName := by
  have hparameter : tables.parameters[registration.parameter]? = some entry.parameter :=
    h.parameter ▸ (Tables.entryAt_eq_ok.mp h.entryAt).1
  obtain ⟨hreads, hwrites⟩ := Registration.sides_of_mapping hmapping hparameter
  have hsource : tables.argument entry.carrier = .ok mapping.source.argument :=
    hreads.argument_eq_ok h.argument
  have htarget : tables.argument entry.rebuilds = .ok mapping.target.argument :=
    hwrites.argument_eq_ok h.argument
  exact ⟨Tables.shownNameAt_eq_some hsource, Tables.shownNameAt_eq_some htarget⟩

end Registration.MadeFrom

/-- The offers of a request are made from its entries, one by one. -/
theorem forall₂_madeFrom {ids : List ParameterId} {entries : List WireEntry}
    {offers : List Registration} (hentries : ids.mapM tables.entryAt = .ok entries)
    (hoffers : (Mapper.ofTables tables).offers ids = .ok offers) :
    List.Forall₂ (Registration.MadeFrom tables) offers entries := by
  have hsteps := mapM_eq_ok.mp hentries
  clear hentries
  induction hsteps generalizing offers with
  | nil =>
    cases pure_eq_ok.mp hoffers
    exact .nil
  | @cons id entry _ _ hentry _ ih =>
    obtain ⟨offered, rest, hoffered, hrest, rfl⟩ :=
      List.forall₂_cons_left_iff.mp (mapM_eq_ok.mp hoffers)
    obtain ⟨argument, hargument, rfl⟩ := map_eq_ok.mp hoffered
    have hid := (Tables.entryAt_eq_ok.mp hentry).2.2
    exact .cons ⟨hid ▸ hentry, hid ▸ hargument, hid.symm⟩ (ih (mapM_eq_ok.mpr hrest))

/-- The offers that survive are made from the registered entries, one by one. -/
theorem forall₂_surviving {offers : List Registration} {entries : List WireEntry}
    (h : List.Forall₂ (Registration.MadeFrom tables) offers entries) :
    List.Forall₂ (Registration.MadeFrom tables) (surviving tables offers) (registered entries) := by
  refine forall₂_lastOfEach _ (fun _ _ hmade => hmade.name_eq)
    (List.rel_filter (fun offered entry hmade => ?_) h)
  have hentry : tables.entryAt offered.parameter = .ok entry := hmade.parameter ▸ hmade.entryAt
  exact iff_of_eq (congrArg (· = true) (Tables.accepts_eq hentry))

/-- Registrations were spread from what their entries were spread from. -/
theorem wholes_eq {registrations : List Registration} {entries : List WireEntry}
    (h : List.Forall₂ (Registration.MadeFrom tables) registrations entries) :
    wholes tables registrations = wholesOf entries := by
  refine filterMap_eq_of_forall₂ (fun registration entry hmade => ?_) h
  rw [hmade.parameter, (Tables.entryAt_eq_ok.mp hmade.entryAt).1]
  rfl

/-- If one side of every mapping is the argument of a parameter that is found from the entry, then
the names on that side are those of these parameters. -/
theorem mem_names_of_mapM_mapping {operation : String} {registrations : List Registration}
    {entries : List WireEntry} {mappings : List Mapping}
    (hmade : List.Forall₂ (Registration.MadeFrom tables) registrations entries)
    (hmappings : (wireSorted registrations).mapM
      (·.mapping tables (.ofTables tables) operation) = .ok mappings)
    {side : Mapping → String} {place : WireEntry → ParameterId}
    (hside : ∀ (registration : Registration) entry mapping, registration.MadeFrom tables entry →
      registration.mapping tables (.ofTables tables) operation = .ok mapping →
        tables.shownNameAt (place entry) = some (side mapping)) {name : String} :
    name ∈ mappings.map side ↔
      name ∈ entries.filterMap fun entry => tables.shownNameAt (place entry) := by
  rw [List.mem_map, List.mem_filterMap]
  constructor
  · rintro ⟨mapping, hmem, rfl⟩
    obtain ⟨registration, hregistration, hmapping⟩ := exists_of_mem_mapM hmappings hmem
    obtain ⟨entry, hentry, hfrom⟩ :=
      exists_of_mem_left hmade (List.mem_mergeSort.mp hregistration)
    exact ⟨entry, hentry, hside registration entry mapping hfrom hmapping⟩
  · rintro ⟨entry, hentry, hname⟩
    obtain ⟨registration, hregistration, hfrom⟩ := exists_of_mem_right hmade hentry
    obtain ⟨mapping, hmem, hmapping⟩ :=
      exists_mem_of_mapM hmappings (List.mem_mergeSort.mpr hregistration)
    rw [hside registration entry mapping hfrom hmapping] at hname
    exact ⟨mapping, hmem, Option.some.inj hname⟩

/-- The names of a method whose signature was derived. -/
structure ClientMethod.DerivedFrom (method : ClientMethod) (tables : Tables)
    (entries : List WireEntry) : Prop where
  /-- The arguments that are taken. -/
  taken : ∀ name, name ∈ method.parameters.map (·.name) ↔ name ∈ takenNames tables entries
  /-- The arguments that are read. -/
  read : ∀ name, (∃ transformation ∈ method.transformations,
      ∃ mapping ∈ transformation.mappings, mapping.source.argument.name = name) ↔
    name ∈ carrierNames tables entries ∨
      (name ∈ handedOnNames entries ∧ name ∉ rebuiltNames tables entries)
  /-- The wire parameters that are rebuilt. -/
  rebuilt : ∀ name, name ∈ Transformation.names method.transformations ↔
    name ∈ rebuiltNames tables entries ∨ name ∈ handedOnNames entries

/-- How a convenience method without a fixed signature is made: its arguments are those of the
derived signature, and its transformations those of the registrations that survive. -/
theorem ClientMethod.exists_parts (model : CodeModel) {operation : String} {request : Request}
    {method : ClientMethod} (hderived : request.signatureParameters = [])
    (hplan : plan model.toTables (.ofTables model.toTables) operation request .convenience =
      .ok method) :
    ∃ entries offers mappings arguments,
      request.parameters.mapM model.toTables.entryAt = .ok entries ∧
      (Mapper.ofTables model.toTables).offers request.parameters = .ok offers ∧
      (derivedSignature entries).mapM model.toTables.argument = .ok method.parameters ∧
      (wireSorted (surviving model.toTables offers)).mapM
        (·.mapping model.toTables (.ofTables model.toTables) operation) = .ok mappings ∧
      (unspread model.toTables request (surviving model.toTables offers)).mapM
        model.toTables.argument = .ok arguments ∧
      method.transformations = Transformation.rebuilt mappings arguments := by
  obtain ⟨ids, offers, hsignature, hparameters, hoffers, hrun⟩ :=
    exists_offers model hplan
  unfold signature at hsignature
  rw [hderived] at hsignature
  obtain ⟨entries, hentries, rfl⟩ := map_eq_ok.mp hsignature
  obtain ⟨mappings, arguments, hmappings, harguments, htransformations⟩ :=
    Registry.exists_rebuilt model hrun
  exact ⟨entries, offers, mappings, arguments, hentries, hoffers, hparameters, hmappings,
    harguments, htransformations⟩

/-- A convenience method without a fixed signature has the names that its entries tell. -/
theorem ClientMethod.exists_derivedFrom (model : CodeModel) {operation : String}
    {request : Request} {method : ClientMethod} (hderived : request.signatureParameters = [])
    (hplan : plan model.toTables (.ofTables model.toTables) operation request .convenience =
      .ok method) :
    ∃ entries, request.parameters.mapM model.toTables.entryAt = .ok entries ∧
      method.DerivedFrom model.toTables entries := by
  obtain ⟨entries, offers, mappings, arguments, hentries, hoffers, hparameters, hmappings,
    harguments, htransformations⟩ := exists_parts model hderived hplan
  have hmade := forall₂_surviving (forall₂_madeFrom hentries hoffers)
  have hsources (name : String) : name ∈ mappings.map (·.source.argument.name) ↔
      name ∈ carrierNames model.toTables entries :=
    mem_names_of_mapM_mapping hmade hmappings fun _ _ _ hfrom hmapping =>
      (hfrom.mapping_names hmapping).1
  have houtputs (name : String) : name ∈ mappings.map Mapping.outputName ↔
      name ∈ rebuiltNames model.toTables entries :=
    mem_names_of_mapM_mapping hmade hmappings fun _ _ _ hfrom hmapping =>
      (hfrom.mapping_names hmapping).2
  have hhanded : arguments.map (·.name) = handedOnNames entries := by
    have hat := (Tables.map_id_of_mapM_entryAt hentries).2
    rw [map_name_of_mapM_argument harguments, unspread_eq hentries, wholes_eq hmade,
      filterMap_shownNameAt_id fun entry hentry => hat entry (List.mem_of_mem_filter hentry)]
    rfl
  refine ⟨entries, hentries, ⟨fun name => ?_, fun name => ?_, fun name => ?_⟩⟩
  · rw [map_name_of_mapM_argument hparameters, takenNames]
  · rw [htransformations, Transformation.exists_source_rebuilt, hsources, houtputs, hhanded]
  · rw [htransformations, Transformation.mem_names_rebuilt, houtputs, hhanded]

end ClientPlan

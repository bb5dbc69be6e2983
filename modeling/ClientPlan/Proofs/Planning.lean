import ClientPlan.Proofs.Transformations

/-!
# Plans of requests that resolve

A plan looks up the signature of a method, offers the argument of every wire parameter to a
registry, and asks the registry for its transformations. For a request that resolves only the
last of these steps can fail.
-/

namespace ClientPlan

open Wire (CodeModel ParameterId Request Tables)

/-- The offers that the parameters of a request make. -/
def Mapper.offers (mapper : Mapper) (ids : List ParameterId) :
    Except PlanError (List Registration) :=
  ids.mapM fun id => (⟨·, id⟩) <$> mapper.argument id

/-- Parameters can be offered if each has an argument. -/
theorem Mapper.exists_offers {mapper : Mapper} {ids : List ParameterId}
    (h : ∀ id ∈ ids, ∃ argument, mapper.argument id = .ok argument) :
    ∃ offers, mapper.offers ids = .ok offers :=
  exists_mapM_eq_ok fun id hid => by
    obtain ⟨argument, hargument⟩ := h id hid
    exact ⟨_, map_eq_ok.mpr ⟨argument, hargument, rfl⟩⟩

/-- Parameters whose offers a registry took one by one can be offered. -/
theorem Mapper.exists_offers_of_foldlM {tables : Tables} {mapper : Mapper} {ids : List ParameterId}
    {registry filled : Registry}
    (h : ids.foldlM (registryOf.offer tables mapper) registry = .ok filled) :
    ∃ offers, mapper.offers ids = .ok offers := by
  refine exists_offers ?_
  induction ids generalizing registry with
  | nil => simp
  | cons id ids ih =>
    rw [List.foldlM_cons] at h
    obtain ⟨next, hstep, hrest⟩ := bind_eq_ok.mp h
    obtain ⟨argument, hargument, -⟩ := bind_eq_ok.mp hstep
    exact List.forall_mem_cons.mpr ⟨⟨argument, hargument⟩, ih hrest⟩

/-- The offers of parameters stand for them, one by one. -/
theorem Mapper.map_parameter_offers {mapper : Mapper} {ids : List ParameterId}
    {offers : List Registration} (hoffers : mapper.offers ids = .ok offers) :
    offers.map (·.parameter) = ids := by
  have hsteps := mapM_eq_ok.mp hoffers
  clear hoffers
  induction hsteps with
  | nil => rfl
  | cons hstep _ ih =>
    obtain ⟨argument, -, rfl⟩ := map_eq_ok.mp hstep
    rw [List.map_cons, ih]

/-- Each offer is that of the argument of its parameter. -/
theorem Mapper.argument_of_mem_offers {mapper : Mapper} {ids : List ParameterId}
    {offers : List Registration} {offered : Registration} (hoffers : mapper.offers ids = .ok offers)
    (hmem : offered ∈ offers) : mapper.argument offered.parameter = .ok offered.argument := by
  obtain ⟨id, -, hstep⟩ := exists_of_mem_mapM hoffers hmem
  obtain ⟨argument, hargument, rfl⟩ := map_eq_ok.mp hstep
  exact hargument

/-- The argument that carries the value of a wire parameter: that of its group, or its own. -/
def WireEntry.carrier (entry : WireEntry) : ParameterId :=
  entry.parameter.groupedBy.getD entry.id

/-- The parameters that some entry was spread from. -/
def wholesOf (entries : List WireEntry) : List ParameterId :=
  entries.filterMap (·.parameter.spreadFrom)

/-- A derived signature has the carriers of all entries that are neither constant nor spread. -/
theorem mem_derivedSignature {entries : List WireEntry} {id : ParameterId} :
    id ∈ derivedSignature entries ↔ ∃ entry ∈ entries,
      entry.schema.isConstant = false ∧ entry.id ∉ wholesOf entries ∧ entry.carrier = id := by
  simp [derivedSignature, wholesOf, WireEntry.carrier, and_assoc]

/-- A protocol signature has parameters of the request only. -/
theorem mem_of_mem_wireSignature {entries : List WireEntry} {id : ParameterId}
    (h : id ∈ wireSignature entries) : id ∈ entries.map (·.id) := by
  obtain ⟨entry, hentry, rfl⟩ := List.mem_map.mp h
  exact List.mem_map_of_mem (List.mem_of_mem_filter hentry)

/-- A request that resolves has a signature inside the table of parameters. -/
theorem exists_signature (model : CodeModel) {request : Request}
    (hrequest : request.Resolves model.toTables) (kind : MethodKind) :
    ∃ ids, signature model.toTables request kind = .ok ids ∧
      ∀ id ∈ ids, id < model.parameters.length := by
  obtain ⟨entries, hentries⟩ := exists_mapM_eq_ok fun id hid =>
    model.exists_entryAt (hrequest.parameters id hid)
  obtain ⟨hids, hat⟩ := Tables.map_id_of_mapM_entryAt hentries
  unfold signature
  cases kind with
  | protocol =>
    refine ⟨_, map_eq_ok.mpr ⟨entries, hentries, rfl⟩, fun id hid => ?_⟩
    exact hrequest.parameters id (hids ▸ mem_of_mem_wireSignature hid)
  | convenience =>
    cases hdeclared : request.signatureParameters with
    | cons id ids => exact ⟨_, rfl, hdeclared ▸ hrequest.signatureParameters⟩
    | nil =>
      refine ⟨_, map_eq_ok.mpr ⟨entries, hentries, rfl⟩, fun id hid => ?_⟩
      obtain ⟨entry, hentry, -, -, rfl⟩ := mem_derivedSignature.mp hid
      unfold WireEntry.carrier
      cases hgroup : entry.parameter.groupedBy with
      | none => exact hrequest.parameters _ (hids ▸ List.mem_map_of_mem hentry)
      | some group =>
        have hparameter := (Tables.entryAt_eq_ok.mp (hat entry hentry)).1
        exact (model.resolves_of_parameter hparameter).groupedBy group hgroup

namespace Registry

variable {tables : Tables} {mapper : Mapper}

/-- Offering the arguments of parameters one by one is a run of offers. -/
theorem foldlM_offer (model : CodeModel) {ids : List ParameterId} {offers : List Registration}
    (hoffers : mapper.offers ids = .ok offers)
    (hids : ∀ id ∈ ids, id < model.parameters.length) (registry : Registry) :
    ids.foldlM (registryOf.offer model.toTables mapper) registry =
      .ok (registry.offerAll model.toTables offers) := by
  have hsteps := mapM_eq_ok.mp hoffers
  clear hoffers
  induction hsteps generalizing registry with
  | nil => rfl
  | @cons id offered ids offers hstep _ ih =>
    obtain ⟨argument, hargument, rfl⟩ := map_eq_ok.mp hstep
    obtain ⟨entry, hentry⟩ := model.exists_entryAt (hids id List.mem_cons_self)
    have hadd : registryOf.offer model.toTables mapper registry id =
        .ok (registry.offer model.toTables ⟨argument, id⟩) := by
      unfold registryOf.offer Registry.offer
      simp only [hargument, add_eq_ok hentry, bind, Except.bind]
    rw [List.foldlM_cons, hadd]
    exact ih (fun other hother => hids other (List.mem_cons_of_mem _ hother)) _

end Registry

namespace ClientMethod

variable {tables : Tables} {mapper : Mapper} {operation : String} {request : Request}
  {kind : MethodKind}

/-- A request that does not pass its check has no plan. -/
theorem plan_eq_error_of_checkRequest {cause : Wire.TableError}
    (h : tables.checkRequest operation request = .error cause) :
    plan tables mapper operation request kind = .error (.danglingRequest cause) :=
  bind_eq_error.mpr (Or.inl (mapError_eq_error.mpr ⟨cause, h, rfl⟩))

/-- A request that has a plan passes its check. -/
theorem checkRequest_of_plan_eq_ok {method : ClientMethod}
    (h : plan tables mapper operation request kind = .ok method) :
    tables.checkRequest operation request = .ok () :=
  mapError_eq_ok.mp (check_bind_eq_ok.mp h).1

end ClientMethod

/-- The plan of a request that resolves fails only if its transformations do. -/
theorem ClientMethod.exists_plan_eq (model : CodeModel) {mapper : Mapper}
    (hmapper : mapper.Describes model.toTables) (operation : String) {request : Request}
    (hrequest : request.Resolves model.toTables) (kind : MethodKind) :
    ∃ ids arguments offers, signature model.toTables request kind = .ok ids ∧
      ids.mapM mapper.argument = .ok arguments ∧ mapper.offers request.parameters = .ok offers ∧
      ClientMethod.plan model.toTables mapper operation request kind = (do
        let transformations ← ((Registry.new operation (kind = .protocol)).offerAll model.toTables
          offers).transformations model.toTables mapper request
        return { name := operation
                 kind := kind
                 httpMethod := request.http.bind (·.method)
                 path := request.http.bind (·.path)
                 contentType := request.contentType
                 parameters := arguments
                 transformations := transformations }) := by
  obtain ⟨ids, hsignature, hids⟩ := exists_signature model hrequest kind
  obtain ⟨arguments, harguments⟩ :=
    exists_mapM_eq_ok fun id hid => hmapper.argument id (hids id hid)
  obtain ⟨offers, hoffers⟩ := Mapper.exists_offers fun id hid =>
    hmapper.argument id (hrequest.parameters id hid)
  refine ⟨ids, arguments, offers, hsignature, harguments, hoffers, ?_⟩
  have hcheck : (model.checkRequest operation request).mapError PlanError.danglingRequest =
      .ok () := mapError_eq_ok.mpr (Tables.checkRequest_eq_ok.mpr hrequest)
  have hregistry := Registry.foldlM_offer model hoffers hrequest.parameters
    (Registry.new operation (kind = .protocol))
  simp only [ClientMethod.plan, registryOf, hcheck, hsignature, harguments, hregistry, bind,
    Except.bind]

/-- A convenience method that is planned takes the arguments of its signature, and has the
transformations that the registry returns after the arguments of all parameters were offered. -/
theorem ClientMethod.exists_offers (model : CodeModel) {mapper : Mapper} {operation : String}
    {request : Request} {method : ClientMethod}
    (hplan : plan model.toTables mapper operation request .convenience = .ok method) :
    ∃ ids offers, signature model.toTables request .convenience = .ok ids ∧
      ids.mapM mapper.argument = .ok method.parameters ∧
      mapper.offers request.parameters = .ok offers ∧
      ((Registry.new operation false).offerAll model.toTables offers).transformations
        model.toTables mapper request = .ok method.transformations := by
  obtain ⟨hcheck, hplan⟩ := check_bind_eq_ok.mp hplan
  have hrequest := Tables.checkRequest_eq_ok.mp (mapError_eq_ok.mp hcheck)
  obtain ⟨ids, hsignature, hplan⟩ := bind_eq_ok.mp hplan
  obtain ⟨arguments, harguments, hplan⟩ := bind_eq_ok.mp hplan
  obtain ⟨registry, hregistry, hplan⟩ := bind_eq_ok.mp hplan
  obtain ⟨transformations, htransformations, hmethod⟩ := bind_eq_ok.mp hplan
  cases pure_eq_ok.mp hmethod
  obtain ⟨offers, hoffers⟩ := Mapper.exists_offers_of_foldlM hregistry
  have hrun := Registry.foldlM_offer model hoffers hrequest.parameters
    (Registry.new operation false)
  cases hregistry.symm.trans hrun
  exact ⟨ids, offers, hsignature, harguments, hoffers, htransformations⟩

end ClientPlan

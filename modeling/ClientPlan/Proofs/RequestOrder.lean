import ClientPlan.Proofs.Conservation
import ClientPlan.Proofs.RegistryState

/-!
# The order of wire parameters

The parameters of a request may come in any order. Where different parameters have different
argument names this order shows in two places only: in the order of the arguments that are
derived from it, and in the order of the flattened parameters that are handed on. The registry
that the offers fill is the same one, so that its records are, and so is the failure of a
registration that does not resolve.
-/

namespace ClientPlan

open Wire (CodeModel ParameterId Request Tables)

variable {tables : Tables} {mapper : Mapper} {operation : String} {request : Request}

/-- The same request with its parameters in another order. -/
def Wire.Request.reordered (request : Request) (ids : List ParameterId) : Request :=
  { request with parameters := ids }

/-- A request resolves in any order of its parameters. -/
theorem Wire.Request.Resolves.reordered {ids : List ParameterId} (h : request.Resolves tables)
    (hperm : request.parameters.Perm ids) : (request.reordered ids).Resolves tables :=
  ⟨fun id hid => h.parameters id (hperm.mem_iff.mpr hid), h.signatureParameters⟩

/-- The arguments of a protocol method are in the order of its parameters. -/
theorem wireSignature_perm {entries entries' : List WireEntry} (hperm : entries.Perm entries') :
    (wireSignature entries).Perm (wireSignature entries') :=
  (hperm.filter _).map _

/-- A derived signature has the same arguments in whatever order the entries come. -/
theorem derivedSignature_perm {entries entries' : List WireEntry} (hperm : entries.Perm entries') :
    (derivedSignature entries).Perm (derivedSignature entries') := by
  have hspread (id : ParameterId) : (entries.filterMap (·.parameter.spreadFrom)).contains id =
      (entries'.filterMap (·.parameter.spreadFrom)).contains id := by
    have hmem := (hperm.filterMap (·.parameter.spreadFrom)).mem_iff (a := id)
    rw [Bool.eq_iff_iff, List.contains_iff_mem, List.contains_iff_mem, hmem]
  unfold derivedSignature
  simp only [hspread, eraseDups_eq_firstOfEach]
  exact firstOfEach_perm id ((hperm.filter _).map _) fun _ _ _ _ heq => heq

/-- A request in another order has a signature with the same parameters. They are in the same order
where the model fixes the arguments of a convenience method. -/
theorem signature_reordered {ids : List ParameterId} (hperm : request.parameters.Perm ids)
    {kind : MethodKind} {taken : List ParameterId}
    (hsignature : signature tables request kind = .ok taken) :
    ∃ taken', signature tables (request.reordered ids) kind = .ok taken' ∧ taken.Perm taken' ∧
      (kind = .convenience → request.signatureParameters ≠ [] → taken = taken') := by
  unfold signature at hsignature ⊢
  cases kind with
  | protocol =>
    obtain ⟨entries, hentries, rfl⟩ := map_eq_ok.mp hsignature
    obtain ⟨entries', hentries', hentriesPerm⟩ := exists_mapM_perm hperm hentries
    refine ⟨wireSignature entries', map_eq_ok.mpr ⟨entries', hentries', rfl⟩,
      wireSignature_perm hentriesPerm, fun h => nomatch h⟩
  | convenience =>
    simp only [Wire.Request.reordered]
    cases hdeclared : request.signatureParameters with
    | cons id rest =>
      simp only [hdeclared] at hsignature
      exact ⟨taken, hsignature, List.Perm.refl _, fun _ _ => rfl⟩
    | nil =>
      simp only [hdeclared] at hsignature
      obtain ⟨entries, hentries, rfl⟩ := map_eq_ok.mp hsignature
      obtain ⟨entries', hentries', hentriesPerm⟩ := exists_mapM_perm hperm hentries
      exact ⟨derivedSignature entries', map_eq_ok.mpr ⟨entries', hentries', rfl⟩,
        derivedSignature_perm hentriesPerm, fun _ h => absurd rfl h⟩

/-- The arguments of different names among those of distinguished parameters are different. -/
theorem Mapper.Distinguishes.argument_eq {ids : List ParameterId}
    (hdistinct : mapper.Distinguishes ids) {kept : List ParameterId} (hkept : kept ⊆ ids)
    {arguments : List Argument} (harguments : kept.mapM mapper.argument = .ok arguments) :
    ∀ left ∈ arguments, ∀ right ∈ arguments, left.name = right.name → left = right := by
  intro left hleft right hright hname
  obtain ⟨id, hid, hstep⟩ := exists_of_mem_mapM harguments hleft
  obtain ⟨other, hother, hstep'⟩ := exists_of_mem_mapM harguments hright
  cases hdistinct id (hkept hid) other (hkept hother) left right hstep hstep' hname
  exact Except.ok.inj (hstep.symm.trans hstep')

/-- Distinguished parameters in another order make the same registry. -/
theorem registryOf_reordered (model : CodeModel) {ids : List ParameterId}
    (hperm : request.parameters.Perm ids) (hdistinct : mapper.Distinguishes request.parameters)
    (hmapper : mapper.Describes model.toTables) (hrequest : request.Resolves model.toTables)
    (operation : String) (kind : MethodKind) :
    ∃ offers, registryOf model.toTables mapper operation request kind =
        .ok ((Registry.new operation (kind = .protocol)).offerAll model.toTables offers) ∧
      registryOf model.toTables mapper operation (request.reordered ids) kind =
        .ok ((Registry.new operation (kind = .protocol)).offerAll model.toTables offers) := by
  obtain ⟨offers, hoffers⟩ := Mapper.exists_offers fun id hid =>
    hmapper.argument id (hrequest.parameters id hid)
  obtain ⟨offers', hoffers', hoffersPerm⟩ := exists_mapM_perm hperm hoffers
  have hnames : ∀ left ∈ offers, ∀ right ∈ offers, left ≠ right →
      left.argument.name ≠ right.argument.name := by
    intro left hleft right hright hne hname
    have hids := Mapper.map_parameter_offers hoffers
    have hargument := Mapper.argument_of_mem_offers hoffers hleft
    have hargument' := Mapper.argument_of_mem_offers hoffers hright
    have hparameter : left.parameter = right.parameter :=
      hdistinct _ (hids ▸ List.mem_map_of_mem hleft) _ (hids ▸ List.mem_map_of_mem hright) _ _
        hargument hargument' hname
    rw [hparameter] at hargument
    have hsame : left.argument = right.argument :=
      Except.ok.inj (hargument.symm.trans hargument')
    obtain ⟨_, _⟩ := left
    obtain ⟨_, _⟩ := right
    exact hne (by simp_all)
  refine ⟨offers, Registry.foldlM_offer model hoffers hrequest.parameters _, ?_⟩
  rw [Registry.offerAll_eq_of_perm operation _ hoffersPerm hnames]
  exact Registry.foldlM_offer model hoffers' (hrequest.reordered hperm).parameters _

/-- What the registry of a convenience method returns for a request in another order: the same
records of its registrations, and behind them the same arguments handed on in another order. Or it
fails in the same way. -/
theorem Registry.transformations_reordered (model : CodeModel) {registry : Registry}
    {ids : List ParameterId} (hmapper : mapper.Describes model.toTables)
    (hkind : registry.isProtocol = false) (hwithin : registry.Within model.toTables)
    (hrequest : request.Resolves model.toTables) (hperm : request.parameters.Perm ids)
    (hdistinct : mapper.Distinguishes request.parameters) :
    (∃ error, registry.transformations model.toTables mapper request = .error error ∧
      registry.transformations model.toTables mapper (request.reordered ids) = .error error) ∨
    ∃ (mappings : List Mapping) (handed handed' : List Argument),
      registry.inWireOrder.mapM (·.mapping model.toTables mapper registry.operation) =
        .ok mappings ∧
      handed.Perm handed' ∧
      registry.transformations model.toTables mapper request =
        .ok (Transformation.merged mappings ++ handingOn handed) ∧
      registry.transformations model.toTables mapper (request.reordered ids) =
        .ok (Transformation.merged mappings ++ handingOn handed') := by
  rw [transformations_eq model hkind hwithin hrequest,
    transformations_eq model hkind hwithin (hrequest.reordered hperm)]
  cases hmappings : registry.inWireOrder.mapM
      (·.mapping model.toTables mapper registry.operation) with
  | error error => exact Or.inl ⟨error, rfl, rfl⟩
  | ok mappings =>
    have hkept : unspread model.toTables request registry.entries ⊆ request.parameters :=
      List.filter_sublist.subset
    have hkeptPerm : (unspread model.toTables request registry.entries).Perm
        (unspread model.toTables (request.reordered ids) registry.entries) := hperm.filter _
    obtain ⟨arguments, harguments⟩ := exists_mapM_eq_ok fun id hid =>
      hmapper.argument id (hrequest.parameters id (hkept hid))
    obtain ⟨arguments', harguments', hargumentsPerm⟩ := exists_mapM_perm hkeptPerm harguments
    have hnames := hdistinct.argument_eq hkept harguments
    have hfirst := firstOfEach_perm (·.name) hargumentsPerm hnames
    refine Or.inr ⟨mappings, _, _, rfl, hfirst.filter fun argument =>
      argument.name ∉ mappings.map Mapping.outputName, ?_, ?_⟩
    · exact bind_eq_ok.mpr ⟨mappings, rfl, bind_eq_ok.mpr ⟨arguments, harguments, rfl⟩⟩
    · exact bind_eq_ok.mpr ⟨mappings, rfl, bind_eq_ok.mpr ⟨arguments', harguments', rfl⟩⟩

/-- A registry without registrations resolves nothing. -/
theorem Registry.inWireOrder_new (operation : String) (isProtocol : Bool) :
    (Registry.new operation isProtocol).inWireOrder = [] := by
  simp [Registry.inWireOrder, Registry.new]

/-- A plan whose parts were found fails only if its transformations do. -/
theorem ClientMethod.plan_eq_of_parts {kind : MethodKind} {ids : List ParameterId}
    {arguments : List Argument} {registry : Registry}
    (hcheck : tables.checkRequest operation request = .ok ())
    (hsignature : signature tables request kind = .ok ids)
    (harguments : ids.mapM mapper.argument = .ok arguments)
    (hregistry : registryOf tables mapper operation request kind = .ok registry) :
    plan tables mapper operation request kind = (do
      let transformations ← registry.transformations tables mapper request
      return { name := operation
               kind := kind
               httpMethod := request.http.bind (·.method)
               path := request.http.bind (·.path)
               contentType := request.contentType
               parameters := arguments
               transformations := transformations }) := by
  simp only [plan, hcheck, hsignature, harguments, hregistry, bind, Except.bind, Except.mapError]

/-- The parameters of a request may come in any order, if different ones have different argument
names. Either both plans fail in the same way. Or both have the same registrations, of which they
make the same records in the same order, and behind these they hand on the same arguments in some
order. The methods take the same arguments in some order, and in the same order where the model
fixes the arguments of a convenience method. In all else they are equal. -/
theorem ClientMethod.plan_reordered (model : CodeModel) {mapper : Mapper}
    (hmapper : mapper.Describes model.toTables) (operation : String) {request : Request}
    (hcheck : model.checkRequest operation request = .ok ()) {ids : List ParameterId}
    (hperm : request.parameters.Perm ids) (hdistinct : mapper.Distinguishes request.parameters)
    (kind : MethodKind) :
    (∃ error, plan model.toTables mapper operation request kind = .error error ∧
      plan model.toTables mapper operation (request.reordered ids) kind = .error error) ∨
    ∃ (method : ClientMethod) (parameters : List Argument) (registry : Registry)
        (mappings : List Mapping) (handed handed' : List Argument),
      plan model.toTables mapper operation request kind = .ok method ∧
      plan model.toTables mapper operation (request.reordered ids) kind =
        .ok { method with
          parameters := parameters
          transformations := Transformation.merged mappings ++ handingOn handed' } ∧
      method.parameters.Perm parameters ∧
      (kind = .convenience → request.signatureParameters ≠ [] → method.parameters = parameters) ∧
      registryOf model.toTables mapper operation request kind = .ok registry ∧
      registryOf model.toTables mapper operation (request.reordered ids) kind = .ok registry ∧
      registry.inWireOrder.mapM (·.mapping model.toTables mapper operation) = .ok mappings ∧
      method.transformations = Transformation.merged mappings ++ handingOn handed ∧
      handed.Perm handed' := by
  have hrequest := Tables.checkRequest_eq_ok.mp hcheck
  have hcheck' : model.checkRequest operation (request.reordered ids) = .ok () :=
    Tables.checkRequest_eq_ok.mpr (hrequest.reordered hperm)
  obtain ⟨taken, hsignature, htaken⟩ := exists_signature model hrequest kind
  obtain ⟨taken', hsignature', htakenPerm, hfixed⟩ := signature_reordered hperm hsignature
  obtain ⟨parameters, hparameters⟩ :=
    exists_mapM_eq_ok fun id hid => hmapper.argument id (htaken id hid)
  obtain ⟨parameters', hparameters', hparametersPerm⟩ := exists_mapM_perm htakenPerm hparameters
  obtain ⟨offers, hregistry, hregistry'⟩ :=
    registryOf_reordered model hperm hdistinct hmapper hrequest operation kind
  rw [plan_eq_of_parts hcheck hsignature hparameters hregistry,
    plan_eq_of_parts hcheck' hsignature' hparameters' hregistry']
  cases kind with
  | protocol =>
    have hkind : (Registry.new operation true).isProtocol = true := rfl
    simp only [decide_true, Registry.offerAll_eq_self hkind] at hregistry hregistry' ⊢
    rw [Registry.transformations_eq_nil hkind hrequest,
      Registry.transformations_eq_nil hkind (hrequest.reordered hperm)]
    refine Or.inr ⟨_, parameters', _, [], [], [], rfl, rfl, hparametersPerm, (fun h => nomatch h),
      hregistry, hregistry', ?_, rfl, List.Perm.refl _⟩
    rw [Registry.inWireOrder_new]
    rfl
  | convenience =>
    obtain ⟨hoperation, hkind⟩ := Registry.offerAll_keeps model.toTables
      (Registry.new operation (MethodKind.convenience = .protocol)) offers
    rcases Registry.transformations_reordered model hmapper hkind
        (Registry.within_offerAll operation _ offers) hrequest hperm hdistinct with
      ⟨error, herror, herror'⟩ | ⟨mappings, handed, handed', hmappings, hhanded, hrun, hrun'⟩
    · rw [herror, herror']
      exact Or.inl ⟨error, rfl, rfl⟩
    · rw [hrun, hrun']
      rw [hoperation] at hmappings
      refine Or.inr ⟨_, parameters', _, mappings, handed, handed', rfl, rfl, hparametersPerm,
        fun h hdeclared => ?_, hregistry, hregistry', hmappings, rfl, hhanded⟩
      cases hfixed h hdeclared
      exact Except.ok.inj (hparameters.symm.trans hparameters')

/-- A user is spread into a name. Settings and limits are flattened, but nothing is spread from
them. -/
def noticeModel : CodeModel where
  schemas := [⟨"User", .object [0]⟩, ⟨"string", .scalar .string⟩]
  properties := [⟨"name", none, "name", 1, true⟩]
  parameters := [
    ⟨"user", none, "user", 0, inBody, true, true, none, none, none⟩,
    ⟨"name", none, "name", 1, none, false, true, none, some 0, some 0⟩,
    ⟨"settings", none, "settings", 0, inBody, true, true, none, none, none⟩,
    ⟨"limits", none, "limits", 0, inBody, true, true, none, none, none⟩]
  operations := []
  checked := by rfl

/-- A request that repeats the name. -/
def noticeRequest : Request := ⟨[2, 0, 1, 3, 1], [], none⟩

/-- A required user that is sent as the body. -/
def bodyArgument (name : String) : Argument := ⟨name, .model "User", true, some .body, false⟩

/-- The plan of the request. -/
def noticeMethod : ClientMethod where
  name := "notify"
  kind := .convenience
  httpMethod := none
  path := none
  contentType := "application/json"
  parameters := [bodyArgument "settings", textArgument "name", bodyArgument "limits"]
  transformations :=
    ⟨bodyArgument "user", [⟨⟨textArgument "name", none⟩,
      ⟨bodyArgument "user", some ⟨"name", "name", .string, true⟩, some "name"⟩⟩]⟩ ::
    handingOn [bodyArgument "settings", bodyArgument "limits"]

/-- In another order, the request has a plan with the same record of the user. -/
theorem plan_reordered_notice :
    let mapper := Mapper.ofTables noticeModel.toTables
    mapper.Describes noticeModel.toTables ∧
      noticeModel.checkRequest "notify" noticeRequest = .ok () ∧
      noticeRequest.parameters.Perm [1, 3, 0, 1, 2] ∧
      mapper.Distinguishes noticeRequest.parameters ∧
      ClientMethod.plan noticeModel.toTables mapper "notify" noticeRequest .convenience =
        .ok noticeMethod ∧
      ∃ (parameters : List Argument) (registry : Registry) (mappings : List Mapping)
          (handed handed' : List Argument),
        ClientMethod.plan noticeModel.toTables mapper "notify"
            (noticeRequest.reordered [1, 3, 0, 1, 2]) .convenience =
          .ok { noticeMethod with
            parameters := parameters
            transformations := Transformation.merged mappings ++ handingOn handed' } ∧
        noticeMethod.parameters.Perm parameters ∧
        registryOf noticeModel.toTables mapper "notify" noticeRequest .convenience = .ok registry ∧
        registry.inWireOrder.mapM (·.mapping noticeModel.toTables mapper "notify") =
          .ok mappings ∧
        noticeMethod.transformations = Transformation.merged mappings ++ handingOn handed ∧
        handed.Perm handed' := by
  intro mapper
  have hcheck : noticeModel.checkRequest "notify" noticeRequest = .ok () := rfl
  have hperm : noticeRequest.parameters.Perm [1, 3, 0, 1, 2] := by decide
  have hdistinct : mapper.Distinguishes noticeRequest.parameters :=
    Mapper.distinguishes_ofTables (by decide)
  have hplan : ClientMethod.plan noticeModel.toTables mapper "notify" noticeRequest .convenience =
      .ok noticeMethod := by cbv
  refine ⟨noticeModel.describes, hcheck, hperm, hdistinct, hplan, ?_⟩
  rcases ClientMethod.plan_reordered noticeModel noticeModel.describes "notify" hcheck hperm
      hdistinct .convenience with
    ⟨error, herror, -⟩ | ⟨method, parameters, registry, mappings, handed, handed', hmethod,
      hreordered, hparameters, -, hregistry, -, hmappings, htransformations, hhanded⟩
  · cases hplan.symm.trans herror
  · cases hplan.symm.trans hmethod
    exact ⟨parameters, registry, mappings, handed, handed', hreordered, hparameters, hregistry,
      hmappings, htransformations, hhanded⟩

end ClientPlan

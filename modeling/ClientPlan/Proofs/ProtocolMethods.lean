import ClientPlan.Proofs.Failure
import ClientPlan.Proofs.Selection

/-!
# Protocol methods

A protocol method takes wire values directly. The links between parameters, however broken, and
the signature that the model fixes do not matter for it: it is planned for every request that
resolves, and has no transformations. So the protocol methods of a plan can be left out or put in
without any effect on the convenience methods beside them.
-/

namespace ClientPlan

open Wire (CodeModel ParameterId Request Tables)

/-- The protocol method of a request that takes the given arguments. -/
def ClientMethod.ofWire (operation : String) (request : Request) (arguments : List Argument) :
    ClientMethod where
  name := operation
  kind := .protocol
  httpMethod := request.http.bind (·.method)
  path := request.http.bind (·.path)
  contentType := request.contentType
  parameters := arguments
  transformations := []

/-- Parameters of a signature that lie in the table add nothing to the check of a request. -/
theorem Wire.Tables.checkRequest_eq_checkIds {tables : Tables} (operation : String)
    {request : Request}
    (hsignature : ∀ id ∈ request.signatureParameters, id < tables.parameters.length) :
    tables.checkRequest operation request =
      tables.checkIds (.operation operation) .parameters .parameters request.parameters := by
  have hpasses : tables.checkIds (.operation operation) .signatureParameters .parameters
      request.signatureParameters = .ok () := checkIds_eq_ok.mpr hsignature
  unfold checkRequest
  simp only [hpasses]
  cases tables.checkIds (.operation operation) .parameters .parameters request.parameters <;> rfl

namespace ClientMethod

variable (model : CodeModel) {mapper : Mapper} (operation : String) {request : Request}

/-- The protocol method of a request that resolves takes the arguments of the wire parameters that
are sent by themselves. -/
theorem exists_plan_protocol (hmapper : mapper.Describes model.toTables)
    (hrequest : request.Resolves model.toTables) :
    ∃ entries arguments, request.parameters.mapM model.toTables.entryAt = .ok entries ∧
      (wireSignature entries).mapM mapper.argument = .ok arguments ∧
      plan model.toTables mapper operation request .protocol =
        .ok (ofWire operation request arguments) := by
  obtain ⟨ids, arguments, offers, hsignature, harguments, -, hplan⟩ :=
    exists_plan_eq model hmapper operation hrequest .protocol
  obtain ⟨entries, hentries, rfl⟩ := map_eq_ok.mp hsignature
  have hkind : (Registry.new operation (MethodKind.protocol = .protocol)).isProtocol = true := rfl
  rw [Registry.offerAll_eq_self hkind, Registry.transformations_eq_nil hkind hrequest] at hplan
  exact ⟨entries, arguments, hentries, harguments, hplan⟩

/-- A protocol method does not depend on the signature that the model fixes. -/
theorem plan_protocol_congr (hmapper : mapper.Describes model.toTables)
    {ids : List ParameterId}
    (hsignature : ∀ id ∈ request.signatureParameters, id < model.parameters.length)
    (hids : ∀ id ∈ ids, id < model.parameters.length) :
    plan model.toTables mapper operation { request with signatureParameters := ids } .protocol =
      plan model.toTables mapper operation request .protocol := by
  have hsame : model.checkRequest operation { request with signatureParameters := ids } =
      model.checkRequest operation request :=
    (Tables.checkRequest_eq_checkIds operation hids).trans
      (Tables.checkRequest_eq_checkIds operation hsignature).symm
  cases hcheck : model.checkRequest operation request with
  | error cause =>
    -- A wire parameter dangles, which is found before any signature is looked at.
    rw [plan_eq_error_of_checkRequest hcheck, plan_eq_error_of_checkRequest (hsame.trans hcheck)]
  | ok =>
    obtain ⟨entries, arguments, hentries, harguments, hplan⟩ := exists_plan_protocol model operation
      hmapper (Tables.checkRequest_eq_ok.mp hcheck)
    obtain ⟨entries', arguments', hentries', harguments', hplan'⟩ :=
      exists_plan_protocol model operation hmapper
        (Tables.checkRequest_eq_ok.mp (hsame.trans hcheck))
    cases hentries.symm.trans hentries'
    cases harguments.symm.trans harguments'
    exact hplan'.trans hplan.symm

end ClientMethod

/-- With convenience methods enabled, the tasks without protocol methods are the convenience tasks
among all. -/
theorem Options.filter_selects_convenience {options : Options}
    (hconvenience : options.convenienceMethods = true) (tasks : List Task) :
    tasks.filter ({ options with protocolMethods := false } : Options).selects =
      (tasks.filter ({ options with protocolMethods := true } : Options).selects).filter
        fun task => task.kind ≠ .protocol := by
  rw [List.filter_filter]
  refine List.filter_congr fun task _ => ?_
  have hincludes : ({ options with protocolMethods := false } : Options).includes task.operation =
      ({ options with protocolMethods := true } : Options).includes task.operation := rfl
  unfold selects
  rw [hincludes]
  cases task.kind <;> simp [enables, hconvenience]

/-- Leaving out protocol methods takes them from the plan and changes nothing else. -/
theorem planMethods_convenience (model : CodeModel) {mapper : Mapper}
    (hmapper : mapper.Describes model.toTables) {options : Options}
    (hconvenience : options.convenienceMethods = true) :
    planMethods model.toTables mapper { options with protocolMethods := false } =
      List.filter (fun method => method.kind ≠ .protocol) <$>
        planMethods model.toTables mapper { options with protocolMethods := true } := by
  rw [planMethods_eq, planMethods_eq, Options.filter_selects_convenience hconvenience]
  refine mapM_filter (fun task _ method hmethod => ?_) fun task htask hprotocol => ?_
  · rw [(Task.plan_keeps hmethod).2]
  · -- A task that is left out has a plan, since its request was checked with the code model.
    have hkind : task.kind = .protocol := by simpa using hprotocol
    rw [← Options.tasks_eq] at htask
    obtain ⟨_, arguments, -, -, hplan⟩ := ClientMethod.exists_plan_protocol model task.operation
      hmapper (Options.resolves_of_mem_tasks model htask)
    exact ⟨_, by rw [Task.plan, hkind, hplan]⟩

/-- A protocol method is planned for exactly the requests that pass their check, whatever links
their parameters have. It has no transformations, and the signature that the model fixes does not
matter for it. With convenience methods enabled, planning protocol methods too changes neither
whether the plan succeeds nor its failure, and the plan without them is what remains of that with
them when they are deleted. -/
theorem protocol_bypasses (model : CodeModel) {mapper : Mapper}
    (hmapper : mapper.Describes model.toTables) :
    (∀ operation request,
      ((∃ method, ClientMethod.plan model.toTables mapper operation request .protocol =
          .ok method) ↔ model.checkRequest operation request = .ok ()) ∧
      (∀ method, ClientMethod.plan model.toTables mapper operation request .protocol =
        .ok method → method.transformations = []) ∧
      ∀ ids, (∀ id ∈ request.signatureParameters ++ ids, id < model.parameters.length) →
        ClientMethod.plan model.toTables mapper operation
            { request with signatureParameters := ids } .protocol =
          ClientMethod.plan model.toTables mapper operation request .protocol) ∧
    ∀ options : Options, options.convenienceMethods = true →
      planMethods model.toTables mapper { options with protocolMethods := false } =
        List.filter (fun method => method.kind ≠ .protocol) <$>
          planMethods model.toTables mapper { options with protocolMethods := true } := by
  refine ⟨fun operation request => ⟨⟨?_, fun hcheck => ?_⟩, fun method hmethod => ?_,
    fun ids hids => ?_⟩, fun options => planMethods_convenience model hmapper⟩
  · rintro ⟨method, hmethod⟩
    exact ClientMethod.checkRequest_of_plan_eq_ok hmethod
  · obtain ⟨_, _, -, -, hplan⟩ := ClientMethod.exists_plan_protocol model operation hmapper
      (Tables.checkRequest_eq_ok.mp hcheck)
    exact ⟨_, hplan⟩
  · have hcheck := ClientMethod.checkRequest_of_plan_eq_ok hmethod
    obtain ⟨_, arguments, -, -, hplan⟩ := ClientMethod.exists_plan_protocol model operation hmapper
      (Tables.checkRequest_eq_ok.mp hcheck)
    cases hmethod.symm.trans hplan
    rfl
  · exact ClientMethod.plan_protocol_congr model operation hmapper
      (fun id hid => hids id (List.mem_append_left _ hid))
      fun id hid => hids id (List.mem_append_right _ hid)

/-- The list has a protocol method, although it has no convenience method. With the count and the
ping, which have both, the protocol methods can be left out. -/
theorem protocol_bypasses_broken :
    let mapper := Mapper.ofTables brokenModel.toTables
    let request : Request := ⟨[0, 2, 3], [], none⟩
    let options : Options := { operations := some ["count", "ping"] }
    mapper.Describes brokenModel.toTables ∧
      brokenModel.checkRequest "list" request = .ok () ∧
      (∃ error, ClientMethod.plan brokenModel.toTables mapper "list" request .convenience =
        .error error) ∧
      (∃ method, ClientMethod.plan brokenModel.toTables mapper "list" request .protocol =
        .ok method) ∧
      ClientMethod.plan brokenModel.toTables mapper "list"
          { request with signatureParameters := [1] } .protocol =
        ClientMethod.plan brokenModel.toTables mapper "list" request .protocol ∧
      planMethods brokenModel.toTables mapper { options with protocolMethods := false } =
        List.filter (fun method => method.kind ≠ .protocol) <$>
          planMethods brokenModel.toTables mapper { options with protocolMethods := true } := by
  intro mapper request options
  obtain ⟨hone, hall⟩ := protocol_bypasses brokenModel brokenModel.describes
  have hcheck : brokenModel.checkRequest "list" request = .ok () := rfl
  have hfails : ClientMethod.plan brokenModel.toTables mapper "list" request .convenience =
      .error (.groupNotObject "list" "page" "paging" "string") := by cbv
  exact ⟨brokenModel.describes, hcheck, ⟨_, hfails⟩, (hone "list" request).1.mpr hcheck,
    (hone "list" request).2.2 [1] (by decide), hall options rfl⟩

end ClientPlan

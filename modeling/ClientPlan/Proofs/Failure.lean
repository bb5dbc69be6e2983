import ClientPlan.Proofs.Defects
import ClientPlan.Proofs.Planning

/-!
# What planning fails with

A request that refers to parameters outside the code model is refused at once. From there on
every id that is looked up was checked, either with the request or when the code model was
loaded, and what remains are three defects of the model itself: a group without the property of
its member, a group that is no object, and a spread parameter without the property it fills.
-/

namespace ClientPlan

open Wire (CodeModel Request Tables)

/-- The links of a code model contradict each other. -/
inductive PlanError.IsDefect : PlanError → Prop
  | groupLacksProperty (operation parameter model : String) :
    IsDefect (.groupLacksProperty operation parameter model)
  | groupNotObject (operation parameter group schema : String) :
    IsDefect (.groupNotObject operation parameter group schema)
  | missingTarget (operation parameter whole : String) :
    IsDefect (.missingTarget operation parameter whole)

/-- The defects of registrations are those of a model: every object of a code model has a model, so
that none is refused. -/
theorem Registration.HasDefect.isDefect (model : CodeModel) {registration : Registration}
    {operation : String} {error : PlanError}
    (h : registration.HasDefect model.toTables (.ofTables model.toTables) operation error) :
    error.IsDefect := by
  cases h with
  | target _ hlacks =>
    cases hlacks
    exact .missingTarget ..
  | source _ _ hlacks =>
    cases hlacks with
    | notObject => exact .groupNotObject ..
    | noModel _ _ hschema hobject hmodel =>
      obtain ⟨described, hdescribed⟩ := model.exists_model hschema hobject
      cases hdescribed.symm.trans hmodel
    | noProperty => exact .groupLacksProperty ..

/-- The transformations of a request that resolves fail by defects of the model only. -/
theorem Registry.transformations_failsOnly (model : CodeModel) {registry : Registry}
    (hwithin : registry.Within model.toTables) {request : Request}
    (hrequest : request.Resolves model.toTables) :
    FailsOnly PlanError.IsDefect
      (registry.transformations model.toTables (.ofTables model.toTables) request) := by
  intro error herror
  cases (transformations_eq_error model model.describes hwithin).mp herror with
  | request hdangling =>
    have hcheck := Tables.checkRequest_eq_error.mpr hdangling
    cases hcheck.symm.trans (Tables.checkRequest_eq_ok.mpr hrequest)
  | registration _ _ _ hdefect _ => exact hdefect.isDefect model

namespace ClientMethod

variable (model : CodeModel) (operation : String) {request : Request} (kind : MethodKind)

/-- The plan of a request that resolves fails by defects of the model only. -/
theorem plan_failsOnly (hrequest : request.Resolves model.toTables) :
    FailsOnly PlanError.IsDefect
      (plan model.toTables (.ofTables model.toTables) operation request kind) := by
  obtain ⟨_, _, offers, -, -, -, hplan⟩ :=
    exists_plan_eq model model.describes operation hrequest kind
  rw [hplan]
  exact FailsOnly.bind (Registry.transformations_failsOnly model
    (Registry.within_offerAll operation _ offers) hrequest) fun _ _ => FailsOnly.of_eq_ok rfl

/-- The plan of a request that does not resolve fails by the id that dangles. -/
theorem exists_plan_eq_danglingRequest (hrequest : ¬ request.Resolves model.toTables) :
    ∃ cause, plan model.toTables (.ofTables model.toTables) operation request kind =
      .error (.danglingRequest cause) := by
  cases hcheck : model.checkRequest operation request with
  | ok => exact absurd (Tables.checkRequest_eq_ok.mp hcheck) hrequest
  | error cause => exact ⟨cause, plan_eq_error_of_checkRequest hcheck⟩

/-- A plan fails by its request exactly when that refers to parameters outside the table. -/
theorem plan_eq_danglingRequest_iff :
    (∃ cause, plan model.toTables (.ofTables model.toTables) operation request kind =
        .error (.danglingRequest cause)) ↔
      ∃ id ∈ request.parameters ++ request.signatureParameters, model.parameters.length ≤ id := by
  rw [← Request.not_resolves_iff]
  constructor
  · rintro ⟨cause, herror⟩ hrequest
    cases plan_failsOnly model operation kind hrequest _ herror
  · exact exists_plan_eq_danglingRequest model operation kind

/-- A plan that fails has either a dangling request or a defect of the model as its cause. -/
theorem danglingRequest_or_isDefect {error : PlanError}
    (h : plan model.toTables (.ofTables model.toTables) operation request kind = .error error) :
    (∃ cause, error = .danglingRequest cause) ∨ error.IsDefect := by
  by_cases hrequest : request.Resolves model.toTables
  · exact Or.inr (plan_failsOnly model operation kind hrequest error h)
  · obtain ⟨cause, hcause⟩ := exists_plan_eq_danglingRequest model operation kind hrequest
    rw [h] at hcause
    exact Or.inl ⟨cause, Except.error.inj hcause⟩

end ClientMethod

/-- Every selected task of a code model has a request that resolves. -/
theorem Options.resolves_of_mem_tasks (model : CodeModel) {options : Options} {task : Task}
    (h : task ∈ options.tasks model.operations) : task.request.Resolves model.toTables := by
  obtain ⟨operation, hoperation, h⟩ := List.mem_flatMap.mp h
  obtain ⟨request, hrequest, h⟩ := List.mem_flatMap.mp h
  obtain ⟨kind, -, rfl⟩ := List.mem_map.mp h
  exact model.resolves.requests operation (List.mem_of_mem_filter hoperation) request hrequest

/-- The methods that options select of a code model fail by defects of the model only. -/
theorem planMethods_failsOnly (model : CodeModel) (options : Options) :
    FailsOnly PlanError.IsDefect
      (planMethods model.toTables (.ofTables model.toTables) options) := by
  apply FailsOnly.mapM
  intro task htask
  have hrequest := Options.resolves_of_mem_tasks model htask
  exact ClientMethod.plan_failsOnly model task.operation task.kind hrequest

/-- Planning a method of a code model fails with the request exactly when one of its ids is
outside the table of parameters, and otherwise by defects of the model only. Nothing is looked up
outside its table, and no chain of element types is followed for ever. The methods that options
select fail by such defects only. -/
theorem planning_failures (model : CodeModel) :
    (∀ operation request kind,
      ((∃ cause, ClientMethod.plan model.toTables (.ofTables model.toTables) operation request
          kind = .error (.danglingRequest cause)) ↔
        ∃ id ∈ request.parameters ++ request.signatureParameters,
          model.parameters.length ≤ id) ∧
      ∀ error, ClientMethod.plan model.toTables (.ofTables model.toTables) operation request
          kind = .error error →
        (∃ cause, error = .danglingRequest cause) ∨ error.IsDefect) ∧
    ∀ options error, planMethods model.toTables (.ofTables model.toTables) options = .error error →
      error.IsDefect := by
  constructor
  · intro operation request kind
    exact ⟨ClientMethod.plan_eq_danglingRequest_iff model operation kind,
      fun error herror => ClientMethod.danglingRequest_or_isDefect model operation kind herror⟩
  · intro options error herror
    exact planMethods_failsOnly model options error herror

end ClientPlan

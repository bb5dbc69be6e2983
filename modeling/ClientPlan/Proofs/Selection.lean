import ClientPlan.Method.Plan
import ClientPlan.Proofs.Fallible
import ClientPlan.Wire.CodeModel
import Mathlib.Data.List.Permutation

/-!
# Plans of selected methods

Options select methods by the name of their operation and by their variant. The plan of a
selection is the plans of its methods in a fixed order, and its failure that of the first which
fails. No plan of a method depends on another one, so that a narrower selection takes its methods
from a wider one.
-/

namespace ClientPlan

open Wire (CodeModel Operation Request Tables)

/-- The methods of all operations and requests in order, of each request the convenience method
first. -/
def everyTask (operations : List Operation) : List Task :=
  operations.flatMap fun operation => operation.requests.flatMap fun request =>
    [⟨operation.name, request, .convenience⟩, ⟨operation.name, request, .protocol⟩]

/-- Plans the method of a task. -/
def Task.plan (tables : Tables) (mapper : Mapper) (task : Task) : Except PlanError ClientMethod :=
  ClientMethod.plan tables mapper task.operation task.request task.kind

namespace Options

/-- Whether the methods of a variant are planned. -/
def enables (options : Options) : MethodKind → Bool
  | .convenience => options.convenienceMethods
  | .protocol => options.protocolMethods

/-- Whether the method of a task is planned. -/
def selects (options : Options) (task : Task) : Bool :=
  options.includes task.operation && options.enables task.kind

/-- The same options with other operations to plan. -/
def allowing (options : Options) (operations : Option (List String)) : Options :=
  { options with operations := operations }

/-- Of one request those variants are planned that are enabled, if its operation is. -/
theorem filter_selects_request (options : Options) (name : String) (request : Request) :
    [⟨name, request, .convenience⟩, ⟨name, request, .protocol⟩].filter options.selects =
      if options.includes name then options.kinds.map fun kind => ⟨name, request, kind⟩ else [] := by
  cases hincludes : options.includes name with
  | false => simp [selects, hincludes]
  | true =>
    cases hconvenience : options.convenienceMethods <;>
      cases hprotocol : options.protocolMethods <;>
        simp [selects, enables, kinds, hincludes, hconvenience, hprotocol]

/-- The selected tasks are those of all operations that options select, in order. -/
theorem tasks_eq (options : Options) (operations : List Operation) :
    options.tasks operations = (everyTask operations).filter options.selects := by
  unfold tasks everyTask
  simp only [List.filter_flatMap, filter_selects_request]
  induction operations with
  | nil => rfl
  | cons operation rest ih =>
    rw [List.filter_cons, List.flatMap_cons, ← ih]
    cases options.includes operation.name <;> simp

/-- A narrower list of operations selects the tasks of its operations among those of a wider
one. -/
theorem filter_selects_allowing {options : Options} {operations : Option (List String)}
    (hwithin : ∀ name, (options.allowing operations).includes name = true →
      options.includes name = true) (tasks : List Task) :
    tasks.filter (options.allowing operations).selects =
      (tasks.filter options.selects).filter fun task =>
        (options.allowing operations).includes task.operation := by
  rw [List.filter_filter]
  refine List.filter_congr fun task _ => ?_
  have henables : (options.allowing operations).enables task.kind = options.enables task.kind := by
    cases task.kind <;> rfl
  unfold selects
  rw [henables]
  cases hincludes : (options.allowing operations).includes task.operation with
  | false => rfl
  | true => rw [hwithin _ hincludes, Bool.true_and, Bool.true_and]

end Options

variable {tables : Tables} {mapper : Mapper} {options : Options}

/-- A method has the name and the variant that it was planned for. -/
theorem Task.plan_keeps {task : Task} {method : ClientMethod}
    (h : task.plan tables mapper = .ok method) :
    method.name = task.operation ∧ method.kind = task.kind := by
  unfold Task.plan ClientMethod.plan at h
  obtain ⟨-, h⟩ := check_bind_eq_ok.mp h
  obtain ⟨ids, -, h⟩ := bind_eq_ok.mp h
  obtain ⟨arguments, -, h⟩ := bind_eq_ok.mp h
  obtain ⟨registry, -, h⟩ := bind_eq_ok.mp h
  obtain ⟨transformations, -, h⟩ := bind_eq_ok.mp h
  cases pure_eq_ok.mp h
  exact ⟨rfl, rfl⟩

/-- The methods that options select are planned one by one. -/
theorem planMethods_eq : planMethods tables mapper options =
    ((everyTask tables.operations).filter options.selects).mapM (Task.plan tables mapper) := by
  rw [← Options.tasks_eq]
  rfl

/-- The plan of a narrower list of operations has the methods of these operations. -/
theorem planMethods_allowing {operations : Option (List String)}
    (hwithin : ∀ name, (options.allowing operations).includes name = true →
      options.includes name = true) {methods : List ClientMethod}
    (hplan : planMethods tables mapper options = .ok methods) :
    planMethods tables mapper (options.allowing operations) =
      .ok (methods.filter fun method => (options.allowing operations).includes method.name) := by
  rw [planMethods_eq] at hplan ⊢
  rw [Options.filter_selects_allowing hwithin, mapM_filter, hplan]
  · rfl
  · intro task _ method hmethod
    rw [(Task.plan_keeps hmethod).1]
  · intro task htask _
    obtain ⟨method, -, hmethod⟩ := exists_mem_of_mapM hplan htask
    exact ⟨method, hmethod⟩

/-- Only which operations are planned matters, not how they are listed. -/
theorem planMethods_allowing_congr {operations : Option (List String)}
    (hsame : ∀ name, (options.allowing operations).includes name = options.includes name) :
    planMethods tables mapper (options.allowing operations) = planMethods tables mapper options := by
  rw [planMethods_eq, planMethods_eq,
    Options.filter_selects_allowing fun name h => (hsame name).symm.trans h]
  congr 1
  refine List.filter_eq_self.mpr fun task htask => ?_
  have hselects := (List.mem_filter.mp htask).2
  rw [Options.selects, Bool.and_eq_true] at hselects
  exact (hsame _).trans hselects.1

/-- The methods that options select are planned in the order of operations, requests and variants.
All of them are planned, or planning stops at the first that fails. If the plan of a list of
operations succeeds, then so does that of a narrower list, and it has the methods of its operations
in the same order. Lists that allow the same operations have the same plan. -/
theorem planMethods_selected (model : CodeModel) (mapper : Mapper) (options : Options) :
    let selected := (everyTask model.operations).filter options.selects
    ((∃ methods, planMethods model.toTables mapper options = .ok methods) ↔
      ∀ task ∈ selected, ∃ method, task.plan model.toTables mapper = .ok method) ∧
    (∀ methods, planMethods model.toTables mapper options = .ok methods ↔
      List.Forall₂ (fun task method => task.plan model.toTables mapper = .ok method)
        selected methods) ∧
    (∀ error, planMethods model.toTables mapper options = .error error ↔
      ∃ before task after, selected = before ++ task :: after ∧
        (∀ earlier ∈ before, ∃ method, earlier.plan model.toTables mapper = .ok method) ∧
        task.plan model.toTables mapper = .error error) ∧
    ∀ operations,
      ((∀ name, (options.allowing operations).includes name = true →
          options.includes name = true) →
        ∀ methods, planMethods model.toTables mapper options = .ok methods →
          planMethods model.toTables mapper (options.allowing operations) =
            .ok (methods.filter fun method =>
              (options.allowing operations).includes method.name)) ∧
      ((∀ name, (options.allowing operations).includes name = options.includes name) →
        planMethods model.toTables mapper (options.allowing operations) =
          planMethods model.toTables mapper options) := by
  intro selected
  have hplan : planMethods model.toTables mapper options =
      selected.mapM (Task.plan model.toTables mapper) := planMethods_eq
  refine ⟨⟨fun ⟨methods, hmethods⟩ task htask => ?_, fun hall => ?_⟩, fun methods => ?_,
    fun error => ?_, fun operations => ⟨fun hwithin _ => planMethods_allowing hwithin,
      planMethods_allowing_congr⟩⟩
  · obtain ⟨method, -, hmethod⟩ := exists_mem_of_mapM (hplan.symm.trans hmethods) htask
    exact ⟨method, hmethod⟩
  · rw [hplan]
    exact exists_mapM_eq_ok hall
  · rw [hplan, mapM_eq_ok]
  · rw [hplan, mapM_eq_error]

/-- The page of a list is grouped by a text, which has no properties, and its name is spread from a
text without the property that it fills. The ping and the count take no parameters. -/
def brokenModel : CodeModel where
  schemas := [⟨"string", .scalar .string⟩]
  properties := []
  parameters := [
    ⟨"page", none, "page", 0, none, false, false, some 1, none, none⟩,
    ⟨"paging", none, "paging", 0, none, false, false, none, none, none⟩,
    ⟨"name", none, "name", 0, none, false, true, none, some 3, none⟩,
    ⟨"user", none, "user", 0, some ⟨some ⟨.body⟩⟩, true, true, none, none, none⟩]
  operations := [⟨"ping", [⟨[], [], none⟩]⟩, ⟨"list", [⟨[0, 2, 3], [], none⟩]⟩,
    ⟨"count", [⟨[], [], none⟩]⟩]
  checked := by rfl

/-- A method without parameters. -/
def bareMethod (name : String) (kind : MethodKind) : ClientMethod :=
  ⟨name, kind, none, none, "application/json", [], []⟩

/-- The list has no plan, but where only the count and the ping are allowed it does not matter. Of
these two the ping can be planned by itself. -/
theorem planMethods_selected_ping :
    let options : Options := { protocolMethods := true, operations := some ["count", "ping"] }
    let tables := brokenModel.toTables
    planMethods tables (.ofTables tables) {} =
        .error (.groupNotObject "list" "page" "paging" "string") ∧
      planMethods tables (.ofTables tables) options =
        .ok [bareMethod "ping" .convenience, bareMethod "ping" .protocol,
          bareMethod "count" .convenience, bareMethod "count" .protocol] ∧
      (∀ name, (options.allowing (some ["ping", "ping"])).includes name = true →
        options.includes name = true) ∧
      planMethods tables (.ofTables tables) (options.allowing (some ["ping", "ping"])) =
        .ok [bareMethod "ping" .convenience, bareMethod "ping" .protocol] := by
  intro options tables
  have hfails : planMethods tables (.ofTables tables) {} =
      .error (.groupNotObject "list" "page" "paging" "string") := by cbv
  have hplan : planMethods tables (.ofTables tables) options =
      .ok [bareMethod "ping" .convenience, bareMethod "ping" .protocol,
        bareMethod "count" .convenience, bareMethod "count" .protocol] := by cbv
  have hwithin : ∀ name, (options.allowing (some ["ping", "ping"])).includes name = true →
      options.includes name = true := by
    intro name hname
    have hping : name = "ping" := by simpa [Options.allowing, Options.includes] using hname
    rw [hping]
    rfl
  exact ⟨hfails, hplan, hwithin,
    ((planMethods_selected brokenModel (.ofTables tables) options).2.2.2 _).1 hwithin _ hplan⟩

end ClientPlan

import ClientPlan.Proofs.DerivedPlans
import Mathlib.Data.List.Permutation

/-!
# What derived plans read and cover

A derived signature leaves out every parameter that another one of the request was spread from,
also if that one is constant or its argument was replaced. The transformations go by the
arguments that stay registered. Where the two notions differ a plan can read an argument that
the method does not take, or drop a wire parameter. This file says exactly when it does neither.
-/

namespace ClientPlan

open Wire (CodeModel Request Tables)

/-- Every argument that a mapping reads has the name of an argument of the method. -/
def ClientMethod.ReadsArguments (method : ClientMethod) : Prop :=
  ∀ transformation ∈ method.transformations, ∀ mapping ∈ transformation.mappings,
    mapping.source.argument.name ∈ method.parameters.map (·.name)

/-- A wire parameter that is sent by itself: bound to HTTP, not constant and not spread. -/
def WireEntry.isSent (entry : WireEntry) : Bool :=
  entry.parameter.http.isSome && entry.parameter.spreadFrom.isNone && !entry.schema.isConstant

/-- What it takes for a wire parameter to be sent by itself. -/
theorem WireEntry.isSent_iff {entry : WireEntry} : entry.isSent = true ↔
    entry.parameter.http.isSome = true ∧ entry.parameter.spreadFrom = none ∧
      entry.schema.isConstant = false := by
  simp [isSent, and_assoc]

/-- The argument of every wire parameter that is sent by itself has the name of an argument of the
method or of a rebuilt parameter. -/
def ClientMethod.AccountsFor (method : ClientMethod) (tables : Tables) (request : Request) : Prop :=
  ∀ id ∈ request.parameters, ∀ entry argument, tables.entryAt id = .ok entry →
    entry.isSent = true → tables.argument id = .ok argument →
      argument.name ∈ method.parameters.map (·.name) ∨
        argument.name ∈ Transformation.names method.transformations

/-- The derived signature may lack an argument of its own for the entry: it is carried by another
parameter, or something was spread from it. -/
def WireEntry.isDisplaced (entries : List WireEntry) (entry : WireEntry) : Bool :=
  entry.carrier ≠ entry.id || entry.id ∈ wholesOf entries

section

variable {tables : Tables} {entries : List WireEntry} {entry : WireEntry}

/-- The carrier of an entry that nothing was spread from is taken. -/
theorem mem_takenNames_of_not_mem_wholesOf (hentry : entry ∈ entries)
    (hconstant : entry.schema.isConstant = false) (hwhole : entry.id ∉ wholesOf entries)
    {name : String} (hname : tables.shownNameAt entry.carrier = some name) :
    name ∈ takenNames tables entries :=
  List.mem_filterMap.mpr
    ⟨entry.carrier, mem_derivedSignature.mpr ⟨entry, hentry, hconstant, hwhole, rfl⟩, hname⟩

/-- An entry that is not displaced is taken under its own name. -/
theorem mem_takenNames_of_not_isDisplaced (hat : tables.entryAt entry.id = .ok entry)
    (hentry : entry ∈ entries) (hconstant : entry.schema.isConstant = false)
    (hdisplaced : entry.isDisplaced entries = false) :
    entry.parameter.shownName ∈ takenNames tables entries := by
  simp only [WireEntry.isDisplaced, Bool.or_eq_false_iff, decide_eq_false_iff_not, not_not]
    at hdisplaced
  refine mem_takenNames_of_not_mem_wholesOf hentry hconstant hdisplaced.2 ?_
  rw [hdisplaced.1, WireEntry.shownNameAt_id hat]

/-- A registered entry is one of the request and not constant. -/
theorem mem_of_mem_registered (h : entry ∈ registered entries) :
    entry ∈ entries ∧ entry.schema.isConstant = false := by
  obtain ⟨hentry, hregistrable⟩ := List.mem_filter.mp (mem_of_mem_lastOfEach _ h)
  simp only [WireEntry.isRegistrable, Bool.and_eq_true, Bool.not_eq_true'] at hregistrable
  exact ⟨hentry, hregistrable.2⟩

/-- An entry that is handed on is one of the request and not constant. -/
theorem mem_of_mem_handedOn (h : entry ∈ handedOn entries) :
    entry ∈ entries ∧ entry.schema.isConstant = false := by
  obtain ⟨hentry, hflattened⟩ := List.mem_filter.mp h
  simp only [WireEntry.isFlattened, Bool.and_eq_true, Bool.not_eq_true'] at hflattened
  exact ⟨hentry, hflattened.1.2⟩

/-- A registered entry that was not spread rebuilds a parameter of its own name. -/
theorem mem_rebuiltNames_of_mem_registered (hat : tables.entryAt entry.id = .ok entry)
    (h : entry ∈ registered entries) (hwhole : entry.parameter.spreadFrom = none) :
    entry.parameter.shownName ∈ rebuiltNames tables entries := by
  refine List.mem_filterMap.mpr ⟨entry, h, ?_⟩
  rw [WireEntry.rebuilds, hwhole]
  exact WireEntry.shownNameAt_id hat

/-- Which names a method must take to read its arguments only. -/
theorem ClientMethod.DerivedFrom.readsArguments_iff_names {method : ClientMethod}
    (h : method.DerivedFrom tables entries) : method.ReadsArguments ↔
      ∀ name, (name ∈ carrierNames tables entries ∨
        (name ∈ handedOnNames entries ∧ name ∉ rebuiltNames tables entries)) →
          name ∈ takenNames tables entries := by
  simp only [← h.read, ← h.taken]
  constructor
  · rintro hreads _ ⟨transformation, htransformation, mapping, hmapping, rfl⟩
    exact hreads transformation htransformation mapping hmapping
  · intro hnames transformation htransformation mapping hmapping
    exact hnames _ ⟨transformation, htransformation, mapping, hmapping, rfl⟩

/-- Which names a method must take or rebuild to account for the parameters of its request. -/
theorem ClientMethod.DerivedFrom.accountsFor_iff_names (model : CodeModel) {request : Request}
    {method : ClientMethod} (h : method.DerivedFrom model.toTables entries)
    (hentries : request.parameters.mapM model.toTables.entryAt = .ok entries) :
    method.AccountsFor model.toTables request ↔ ∀ entry ∈ entries, entry.isSent = true →
      entry.parameter.shownName ∈ takenNames model.toTables entries ∨
        entry.parameter.shownName ∈ rebuiltNames model.toTables entries ∨
          entry.parameter.shownName ∈ handedOnNames entries := by
  obtain ⟨hids, hat⟩ := Tables.map_id_of_mapM_entryAt hentries
  simp only [ClientMethod.AccountsFor, h.taken, h.rebuilt]
  constructor
  · intro haccounts entry hentry hsent
    have hlt := (List.getElem?_eq_some_iff.mp (Tables.entryAt_eq_ok.mp (hat entry hentry)).1).1
    obtain ⟨argument, hargument⟩ := model.exists_argument hlt
    have hid : entry.id ∈ request.parameters := hids ▸ List.mem_map_of_mem hentry
    rw [← WireEntry.name_argument (hat entry hentry) hargument]
    exact haccounts entry.id hid entry argument (hat entry hentry) hsent hargument
  · intro hnames id hid entry argument hentry hsent hargument
    obtain ⟨other, hother, hat'⟩ := exists_mem_of_mapM hentries hid
    cases hat'.symm.trans hentry
    cases (Tables.entryAt_eq_ok.mp hentry).2.2
    rw [WireEntry.name_argument hentry hargument]
    exact hnames entry hother hsent

end

/-- The plan of a request that spreads a user into two arguments and hands its settings on. -/
def userMethod : ClientMethod :=
  let user : Argument := ⟨"user", .model "User", true, some .body, false⟩
  let settings : Argument := ⟨"settings", .model "User", false, some .body, false⟩
  let field (name : String) : Mapping :=
    ⟨⟨textArgument name, none⟩, ⟨user, some ⟨name, name, .string, true⟩, some name⟩⟩
  { name := "addUser"
    kind := .convenience
    httpMethod := none
    path := none
    contentType := "application/json"
    parameters := [settings, textArgument "name", textArgument "age"]
    transformations :=
      [⟨user, [field "name", field "age"]⟩, ⟨settings, [.direct settings]⟩] }

/-- The request is planned so. -/
theorem plan_userRequest : ClientMethod.plan userModel.toTables (.ofTables userModel.toTables)
    "addUser" userRequest .convenience = .ok userMethod := by cbv

/-- A request that sends an event together with its kind. -/
def eventRequest : Request := ⟨[0, 1], [], none⟩

/-- An event, flattened or not, from which its kind was spread. The kind is constant. -/
def eventModel (flattened : Bool) : CodeModel where
  schemas := [⟨"Event", .object [0]⟩, ⟨"string", .scalar .string⟩,
    ⟨"Kind", .constant (.text "created") 1⟩]
  properties := [⟨"kind", none, "kind", 2, false⟩]
  parameters := [
    ⟨"event", none, "event", 0, inBody, flattened, false, none, none, none⟩,
    ⟨"kind", none, "kind", 2, none, false, false, none, some 0, some 0⟩]
  operations := [⟨"send", [eventRequest]⟩]
  checked := by cases flattened <;> rfl

/-- The argument of the event. -/
def eventArgument : Argument := ⟨"event", .model "Event", false, some .body, false⟩

/-- The plan of a request without a fixed signature reads only arguments that the method takes,
exactly when the following have the name of one that is taken: the carrier of every registered
parameter that something was spread from, and every displaced parameter that is handed on under a
name that no registered one rebuilds. -/
theorem readsArguments_iff (model : CodeModel) {operation : String} {request : Request}
    {method : ClientMethod} (hderived : request.signatureParameters = [])
    (hplan : ClientMethod.plan model.toTables (.ofTables model.toTables) operation request
      .convenience = .ok method) :
    ∃ entries, request.parameters.mapM model.toTables.entryAt = .ok entries ∧
      (method.ReadsArguments ↔
        (∀ entry ∈ registered entries, entry.id ∈ wholesOf entries →
          ∀ name ∈ model.toTables.shownNameAt entry.carrier,
            name ∈ takenNames model.toTables entries) ∧
        ∀ entry ∈ handedOn entries, entry.isDisplaced entries = true →
          entry.parameter.shownName ∉ rebuiltNames model.toTables entries →
            entry.parameter.shownName ∈ takenNames model.toTables entries) := by
  obtain ⟨entries, hentries, hnames⟩ := ClientMethod.exists_derivedFrom model hderived hplan
  have hat := (Tables.map_id_of_mapM_entryAt hentries).2
  refine ⟨entries, hentries, hnames.readsArguments_iff_names.trans
    ⟨fun h => ⟨?_, ?_⟩, fun ⟨hcarried, hhanded⟩ => ?_⟩⟩
  · intro entry hentry _ name hname
    exact h name (Or.inl (List.mem_filterMap.mpr ⟨entry, hentry, hname⟩))
  · intro entry hentry _ hrebuilt
    exact h _ (Or.inr ⟨List.mem_map_of_mem hentry, hrebuilt⟩)
  · rintro name (hname | ⟨hname, hrebuilt⟩)
    · obtain ⟨entry, hentry, hname⟩ := List.mem_filterMap.mp hname
      obtain ⟨hmem, hconstant⟩ := mem_of_mem_registered hentry
      by_cases hwhole : entry.id ∈ wholesOf entries
      · exact hcarried entry hentry hwhole name hname
      · exact mem_takenNames_of_not_mem_wholesOf hmem hconstant hwhole hname
    · obtain ⟨entry, hentry, rfl⟩ := List.mem_map.mp hname
      obtain ⟨hmem, hconstant⟩ := mem_of_mem_handedOn hentry
      cases hdisplaced : entry.isDisplaced entries with
      | true => exact hhanded entry hentry hdisplaced hrebuilt
      | false => exact mem_takenNames_of_not_isDisplaced (hat entry hmem) hmem hconstant hdisplaced

/-- The request that adds a user has a plan, and what it reads is settled so. -/
theorem readsArguments_iff_user :
    userRequest.signatureParameters = [] ∧
      ClientMethod.plan userModel.toTables (.ofTables userModel.toTables) "addUser" userRequest
        .convenience = .ok userMethod ∧
      ∃ entries, userRequest.parameters.mapM userModel.toTables.entryAt = .ok entries ∧
        (userMethod.ReadsArguments ↔
          (∀ entry ∈ registered entries, entry.id ∈ wholesOf entries →
            ∀ name ∈ userModel.toTables.shownNameAt entry.carrier,
              name ∈ takenNames userModel.toTables entries) ∧
          ∀ entry ∈ handedOn entries, entry.isDisplaced entries = true →
            entry.parameter.shownName ∉ rebuiltNames userModel.toTables entries →
              entry.parameter.shownName ∈ takenNames userModel.toTables entries) :=
  ⟨rfl, plan_userRequest, readsArguments_iff userModel rfl plan_userRequest⟩

/-- The flattened event is read, but not taken: its constant kind was spread from it. -/
theorem exists_plan_not_readsArguments :
    ⟨"send", [eventRequest]⟩ ∈ (eventModel true).operations ∧
      eventRequest.signatureParameters = [] ∧
      ∃ method, ClientMethod.plan (eventModel true).toTables (.ofTables (eventModel true).toTables)
        "send" eventRequest .convenience = .ok method ∧ ¬ method.ReadsArguments := by
  refine ⟨List.mem_cons_self, rfl, ⟨"send", .convenience, none, none, "application/json", [],
    [⟨eventArgument, [.direct eventArgument]⟩]⟩, by cbv, fun h => ?_⟩
  exact List.not_mem_nil (h _ List.mem_cons_self _ List.mem_cons_self)

/-- The plan of a request without a fixed signature accounts for every wire parameter that is sent
by itself, exactly when those that are displaced and not registered themselves have the name of
an argument that is taken, of a parameter that is rebuilt, or of one that is handed on. -/
theorem accountsFor_iff (model : CodeModel) {operation : String} {request : Request}
    {method : ClientMethod} (hderived : request.signatureParameters = [])
    (hplan : ClientMethod.plan model.toTables (.ofTables model.toTables) operation request
      .convenience = .ok method) :
    ∃ entries, request.parameters.mapM model.toTables.entryAt = .ok entries ∧
      (method.AccountsFor model.toTables request ↔
        ∀ entry ∈ entries, entry.isSent = true → entry.isDisplaced entries = true →
          entry ∉ registered entries →
            entry.parameter.shownName ∈ takenNames model.toTables entries ∨
              entry.parameter.shownName ∈ rebuiltNames model.toTables entries ∨
                entry.parameter.shownName ∈ handedOnNames entries) := by
  obtain ⟨entries, hentries, hnames⟩ := ClientMethod.exists_derivedFrom model hderived hplan
  have hat := (Tables.map_id_of_mapM_entryAt hentries).2
  refine ⟨entries, hentries, (hnames.accountsFor_iff_names model hentries).trans ⟨?_, ?_⟩⟩
  · exact fun h entry hentry hsent _ _ => h entry hentry hsent
  · intro h entry hentry hsent
    obtain ⟨-, hwhole, hconstant⟩ := WireEntry.isSent_iff.mp hsent
    cases hdisplaced : entry.isDisplaced entries with
    | false =>
      exact Or.inl
        (mem_takenNames_of_not_isDisplaced (hat entry hentry) hentry hconstant hdisplaced)
    | true =>
      by_cases hregistered : entry ∈ registered entries
      · exact Or.inr (Or.inl
          (mem_rebuiltNames_of_mem_registered (hat entry hentry) hregistered hwhole))
      · exact h entry hentry hsent hdisplaced hregistered

/-- The request that adds a user has a plan, and what it accounts for is settled so. -/
theorem accountsFor_iff_user :
    userRequest.signatureParameters = [] ∧
      ClientMethod.plan userModel.toTables (.ofTables userModel.toTables) "addUser" userRequest
        .convenience = .ok userMethod ∧
      ∃ entries, userRequest.parameters.mapM userModel.toTables.entryAt = .ok entries ∧
        (userMethod.AccountsFor userModel.toTables userRequest ↔
          ∀ entry ∈ entries, entry.isSent = true → entry.isDisplaced entries = true →
            entry ∉ registered entries →
              entry.parameter.shownName ∈ takenNames userModel.toTables entries ∨
                entry.parameter.shownName ∈ rebuiltNames userModel.toTables entries ∨
                  entry.parameter.shownName ∈ handedOnNames entries) :=
  ⟨rfl, plan_userRequest, accountsFor_iff userModel rfl plan_userRequest⟩

/-- The event is sent, but neither taken nor rebuilt: its constant kind was spread from it. -/
theorem exists_plan_not_accountsFor :
    ⟨"send", [eventRequest]⟩ ∈ (eventModel false).operations ∧
      eventRequest.signatureParameters = [] ∧
      ∃ method, ClientMethod.plan (eventModel false).toTables
        (.ofTables (eventModel false).toTables) "send" eventRequest .convenience = .ok method ∧
          ¬ method.AccountsFor (eventModel false).toTables eventRequest := by
  refine ⟨List.mem_cons_self, rfl, ⟨"send", .convenience, none, none, "application/json", [], []⟩,
    by cbv, fun h => ?_⟩
  have hevent := h 0 List.mem_cons_self _ eventArgument rfl rfl rfl
  exact hevent.elim List.not_mem_nil List.not_mem_nil

end ClientPlan

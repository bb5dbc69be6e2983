import ClientPlan.Method.Plan
import ClientPlan.Proofs.Descriptions
import ClientPlan.Proofs.Keyed

/-!
# Runs of offers

Arguments are offered to a registry one by one. Those made from a grouped or spread parameter
that is not constant are accepted, and a later one takes the place of an earlier one of its
name. After a whole run the registry holds, of the accepted offers under each name, the last.
-/

namespace ClientPlan

open Wire (CodeModel Parameter ParameterId Tables)

/-- An argument made from a grouped or spread parameter is registered, unless it is constant. -/
def WireEntry.isRegistrable (entry : WireEntry) : Bool :=
  entry.parameter.isLinked && !entry.schema.isConstant

/-- What it takes to be registered. -/
theorem WireEntry.isRegistrable_iff {entry : WireEntry} : entry.isRegistrable = true ↔
    entry.parameter.isLinked = true ∧ entry.schema.isConstant = false := by
  simp [isRegistrable]

namespace Wire.Tables

variable {tables : Tables} {id : ParameterId} {entry : WireEntry}

/-- The tables hold a parameter whose argument is registered. -/
def accepts (tables : Tables) (id : ParameterId) : Bool :=
  match tables.entryAt id with
  | .ok entry => entry.isRegistrable
  | .error _ => false

/-- A wire entry is a parameter with the schema it points to. -/
theorem entryAt_eq_ok : tables.entryAt id = .ok entry ↔
    tables.parameters[id]? = some entry.parameter ∧
      tables.schemas[entry.parameter.schema]? = some entry.schema ∧ entry.id = id := by
  simp only [entryAt, bind_eq_ok, parameterAt_eq_ok, schemaAt_eq_ok, pure_eq_ok]
  constructor
  · rintro ⟨parameter, hparameter, schema, hschema, rfl⟩
    exact ⟨hparameter, hschema, rfl⟩
  · rintro ⟨hparameter, hschema, rfl⟩
    exact ⟨entry.parameter, hparameter, entry.schema, hschema, rfl⟩

/-- The entries of a request stand for its parameters, one by one. -/
theorem map_id_of_mapM_entryAt {ids : List ParameterId} {entries : List WireEntry}
    (h : ids.mapM tables.entryAt = .ok entries) :
    entries.map (·.id) = ids ∧ ∀ entry ∈ entries, tables.entryAt entry.id = .ok entry := by
  have hsteps := mapM_eq_ok.mp h
  clear h
  induction hsteps with
  | nil => exact ⟨rfl, fun _ hmem => absurd hmem List.not_mem_nil⟩
  | @cons id entry _ _ hstep _ ih =>
    have hid := (entryAt_eq_ok.mp hstep).2.2
    exact ⟨by rw [List.map_cons, hid, ih.1], List.forall_mem_cons.mpr ⟨hid ▸ hstep, ih.2⟩⟩

/-- The offer of an entry is accepted exactly when it is registrable. -/
theorem accepts_eq (h : tables.entryAt id = .ok entry) :
    tables.accepts id = entry.isRegistrable := by
  simp only [accepts, h]

/-- An accepted parameter stands in the tables as an entry that is registrable. -/
theorem accepts_iff : tables.accepts id = true ↔
    ∃ entry, tables.entryAt id = .ok entry ∧ entry.isRegistrable = true := by
  unfold accepts
  cases tables.entryAt id <;> simp

end Wire.Tables

/-- An accepted parameter is grouped or spread. -/
theorem isLinked_of_accepts {tables : Tables} {id : ParameterId} {parameter : Parameter}
    (haccepts : tables.accepts id = true) (hparameter : tables.parameters[id]? = some parameter) :
    parameter.isLinked = true := by
  obtain ⟨entry, hentry, hregistrable⟩ := Tables.accepts_iff.mp haccepts
  cases hparameter.symm.trans (Tables.entryAt_eq_ok.mp hentry).1
  exact (WireEntry.isRegistrable_iff.mp hregistrable).1

/-- Every parameter of a code model stands in its table together with its schema. -/
theorem Wire.CodeModel.exists_entryAt (model : CodeModel) {id : ParameterId}
    (h : id < model.parameters.length) : ∃ entry, model.toTables.entryAt id = .ok entry := by
  have hat := List.getElem?_eq_getElem h
  obtain ⟨schema, hschema⟩ := model.exists_schemaAt hat
  exact ⟨⟨id, _, schema⟩, Tables.entryAt_eq_ok.mpr ⟨hat, Tables.schemaAt_eq_ok.mp hschema, rfl⟩⟩

namespace Registration

private theorem ne_of_forall_lt {name : String} {entries : List Registration}
    (h : ∀ entry ∈ entries, name < entry.argument.name) :
    ∀ entry ∈ entries, entry.argument.name ≠ name := by
  intro entry hentry heq
  have hlt := h entry hentry
  rw [heq] at hlt
  exact String.lt_irrefl _ hlt

/-- A placed registration stands among all others that have different names. -/
theorem mem_place {registration other : Registration} {entries : List Registration}
    (hordered : entries.Pairwise fun left right => left.argument.name < right.argument.name) :
    other ∈ registration.place entries ↔
      other = registration ∨
        (other ∈ entries ∧ other.argument.name ≠ registration.argument.name) := by
  induction entries with
  | nil => simp [place]
  | cons entry rest ih =>
    obtain ⟨hentry, hrest⟩ := List.pairwise_cons.mp hordered
    unfold place
    split
    next hlt =>
      have hall : ∀ entry' ∈ entry :: rest, registration.argument.name < entry'.argument.name :=
        List.forall_mem_cons.mpr
          ⟨hlt, fun entry' hentry' => String.lt_trans hlt (hentry entry' hentry')⟩
      rw [List.mem_cons]
      exact or_congr_right ⟨fun hmem => ⟨hmem, ne_of_forall_lt hall other hmem⟩, And.left⟩
    next hnlt =>
      split
      next heq =>
        have hne := ne_of_forall_lt hentry other
        rw [← heq] at hne
        rw [List.mem_cons, List.mem_cons]
        constructor
        · exact fun h => h.imp_right fun hmem => ⟨Or.inr hmem, hne hmem⟩
        · rintro (h | ⟨rfl | hmem, hname⟩)
          · exact Or.inl h
          · exact absurd heq.symm hname
          · exact Or.inr hmem
      next hne =>
        rw [List.mem_cons, List.mem_cons, ih hrest]
        constructor
        · rintro (rfl | h | ⟨hmem, hname⟩)
          · exact Or.inr ⟨Or.inl rfl, Ne.symm hne⟩
          · exact Or.inl h
          · exact Or.inr ⟨Or.inr hmem, hname⟩
        · rintro (h | ⟨rfl | hmem, hname⟩)
          · exact Or.inr (Or.inl h)
          · exact Or.inl rfl
          · exact Or.inr (Or.inr ⟨hmem, hname⟩)

end Registration

namespace Registry

variable {tables : Tables} {registry : Registry} {offered : Registration}

/-- The registry after an offer. One that fails leaves it as it is. -/
def offer (tables : Tables) (registry : Registry) (offered : Registration) : Registry :=
  match registry.add tables offered.argument offered.parameter with
  | .ok registry => registry
  | .error _ => registry

/-- The registry after a run of offers. -/
def offerAll (tables : Tables) (registry : Registry) (offers : List Registration) : Registry :=
  offers.foldl (offer tables) registry

/-- An offer made from a parameter of the tables succeeds, and inserts a registration if it is
accepted. -/
theorem add_eq_ok {argument : Argument} {id : ParameterId} {entry : WireEntry}
    (h : tables.entryAt id = .ok entry) :
    registry.add tables argument id =
      .ok (if !registry.isProtocol && entry.isRegistrable then registry.insert ⟨argument, id⟩
        else registry) := by
  obtain ⟨hparameter, hschema, -⟩ := Tables.entryAt_eq_ok.mp h
  have hskip : (registry.isProtocol || entry.schema.isConstant || !entry.parameter.isLinked) =
      !(!registry.isProtocol && entry.isRegistrable) := by
    unfold WireEntry.isRegistrable
    cases registry.isProtocol <;> cases entry.schema.isConstant <;>
      cases entry.parameter.isLinked <;> rfl
  simp only [add, hparameter, Tables.schemaAt, hschema, bind, Except.bind, hskip]
  by_cases htaken : (!registry.isProtocol && entry.isRegistrable) = true
  · simp [htaken, pure, Except.pure]
  · rw [Bool.not_eq_true] at htaken
    simp [htaken, pure, Except.pure]

/-- An offer made from no parameter of the tables fails. -/
theorem exists_add_eq_error (registry : Registry) (argument : Argument) {id : ParameterId}
    {error : PlanError} (h : tables.entryAt id = .error error) :
    ∃ error, registry.add tables argument id = .error error := by
  unfold add
  cases hparameter : tables.parameters[id]? with
  | none => exact ⟨_, rfl⟩
  | some parameter =>
    have hat := Tables.parameterAt_eq_ok.mpr hparameter
    cases hschema : tables.schemaAt parameter.schema with
    | error cause => exact ⟨cause, bind_eq_error.mpr (Or.inl hschema)⟩
    | ok schema =>
      have hentry : tables.entryAt id = .ok ⟨id, parameter, schema⟩ :=
        Tables.entryAt_eq_ok.mpr ⟨hparameter, Tables.schemaAt_eq_ok.mp hschema, rfl⟩
      cases hentry.symm.trans h

/-- What an offer to the registry of a convenience method does. -/
theorem offer_eq (hkind : registry.isProtocol = false) :
    registry.offer tables offered =
      if tables.accepts offered.parameter then registry.insert offered else registry := by
  unfold offer
  cases hentry : tables.entryAt offered.parameter with
  | ok entry => simp [add_eq_ok hentry, hkind, Tables.accepts_eq hentry]
  | error cause =>
    obtain ⟨error, herror⟩ := exists_add_eq_error registry offered.argument hentry
    simp [herror, Tables.accepts, hentry]

/-- The registry of a protocol method takes no offer. -/
theorem offer_eq_self (hkind : registry.isProtocol = true) :
    registry.offer tables offered = registry := by
  unfold offer
  cases hentry : tables.entryAt offered.parameter with
  | ok entry => simp [add_eq_ok hentry, hkind]
  | error cause =>
    obtain ⟨error, herror⟩ := exists_add_eq_error registry offered.argument hentry
    simp [herror]

/-- Offers change neither the operation nor the kind of a method. -/
theorem offer_keeps : (registry.offer tables offered).operation = registry.operation ∧
    (registry.offer tables offered).isProtocol = registry.isProtocol := by
  cases hkind : registry.isProtocol with
  | true => rw [offer_eq_self hkind]; exact ⟨rfl, hkind⟩
  | false =>
    rw [offer_eq hkind]
    split
    · exact ⟨rfl, hkind⟩
    · exact ⟨rfl, hkind⟩

/-- Whole runs of offers change neither the operation nor the kind of a method. -/
theorem offerAll_keeps (tables : Tables) (registry : Registry) (offers : List Registration) :
    (registry.offerAll tables offers).operation = registry.operation ∧
      (registry.offerAll tables offers).isProtocol = registry.isProtocol := by
  induction offers generalizing registry with
  | nil => exact ⟨rfl, rfl⟩
  | cons offered offers ih =>
    obtain ⟨hoperation, hkind⟩ := ih (registry.offer tables offered)
    exact ⟨hoperation.trans offer_keeps.1, hkind.trans offer_keeps.2⟩

/-- No run of offers fills the registry of a protocol method. -/
theorem offerAll_eq_self (hkind : registry.isProtocol = true) (offers : List Registration) :
    registry.offerAll tables offers = registry := by
  induction offers with
  | nil => rfl
  | cons offered offers ih => rwa [offerAll, List.foldl_cons, offer_eq_self hkind]

/-- Inserting a registration leaves those of other names. -/
theorem mem_insert {registration : Registration} :
    registration ∈ (registry.insert offered).entries ↔ registration = offered ∨
      (registration ∈ registry.entries ∧ registration.argument.name ≠ offered.argument.name) :=
  Registration.mem_place registry.ordered

end Registry

/-- The registrations that a run of offers leaves: of the accepted ones under each name the last. -/
def surviving (tables : Tables) (offers : List Registration) : List Registration :=
  lastOfEach (·.argument.name) (offers.filter fun offered => tables.accepts offered.parameter)

/-- A survivor is an accepted offer. -/
theorem accepts_of_mem_surviving {tables : Tables} {offers : List Registration}
    {registration : Registration} (h : registration ∈ surviving tables offers) :
    registration ∈ offers ∧ tables.accepts registration.parameter = true :=
  List.mem_filter.mp (mem_of_mem_lastOfEach _ h)

/-- What one more offer does to the survivors. -/
theorem mem_surviving_concat {tables : Tables} {offers : List Registration}
    {offered registration : Registration} :
    registration ∈ surviving tables (offers ++ [offered]) ↔
      if tables.accepts offered.parameter then
        registration = offered ∨ (registration ∈ surviving tables offers ∧
          registration.argument.name ≠ offered.argument.name)
      else registration ∈ surviving tables offers := by
  unfold surviving
  rw [List.filter_append, List.filter_cons, List.filter_nil]
  split
  next haccepted =>
    rw [lastOfEach_concat, List.mem_append, List.mem_filter, List.mem_singleton,
      decide_eq_true_eq, or_comm]
  next => rw [List.append_nil]

namespace Registry

variable {tables : Tables} {offers : List Registration}

/-- A registry holds the survivors of the offers that were made to it. -/
theorem mem_entries_offerAll (operation : String) {registration : Registration} :
    registration ∈ ((Registry.new operation false).offerAll tables offers).entries ↔
      registration ∈ surviving tables offers := by
  induction offers using List.reverseRecOn with
  | nil => exact Iff.rfl
  | append_singleton offers offered ih =>
    have hkind := (offerAll_keeps tables (Registry.new operation false) offers).2
    rw [offerAll, List.foldl_append, List.foldl_cons, List.foldl_nil, ← offerAll, offer_eq hkind,
      mem_surviving_concat]
    split
    · rw [mem_insert, ih]
    · exact ih

/-- No two registrations of a registry have the same argument name. -/
theorem nodup_names (registry : Registry) : (registry.entries.map (·.argument.name)).Nodup :=
  List.pairwise_map.mpr (registry.ordered.imp String.ne_of_lt)

/-- A registry holds no registration twice. -/
theorem nodup_entries (registry : Registry) : registry.entries.Nodup :=
  registry.nodup_names.of_map

/-- A registry holds the survivors of the offers that were made to it, each once. -/
theorem entries_offerAll_perm (operation : String) :
    ((Registry.new operation false).offerAll tables offers).entries.Perm
      (surviving tables offers) :=
  (List.perm_ext_iff_of_nodup (nodup_entries _) (nodup_map_lastOfEach _ _).of_map).mpr
    fun _ => mem_entries_offerAll operation

end Registry

end ClientPlan

import ClientPlan.Proofs.FormatReading
import ClientPlan.Proofs.FormatSchemas
import ClientPlan.Proofs.Json.Printing
import ClientPlan.Proofs.Validation

/-!
# Loading written tables

A text that writes tables in the format of code models is read as these tables. The order of keys,
blanks and escapes, fields that may be left out and members that the format does not know make no
difference, and what the check says about the tables settles whether the text is a code model.
-/

namespace ClientPlan.Wire

open Json

variable {room : Nat} {value : Value}

namespace Schema

/-- Equal schemas hold the same ids. -/
theorem Alike.references_eq {schema schema' : Schema} (h : schema.Alike schema') :
    schema.references = schema'.references := by
  obtain ⟨name, kind⟩ := schema
  obtain ⟨name', kind'⟩ := schema'
  obtain ⟨rfl, hkind⟩ := h
  cases hkind <;> rfl

/-- Equal schemas point to the same schema. -/
theorem Alike.next?_eq {schema schema' : Schema} (h : schema.Alike schema') :
    schema.next? = schema'.next? := by
  obtain ⟨name, kind⟩ := schema
  obtain ⟨name', kind'⟩ := schema'
  obtain ⟨rfl, hkind⟩ := h
  cases hkind <;> rfl

end Schema

namespace Tables

variable {tables tables' : Tables}

/-- Equal tables have equal lengths. -/
theorem Alike.length_eq (h : tables.Alike tables') (table : Table) :
    tables.length table = tables'.length table := by
  cases table with
  | schemas => exact h.schemas.length_eq
  | properties => exact congrArg List.length h.properties
  | parameters => exact congrArg List.length h.parameters

/-- Equal tables check ids alike. -/
theorem Alike.checkReference_eq (h : tables.Alike tables') :
    tables.checkReference = tables'.checkReference := by
  funext reference
  rw [checkReference, checkReference, checkId, checkId, h.length_eq]

/-- Equal tables hold the same ids. -/
theorem Alike.references_eq (h : tables.Alike tables') :
    tables.references = tables'.references := by
  have hschemas : tables.schemas.flatMap Schema.references =
      tables'.schemas.flatMap Schema.references :=
    flatMap_eq_of_forall₂ (h.schemas.imp fun _ _ hschema => hschema.references_eq)
  rw [references, references, hschemas, h.properties, h.parameters, h.operations]

/-- Chains of element types end alike in equal tables. -/
theorem Alike.endsWithin_eq (h : tables.Alike tables') (steps : Nat) {schema schema' : Schema}
    (hschema : schema.Alike schema') :
    tables.endsWithin steps schema = tables'.endsWithin steps schema' := by
  induction steps generalizing schema schema' with
  | zero =>
    rw [endsWithin.eq_def tables, endsWithin.eq_def tables']
    dsimp only
    rw [hschema.next?_eq]
    cases schema'.next? <;> rfl
  | succ steps ih =>
    rw [endsWithin.eq_def tables, endsWithin.eq_def tables']
    dsimp only
    rw [hschema.next?_eq]
    cases schema'.next? with
    | none => rfl
    | some next =>
      dsimp only
      have hnext := rel_getElem?_of_forall₂ h.schemas next
      generalize tables.schemas[next]? = found, tables'.schemas[next]? = found' at hnext ⊢
      cases hnext with
      | none => rfl
      | some halike => exact ih halike

/-- Equal tables pass or fail the check alike. -/
theorem Alike.check_eq (h : tables.Alike tables') : tables.check = tables'.check := by
  have hends : tables.schemas.forM tables.checkEnds = tables'.schemas.forM tables'.checkEnds := by
    refine forM_eq_of_forall₂ (h.schemas.imp fun schema schema' hschema => ?_)
    rw [checkEnds, checkEnds, h.schemas.length_eq, h.endsWithin_eq _ hschema, hschema.name]
  rw [Tables.check_eq, Tables.check_eq, h.references_eq, h.checkReference_eq, hends]

end Tables

namespace Reading

/-- The slots of the tables of a code model. -/
def tablesSlots (room : Nat) (content : Tables) : List (Slot Node TablesState) :=
  [ ⟨"schemas", .optional, schema.list room, (·.schemas),
      fun state schemas => { state with schemas := some schemas }, [], content.schemas⟩,
    ⟨"properties", .optional, property.list room, (·.properties),
      fun state properties => { state with properties := some properties }, [],
      content.properties⟩,
    ⟨"parameters", .optional, parameter.list room, (·.parameters),
      fun state parameters => { state with parameters := some parameters }, [],
      content.parameters⟩,
    ⟨"operations", .optional, operation.list room, (·.operations),
      fun state operations => { state with operations := some operations }, [],
      content.operations⟩ ]

/-- The slots of the tables make them up. -/
theorem tablesSlots_lay (room : Nat) (content : Tables) :
    tablesRecord.Lays room content (tablesSlots room content) where
  fields := rfl
  fill := ⟨by simp [tablesSlots], by simp [tablesSlots], by simp [tablesSlots, tablesRecord]⟩
  build state h := by
    simp only [tablesSlots, List.forall_mem_cons] at h
    obtain ⟨hschemas, hproperties, hparameters, hoperations, -⟩ := h
    simp only [tablesRecord, hschemas, hproperties, hparameters, hoperations]

/-- Written schemas are read, up to the order of members in their constant values. -/
theorem exists_decodes_schemas {contents : List Schema} (hroom : 1 ≤ room)
    (hplain : ∀ schema ∈ contents, schema.HasPlainConstant room)
    (h : Writing.list Format.schema contents value) :
    ∃ contents', List.Forall₂ Schema.Alike contents' contents ∧
      Writing.list (fun content value => Decodes Node.Denotes (schema (room + 1)) value content)
        contents' value := by
  obtain ⟨values, rfl, hvalues⟩ := h
  obtain ⟨contents', halike, hdecodes⟩ := exists_forall₂_between hvalues
    fun content hcontent value hwrites =>
      exists_decodes_schema hroom (hplain content hcontent) hwrites
  exact ⟨contents', halike, values, rfl, hdecodes⟩

/-- Written tables are read, up to the order of members in constant values. -/
theorem exists_decodes_tables {content : Tables}
    (hplain : ∀ schema ∈ content.schemas, schema.HasPlainConstant (room + 5))
    (h : Format.tables content value) :
    ∃ read : Tables, read.Alike content ∧
      Decodes Node.Denotes (tablesRecord.decode (room + 8)) value read := by
  obtain ⟨members, rfl, hholds, hothers⟩ := h
  obtain ⟨hschemas, hrest⟩ := List.forall_mem_cons.mp hholds
  obtain ⟨schemas, halike, hread⟩ : ∃ schemas, List.Forall₂ Schema.Alike schemas content.schemas ∧
      (Entry.defaulted "schemas" (.list fun content value =>
        Decodes Node.Denotes (schema (room + 5 + 1)) value content) [] schemas).holds
        (under "schemas" members) := by
    rcases hschemas with ⟨hnil, hempty⟩ | ⟨value, hone, hlist⟩
    · exact ⟨[], by rw [hempty]; exact .nil, Or.inl ⟨hnil, rfl⟩⟩
    · obtain ⟨schemas, halike, hdecodes⟩ := exists_decodes_schemas (by omega) hplain hlist
      exact ⟨schemas, halike, Or.inr ⟨value, hone, hdecodes⟩⟩
  refine ⟨{ content with schemas := schemas }, ⟨halike, rfl, rfl, rfl⟩, ?_⟩
  refine (tablesSlots_lay (room + 7) _).decodes
    (.cons (Slot.accepts_defaulted (by decide) (Decoder.decodes_list id)) <|
      .cons (Slot.accepts_defaulted (by decide) (Decoder.decodes_list decodes_property)) <|
      .cons (Slot.accepts_defaulted (by decide) (Decoder.decodes_list decodes_parameter)) <|
      .cons (Slot.accepts_defaulted (by decide) (Decoder.decodes_list decodes_operation)) .nil)
    ⟨members, rfl, List.forall_mem_cons.mpr ⟨hread, hrest⟩, hothers⟩

end Reading

/-- Tables that become a code model are its tables, and they passed their check. -/
theorem CodeModel.ofTables_eq_ok {tables : Tables} {model : CodeModel}
    (h : CodeModel.ofTables tables = .ok model) :
    model.toTables = tables ∧ tables.check = .ok () := by
  cases hcheck : tables.check with
  | error error =>
    have hrefused := CodeModel.ofTables_eq_error.mpr hcheck
    cases hrefused.symm.trans h
  | ok =>
    obtain ⟨model', hmodel', rfl⟩ := CodeModel.exists_ofTables_eq_ok.mpr hcheck
    cases hmodel'.symm.trans h
    exact ⟨rfl, rfl⟩

/-- Loading undoes writing. Tables whose constants are plain and not nested deeper than a hundred
containers are read from every text that writes them, entry by entry in order, with constant values
equal as JSON values. Such a text is a code model exactly if the tables pass their check, and if
they do not, its error is that of the check. -/
theorem ofText_of_writtenBy {tables : Tables} {text : String}
    (hplain : ∀ schema ∈ tables.schemas, schema.HasPlainConstant 100)
    (hwritten : tables.WrittenBy text) :
    ∃ read : Tables, read.Alike tables ∧ Tables.ofText text = .ok read ∧
      (∀ model, CodeModel.ofText text = .ok model → model.toTables = read) ∧
      ((∃ model, CodeModel.ofText text = .ok model) ↔ tables.check = .ok ()) ∧
      ∀ error, CodeModel.ofText text = .error (.tables error) ↔ tables.check = .error error := by
  obtain ⟨value, hspells, hformat⟩ := hwritten
  obtain ⟨node, hdraft, hnode⟩ := hspells.exists_ofText_eq
  -- Texts may nest 127 containers, and three of them lie around a constant.
  have hplain' : ∀ schema ∈ tables.schemas, schema.HasPlainConstant (119 + 5) :=
    fun schema hschema => (hplain schema hschema).mono (by decide)
  obtain ⟨read, halike, hdecodes⟩ := Reading.exists_decodes_tables hplain' hformat
  have hread : Tables.ofText text = .ok read := by
    have hroot : Reading.tablesRecord.decode containerLimit node = .ok read := hdecodes node hnode
    simp only [Tables.ofText, Decoder.run, hdraft, hroot, Bool.false_eq_true, if_false, bind,
      Except.bind, pure, Except.pure]
  have hload : CodeModel.ofText text = (CodeModel.ofTables read).mapError .tables := by
    simp only [CodeModel.ofText, hread, Except.mapError, bind, Except.bind]
  rw [← halike.check_eq, hload]
  simp only [mapError_eq_ok, mapError_eq_error]
  refine ⟨read, halike, hread, fun model hmodel => (CodeModel.ofTables_eq_ok hmodel).1,
    ⟨fun ⟨model, hmodel⟩ => (CodeModel.ofTables_eq_ok hmodel).2, fun hcheck => ?_⟩,
    fun error => ⟨?_, fun herror => ⟨error, CodeModel.ofTables_eq_error.mpr herror, rfl⟩⟩⟩
  · obtain ⟨model, hmodel, -⟩ := CodeModel.exists_ofTables_eq_ok.mpr hcheck
    exact ⟨model, hmodel⟩
  · rintro ⟨cause, hcause, heq⟩
    cases heq
    exact CodeModel.ofTables_eq_error.mp hcause

/-- A flag whose value is always the same, and the schema of that value. -/
def flagTables : Tables where
  schemas :=
    [ ⟨"Flag\n", .constant
        (.object [("a", .null), ("b", .list [.number (.integer (-1))])]) 1⟩,
      ⟨"any", .scalar .any⟩ ]
  properties := []
  parameters := []
  operations := []

/-- The schemas of the flag, with their keys out of order and one that is not known. -/
def flagSchemas : Value :=
  .list
    [ .object
        [ ("value", .object [("b", .list [.number (.integer (-1))]), ("a", .null)]),
          ("note", .boolean true), ("type", .text "constant"), ("name", .text "Flag\n"),
          ("valueType", .number (.integer 1)) ],
      .object [("scalar", .text "any"), ("type", .text "scalar"), ("name", .text "any")] ]

/-- The schemas of the flag between members that are escaped or have blanks around them. -/
def flagText : String :=
  "\x7b \"\\u0078\":null,\"schemas\":" ++ flagSchemas.compact ++ ",\n\"operations\":[ ]\x7d"

/-- The schemas of the flag hold whole numbers only. -/
theorem isExact_flagSchemas : flagSchemas.IsExact := by
  refine .list (List.forall_mem_cons.mpr ⟨.object ?_, List.forall_mem_singleton.mpr (.object ?_)⟩)
  · simp only [List.forall_mem_cons]
    exact ⟨.object (by
      simp only [List.forall_mem_cons]
      exact ⟨.list (List.forall_mem_singleton.mpr (.integer (by decide))), .null,
        List.forall_mem_nil _⟩), .boolean true, .text _, .text _, .integer (by decide),
      List.forall_mem_nil _⟩
  · simp only [List.forall_mem_cons]
    exact ⟨.text _, .text _, .text _, List.forall_mem_nil _⟩

/-- Written schemas may stand between a member with an escaped key and one with a blank list. -/
theorem spells_betweenMembers {written : List Char} {schemas : Value} (h : Spells written schemas) :
    Spells ("\x7b \"\\u0078\":null,\"schemas\":".toList ++ (written ++
        ",\n\"operations\":[ ]\x7d".toList))
      (.object [("x", .null), ("schemas", schemas), ("operations", .list [])]) := by
  have hunit : SpellsUnit ['0', '0', '7', '8'] 'x'.toNat :=
    SpellsUnit.digits (show HexDigit '0' 0 from Or.inl rfl) (show HexDigit '0' 0 from Or.inl rfl)
      (show HexDigit '7' 7 from Or.inl rfl) (show HexDigit '8' 8 from Or.inl rfl)
  have hx : SpellsKey ([' '] ++ '"' :: (['\\', 'u', '0', '0', '7', '8'] ++ ['"'])) "x" :=
    .quoted (by decide) (.unit hunit .nil) (by decide)
  have hschemas := spellsKey_written (by decide : AllBlank []) "schemas"
  have hoperations := spellsKey_written (by decide : AllBlank ['\n']) "operations"
  have hlast := SpellsMembers.last hoperations (.emptyList (by decide : AllBlank [' ']))
  have hspells := Spells.object (.cons hx .nullWord (.cons hschemas h hlast))
  have hopen : "\x7b \"\\u0078\":null,\"schemas\":".toList =
      ['{', ' ', '"', '\\', 'u', '0', '0', '7', '8', '"', ':', 'n', 'u', 'l', 'l', ','] ++
        ((writtenText "schemas").toList ++ [':']) := by
    rw [toList_writtenText]
    rfl
  have hclose : ",\n\"operations\":[ ]\x7d".toList =
      ',' :: '\n' :: ((writtenText "operations").toList ++ [':', '[', ' ', ']', '}']) := by
    rw [toList_writtenText]
    rfl
  rw [hopen, hclose]
  simp only [List.append_assoc, List.cons_append, List.nil_append] at hspells ⊢
  exact hspells

/-- The text of the flag spells an object with three members. -/
theorem spells_flagText :
    Spells flagText.toList
      (.object [("x", .null), ("schemas", flagSchemas), ("operations", .list [])]) := by
  have hspells := spells_betweenMembers (isExact_flagSchemas.spells_written .compact)
  rw [← String.toList_append, ← String.toList_append, ← String.append_assoc] at hspells
  exact hspells

/-- The schemas of the flag write those of its tables. -/
theorem writes_flagSchemas : Writing.list Format.schema flagTables.schemas flagSchemas := by
  have hswap : [("b", Value.list [.number (.integer (-1))]), ("a", .null)].Perm
      [("a", .null), ("b", .list [.number (.integer (-1))])] := .swap _ _ []
  refine ⟨_, rfl, .cons ⟨_, rfl, ?_, ?_⟩ (.cons ⟨_, rfl, ?_, ?_⟩ .nil)⟩
  · simp only [Format.kindEntries, List.forall_mem_cons]
    exact ⟨⟨_, rfl, rfl⟩, ⟨_, rfl, rfl⟩,
      ⟨_, rfl, .object hswap (.cons (.refl _) (.cons (.refl _) .nil))⟩, ⟨_, rfl, rfl⟩,
      List.forall_mem_nil _⟩
  · simp only [List.forall_mem_cons]
    exact ⟨.inl (by decide), .inr ⟨by decide, .boolean true⟩, .inl (by decide), .inl (by decide),
      .inl (by decide), List.forall_mem_nil _⟩
  · simp only [Format.kindEntries, List.forall_mem_cons]
    exact ⟨⟨_, rfl, rfl⟩, ⟨_, rfl, rfl⟩, ⟨_, rfl, rfl⟩, List.forall_mem_nil _⟩
  · simp only [List.forall_mem_cons]
    exact ⟨.inl (by decide), .inl (by decide), .inl (by decide), List.forall_mem_nil _⟩

/-- The text of the flag writes its tables. -/
theorem flagTables_writtenBy : flagTables.WrittenBy flagText := by
  refine ⟨_, spells_flagText, _, rfl, ?_, ?_⟩
  · simp only [List.forall_mem_cons]
    exact ⟨.inr ⟨_, rfl, writes_flagSchemas⟩, .inl ⟨rfl, rfl⟩, .inl ⟨rfl, rfl⟩,
      .inr ⟨_, rfl, [], rfl, .nil⟩, List.forall_mem_nil _⟩
  · simp only [List.forall_mem_cons]
    exact ⟨.inr ⟨List.not_mem_nil, .null⟩, .inl (by decide), .inl (by decide),
      List.forall_mem_nil _⟩

/-- The constant of the flag is plain. -/
theorem flagTables_hasPlainConstant :
    ∀ schema ∈ flagTables.schemas, schema.HasPlainConstant 100 := by
  refine List.forall_mem_cons.mpr ⟨?_, List.forall_mem_singleton.mpr nofun⟩
  rintro _ _ ⟨⟩
  refine .object (by decide) (List.forall_mem_cons.mpr ⟨.null, List.forall_mem_singleton.mpr ?_⟩)
  exact .list (List.forall_mem_singleton.mpr (.integer _))

/-- The flag loads as a code model. -/
theorem ofText_of_writtenBy_flag :
    (∀ schema ∈ flagTables.schemas, schema.HasPlainConstant 100) ∧
      flagTables.WrittenBy flagText ∧
      (∃ read : Tables, read.Alike flagTables ∧ Tables.ofText flagText = .ok read) ∧
      ∃ model, CodeModel.ofText flagText = .ok model := by
  have hcheck : flagTables.check = .ok () := by decide
  obtain ⟨read, halike, hread, -, hmodel, -⟩ :=
    ofText_of_writtenBy flagTables_hasPlainConstant flagTables_writtenBy
  exact ⟨flagTables_hasPlainConstant, flagTables_writtenBy, ⟨read, halike, hread⟩,
    hmodel.mpr hcheck⟩

end ClientPlan.Wire

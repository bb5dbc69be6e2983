import ClientPlan.Proofs.ElementTypes

/-!
# Descriptions of the entries of a code model

The planner asks a mapper for arguments, properties and models. It relies on the first two
being there for every id inside its table; models may be refused. The descriptions that a
code model gives of itself keep this promise, and give a model to every object schema.
-/

namespace ClientPlan

open Wire (CodeModel Parameter ParameterId Property PropertyId Schema SchemaId Tables)

/-- A mapper describes every parameter and every property of the tables. -/
structure Mapper.Describes (mapper : Mapper) (tables : Tables) : Prop where
  argument : ∀ id < tables.parameters.length, ∃ argument, mapper.argument id = .ok argument
  property : ∀ id < tables.properties.length, ∃ property, mapper.property id = .ok property

namespace Wire.Tables

variable {tables : Tables}

/-- An argument has the name that its parameter shows to clients. -/
theorem argument_name {id : ParameterId} {argument : Argument}
    (h : tables.argument id = .ok argument) :
    ∃ parameter, tables.parameters[id]? = some parameter ∧ argument.name = parameter.shownName := by
  simp only [Tables.argument, bind_eq_ok, parameterAt_eq_ok, pure_eq_ok] at h
  obtain ⟨parameter, hparameter, _, _, _, _, rfl⟩ := h
  exact ⟨parameter, hparameter, rfl⟩

end Wire.Tables

namespace Wire.CodeModel

variable (model : CodeModel)

/-- Every parameter of a code model stands in its table together with its schema. -/
theorem exists_schemaAt {id : ParameterId} {parameter : Parameter}
    (h : model.parameters[id]? = some parameter) :
    ∃ schema, model.toTables.schemaAt parameter.schema = .ok schema := by
  have hlt := (model.resolves_of_parameter h).schema
  exact ⟨_, Tables.schemaAt_eq_ok.mpr (List.getElem?_eq_getElem hlt)⟩

/-- Every parameter of a code model has an argument. -/
theorem exists_argument {id : ParameterId} (h : id < model.parameters.length) :
    ∃ argument, model.toTables.argument id = .ok argument := by
  have hat := List.getElem?_eq_getElem h
  obtain ⟨type, htype⟩ := model.exists_clientType (model.resolves_of_parameter hat).schema
  obtain ⟨schema, hschema⟩ := model.exists_schemaAt hat
  simp only [Tables.argument, bind_eq_ok, pure_eq_ok]
  exact ⟨_, _, Tables.parameterAt_eq_ok.mpr hat, type, htype, schema, hschema, rfl⟩

/-- Every property of a code model is a field of a model. -/
theorem exists_modelProperty {id : PropertyId} (h : id < model.properties.length) :
    ∃ property, model.toTables.modelProperty id = .ok property := by
  have hat := List.getElem?_eq_getElem h
  obtain ⟨type, htype⟩ := model.exists_clientType
    (model.resolves.properties _ (List.getElem_mem h))
  simp only [Tables.modelProperty, bind_eq_ok, pure_eq_ok]
  exact ⟨_, _, Tables.propertyAt_eq_ok.mpr hat, type, htype, rfl⟩

/-- Every object schema of a code model has a model. -/
theorem exists_model {id : SchemaId} {schema : Schema} (h : model.schemas[id]? = some schema)
    (hobject : schema.isObject = true) : ∃ described, model.toTables.model id = .ok described := by
  cases hkind : schema.kind with
  | object properties =>
    have hlt := (model.resolves.schemas schema (List.mem_of_getElem? h)).properties properties hkind
    obtain ⟨fields, hfields⟩ :=
      exists_mapM_eq_ok fun id hid => model.exists_modelProperty (hlt id hid)
    refine ⟨⟨schema.name, fields⟩, bind_eq_ok.mpr ⟨schema, Tables.schemaAt_eq_ok.mpr h, ?_⟩⟩
    simp only [hkind]
    exact bind_eq_ok.mpr ⟨fields, hfields, rfl⟩
  | constant value valueType => simp [Schema.isObject, hkind] at hobject
  | scalar type => simp [Schema.isObject, hkind] at hobject
  | array elementType => simp [Schema.isObject, hkind] at hobject

/-- A code model describes all of its entries. -/
theorem describes : (Mapper.ofTables model.toTables).Describes model.toTables :=
  ⟨fun _ h => model.exists_argument h, fun _ h => model.exists_modelProperty h⟩

end Wire.CodeModel

end ClientPlan

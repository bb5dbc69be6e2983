import ClientPlan.Proofs.ElementChain
import Mathlib.Logic.Function.Iterate

/-!
# The types of schemas

The type of a schema is found by visiting the schemas on its chain up to a primitive one or an
object. Each array on the way makes a list of the type behind it, and constants are passed through.
An object ends the chain by its name, so that models which contain themselves through their
properties are no obstacle. The search is bounded by the length of the table, and no chain is longer
than that, so that the bound never shows.
-/

namespace ClientPlan

open Wire (CodeModel PropertyId ScalarType Schema SchemaId Tables)

/-- Whether the values of a schema are lists. -/
def Wire.Schema.isArray (schema : Schema) : Bool :=
  match schema.kind with
  | .array _ => true
  | _ => false

/-- The type of a schema that points to no other: that of a primitive kind, or a named model. -/
def Wire.Schema.baseType? (schema : Schema) : Option ClientType :=
  match schema.kind with
  | .scalar type => some (.ofScalar type)
  | .object _ => some (.model schema.name)
  | _ => none

/-- The number of arrays among schemas. -/
def Wire.Tables.countArrays (tables : Tables) (ids : List SchemaId) : Nat :=
  ids.countP fun id => tables.schemas[id]?.any (·.isArray)

/-- How the type of a schema is found, with the schemas that are visited. -/
inductive Wire.Tables.HasType (tables : Tables) : SchemaId → List SchemaId → ClientType → Prop
  | scalar {id : SchemaId} {schema : Schema} {type : ScalarType}
      (hat : tables.schemas[id]? = some schema) (hkind : schema.kind = .scalar type) :
      HasType tables id [id] (.ofScalar type)
  | object {id : SchemaId} {schema : Schema} {properties : List PropertyId}
      (hat : tables.schemas[id]? = some schema) (hkind : schema.kind = .object properties) :
      HasType tables id [id] (.model schema.name)
  | array {id elementType : SchemaId} {schema : Schema} {visited : List SchemaId}
      {type : ClientType} (hat : tables.schemas[id]? = some schema)
      (hkind : schema.kind = .array elementType)
      (hrest : HasType tables elementType visited type) :
      HasType tables id (id :: visited) (.list type)
  | constant {id valueType : SchemaId} {schema : Schema} {value : Json.Value}
      {visited : List SchemaId} {type : ClientType} (hat : tables.schemas[id]? = some schema)
      (hkind : schema.kind = .constant value valueType)
      (hrest : HasType tables valueType visited type) :
      HasType tables id (id :: visited) type

variable {tables : Tables} {id : SchemaId} {visited : List SchemaId} {type : ClientType}

/-- A type that is found within some steps was found by visiting at most as many schemas. -/
theorem exists_hasType_of_typeWithin {steps : Nat} (h : tables.typeWithin steps id = .ok type) :
    ∃ visited, tables.HasType id visited type ∧ visited.length ≤ steps := by
  induction steps generalizing id type with
  | zero => cases h
  | succ steps ih =>
    obtain ⟨schema, hat, h⟩ := bind_eq_ok.mp h
    rw [Tables.schemaAt_eq_ok] at hat
    cases hkind : schema.kind with
    | scalar scalar =>
      rw [hkind] at h
      cases pure_eq_ok.mp h
      exact ⟨[id], .scalar hat hkind, by simp⟩
    | object properties =>
      rw [hkind] at h
      cases pure_eq_ok.mp h
      exact ⟨[id], .object hat hkind, by simp⟩
    | array elementType =>
      rw [hkind] at h
      obtain ⟨element, helement, h⟩ := bind_eq_ok.mp h
      cases pure_eq_ok.mp h
      obtain ⟨visited, hvisited, hlength⟩ := ih helement
      exact ⟨id :: visited, .array hat hkind hvisited, Nat.succ_le_succ hlength⟩
    | constant value valueType =>
      rw [hkind] at h
      obtain ⟨visited, hvisited, hlength⟩ := ih h
      exact ⟨id :: visited, .constant hat hkind hvisited, Nat.succ_le_succ hlength⟩

namespace Wire.Tables.HasType

/-- A type is found within as many steps as schemas are visited. -/
theorem typeWithin_eq_ok (h : tables.HasType id visited type) {steps : Nat}
    (hsteps : visited.length ≤ steps) : tables.typeWithin steps id = .ok type := by
  induction h generalizing steps with
  | scalar hat hkind =>
    obtain ⟨steps, rfl⟩ : ∃ fewer, steps = fewer + 1 := ⟨steps - 1, by simp at hsteps; omega⟩
    refine bind_eq_ok.mpr ⟨_, schemaAt_eq_ok.mpr hat, ?_⟩
    simp only [hkind, pure_eq_ok]
  | object hat hkind =>
    obtain ⟨steps, rfl⟩ : ∃ fewer, steps = fewer + 1 := ⟨steps - 1, by simp at hsteps; omega⟩
    refine bind_eq_ok.mpr ⟨_, schemaAt_eq_ok.mpr hat, ?_⟩
    simp only [hkind, pure_eq_ok]
  | array hat hkind _ ih =>
    rw [List.length_cons] at hsteps
    obtain ⟨steps, rfl⟩ : ∃ fewer, steps = fewer + 1 := ⟨steps - 1, by omega⟩
    refine bind_eq_ok.mpr ⟨_, schemaAt_eq_ok.mpr hat, ?_⟩
    simp only [hkind]
    exact bind_eq_ok.mpr ⟨_, ih (by omega), rfl⟩
  | constant hat hkind _ ih =>
    rw [List.length_cons] at hsteps
    obtain ⟨steps, rfl⟩ : ∃ fewer, steps = fewer + 1 := ⟨steps - 1, by omega⟩
    refine bind_eq_ok.mpr ⟨_, schemaAt_eq_ok.mpr hat, ?_⟩
    simp only [hkind]
    exact ih (by omega)

/-- The schemas that are visited are those of the chain. -/
theorem chain (h : tables.HasType id visited type) : tables.Chain id visited := by
  induction h with
  | scalar hat hkind => exact .last hat (by simp [Schema.next?, hkind])
  | object hat hkind => exact .last hat (by simp [Schema.next?, hkind])
  | array hat hkind _ ih => exact .link hat (by simp [Schema.next?, hkind]) ih
  | constant hat hkind _ ih => exact .link hat (by simp [Schema.next?, hkind]) ih

/-- Only the schemas that are visited matter for a type. -/
theorem congr {others : Tables} (h : tables.HasType id visited type)
    (hsame : ∀ other ∈ visited, others.schemas[other]? = tables.schemas[other]?) :
    others.HasType id visited type := by
  induction h with
  | scalar hat hkind => exact .scalar ((hsame _ List.mem_cons_self).trans hat) hkind
  | object hat hkind => exact .object ((hsame _ List.mem_cons_self).trans hat) hkind
  | array hat hkind _ ih =>
    obtain ⟨hfirst, hrest⟩ := List.forall_mem_cons.mp hsame
    exact .array (hfirst.trans hat) hkind (ih hrest)
  | constant hat hkind _ ih =>
    obtain ⟨hfirst, hrest⟩ := List.forall_mem_cons.mp hsame
    exact .constant (hfirst.trans hat) hkind (ih hrest)

/-- A schema has one type, and is visited in one way. -/
theorem unique {visited' : List SchemaId} {type' : ClientType}
    (h : tables.HasType id visited type) (h' : tables.HasType id visited' type') :
    visited = visited' ∧ type = type' := by
  have hsame := h.typeWithin_eq_ok (Nat.le_max_left visited.length visited'.length)
  have hsame' := h'.typeWithin_eq_ok (Nat.le_max_right visited.length visited'.length)
  exact ⟨h.chain.unique h'.chain, Except.ok.inj (hsame.symm.trans hsame')⟩

/-- A type is found within some steps exactly if there are as many as schemas to visit. -/
theorem typeWithin_eq_ok_iff (h : tables.HasType id visited type) {steps : Nat} :
    tables.typeWithin steps id = .ok type ↔ visited.length ≤ steps := by
  constructor
  · intro hfound
    obtain ⟨visited', hvisited', hlength⟩ := exists_hasType_of_typeWithin hfound
    rwa [(h.unique hvisited').1]
  · exact h.typeWithin_eq_ok

/-- A type is a list for each array on the way, around the type of the schema at the end. -/
theorem exists_baseType (h : tables.HasType id visited type) :
    ∃ last schema base, visited.getLast? = some last ∧ tables.schemas[last]? = some schema ∧
      schema.baseType? = some base ∧ type = ClientType.list^[tables.countArrays visited] base := by
  induction h with
  | @scalar id schema type hat hkind =>
    refine ⟨id, schema, .ofScalar type, rfl, hat, by simp [Schema.baseType?, hkind], ?_⟩
    simp [countArrays, hat, Schema.isArray, hkind]
  | @object id schema properties hat hkind =>
    refine ⟨id, schema, .model schema.name, rfl, hat, by simp [Schema.baseType?, hkind], ?_⟩
    simp [countArrays, hat, Schema.isArray, hkind]
  | @array id elementType schema visited type hat hkind hrest ih =>
    obtain ⟨last, found, base, hlast, hfound, hbase, rfl⟩ := ih
    have hcount : tables.countArrays (id :: visited) = tables.countArrays visited + 1 := by
      simp [countArrays, hat, Schema.isArray, hkind]
    refine ⟨last, found, base, ?_, hfound, hbase, ?_⟩
    · rw [List.getLast?_cons, hlast, Option.getD_some]
    · rw [hcount, Function.iterate_succ_apply']
  | @constant id valueType schema value visited type hat hkind hrest ih =>
    obtain ⟨last, found, base, hlast, hfound, hbase, rfl⟩ := ih
    have hcount : tables.countArrays (id :: visited) = tables.countArrays visited := by
      simp [countArrays, hat, Schema.isArray, hkind]
    refine ⟨last, found, base, ?_, hfound, hbase, ?_⟩
    · rw [List.getLast?_cons, hlast, Option.getD_some]
    · rw [hcount]

end Wire.Tables.HasType

/-- A chain that ends leads to a type. -/
theorem Wire.Tables.Chain.exists_hasType (h : tables.Chain id visited) :
    ∃ type, tables.HasType id visited type := by
  induction h with
  | @last id schema hat hlast =>
    cases hkind : schema.kind with
    | scalar type => exact ⟨_, .scalar hat hkind⟩
    | object properties => exact ⟨_, .object hat hkind⟩
    | constant value valueType => simp [Schema.next?, hkind] at hlast
    | array elementType => simp [Schema.next?, hkind] at hlast
  | @link id next schema ids hat hnext _ ih =>
    obtain ⟨type, htype⟩ := ih
    cases hkind : schema.kind with
    | scalar type => simp [Schema.next?, hkind] at hnext
    | object properties => simp [Schema.next?, hkind] at hnext
    | constant value valueType =>
      have heq : valueType = next := by simpa [Schema.next?, hkind] using hnext
      exact ⟨_, .constant hat hkind (heq ▸ htype)⟩
    | array elementType =>
      have heq : elementType = next := by simpa [Schema.next?, hkind] using hnext
      exact ⟨_, .array hat hkind (heq ▸ htype)⟩

namespace Wire.CodeModel

variable (model : CodeModel)

/-- The type of every schema of a code model is found by visiting no more schemas than there are. -/
theorem exists_hasType (h : id < model.schemas.length) :
    ∃ visited type, model.toTables.HasType id visited type ∧
      visited.length ≤ model.schemas.length := by
  obtain ⟨visited, hchain⟩ := model.exists_chain h
  obtain ⟨type, htype⟩ := hchain.exists_hasType
  exact ⟨visited, type, htype, hchain.length_le⟩

/-- Every schema of a code model has a type. -/
theorem exists_clientType (h : id < model.schemas.length) :
    ∃ type, model.toTables.clientType id = .ok type := by
  obtain ⟨visited, type, htype, hlength⟩ := model.exists_hasType h
  exact ⟨type, htype.typeWithin_eq_ok hlength⟩

end Wire.CodeModel

/-- The text of nested lists has one pair of brackets for each. -/
theorem ClientType.text_iterate_list (count : Nat) (base : ClientType) :
    (ClientType.list^[count] base).text = base.text ++ String.join (List.replicate count "[]") := by
  induction count with
  | zero => simp
  | succ count ih =>
    rw [Function.iterate_succ_apply', ClientType.text, ih, List.replicate_succ', String.join_append]
    simp [String.append_assoc]

/-- A tree has a list of trees among its properties. The elements of a forest are all one constant
list of trees. -/
def treeModel : CodeModel where
  schemas := [⟨"Tree", .object [0, 1]⟩, ⟨"Forest", .array 3⟩, ⟨"string", .scalar .string⟩,
    ⟨"Fixed", .constant (.list []) 4⟩, ⟨"Trees", .array 0⟩]
  properties := [⟨"children", none, "children", 4, true⟩, ⟨"label", none, "label", 2, true⟩]
  parameters := []
  operations := []
  checked := by rfl

/-- A forest is a list of lists of trees. -/
example : treeModel.toTables.clientType 1 = .ok (.list (.list (.model "Tree"))) := by decide

end ClientPlan

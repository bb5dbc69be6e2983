import ClientPlan.Proofs.Links
import Mathlib.Data.List.Nodup
import Mathlib.Data.List.Perm.Subperm

/-!
# Chains of element types

Constants and arrays point to another schema, and following these links gives the chain
of a schema. A chain that ends visits no schema twice: the chain of a schema is
determined by it, so a second visit would start the same chain again inside itself.
Hence no chain is longer than the table, and as many steps as the table has entries
suffice to follow any of them to its end.
-/

namespace ClientPlan.Wire

namespace Tables

/-- The schemas that are visited from a schema until one points to no other. -/
inductive Chain (tables : Tables) : SchemaId → List SchemaId → Prop
  | last {id : SchemaId} {schema : Schema} (hat : tables.schemas[id]? = some schema)
      (hlast : schema.next? = none) : Chain tables id [id]
  | link {id next : SchemaId} {schema : Schema} {ids : List SchemaId}
      (hat : tables.schemas[id]? = some schema) (hnext : schema.next? = some next)
      (hrest : Chain tables next ids) : Chain tables id (id :: ids)

variable {tables : Tables} {id : SchemaId} {ids : List SchemaId}

namespace Chain

/-- A schema determines its chain. -/
theorem unique {others : List SchemaId} (h : tables.Chain id ids) (h' : tables.Chain id others) :
    ids = others := by
  induction h generalizing others with
  | last hat hlast =>
    cases h' with
    | last => rfl
    | link hat' hnext =>
      cases hat.symm.trans hat'
      cases hlast.symm.trans hnext
  | link hat hnext _ ih =>
    cases h' with
    | last hat' hlast =>
      cases hat.symm.trans hat'
      cases hlast.symm.trans hnext
    | link hat' hnext' hrest =>
      cases hat.symm.trans hat'
      cases hnext.symm.trans hnext'
      rw [ih hrest]

/-- A chain starts at a schema of the table. -/
theorem exists_at (h : tables.Chain id ids) : ∃ schema, tables.schemas[id]? = some schema := by
  cases h with
  | last hat => exact ⟨_, hat⟩
  | link hat => exact ⟨_, hat⟩

/-- A chain visits the schema it starts at. -/
theorem length_pos (h : tables.Chain id ids) : 0 < ids.length := by
  cases h with
  | last => exact Nat.zero_lt_one
  | link => exact Nat.zero_lt_succ _

/-- Every schema on a chain has a chain of its own that is no longer. -/
theorem exists_of_mem {other : SchemaId} (h : tables.Chain id ids) (hmem : other ∈ ids) :
    ∃ others, tables.Chain other others ∧ others.length ≤ ids.length := by
  induction h with
  | last hat hlast =>
    rw [List.mem_singleton.mp hmem]
    exact ⟨_, .last hat hlast, Nat.le_refl _⟩
  | link hat hnext hrest ih =>
    rcases List.mem_cons.mp hmem with rfl | hmem
    · exact ⟨_, .link hat hnext hrest, Nat.le_refl _⟩
    · obtain ⟨others, hothers, hlength⟩ := ih hmem
      exact ⟨others, hothers, Nat.le_trans hlength (Nat.le_succ _)⟩

/-- A chain visits no schema twice. -/
theorem nodup (h : tables.Chain id ids) : ids.Nodup := by
  induction h with
  | last => exact List.nodup_singleton _
  | link hat hnext hrest ih =>
    refine List.nodup_cons.mpr ⟨fun hmem => ?_, ih⟩
    obtain ⟨others, hothers, hlength⟩ := hrest.exists_of_mem hmem
    -- The second visit starts the whole chain again, inside its own tail.
    rw [← unique (.link hat hnext hrest) hothers, List.length_cons] at hlength
    omega

/-- All schemas on a chain stand in the table. -/
theorem lt_length {other : SchemaId} (h : tables.Chain id ids) (hmem : other ∈ ids) :
    other < tables.schemas.length := by
  obtain ⟨others, hothers, -⟩ := h.exists_of_mem hmem
  obtain ⟨schema, hat⟩ := hothers.exists_at
  exact (List.getElem?_eq_some_iff.mp hat).1

/-- A chain is no longer than the table of schemas. -/
theorem length_le (h : tables.Chain id ids) : ids.length ≤ tables.schemas.length := by
  have hsubset : ids ⊆ List.range tables.schemas.length := fun other hmem =>
    List.mem_range.mpr (h.lt_length hmem)
  simpa only [List.length_range] using (h.nodup.subperm hsubset).length_le

end Chain

/-- A search for the end that succeeds has followed the whole chain. -/
theorem exists_chain_of_endsWithin (hresolves : tables.Resolves) {steps : Nat} {schema : Schema}
    (hat : tables.schemas[id]? = some schema) (hends : tables.endsWithin steps schema = true) :
    ∃ ids, tables.Chain id ids := by
  induction steps generalizing id schema with
  | zero =>
    unfold endsWithin at hends
    cases hnext : schema.next? with
    | none => exact ⟨_, .last hat hnext⟩
    | some next => simp [hnext] at hends
  | succ steps ih =>
    unfold endsWithin at hends
    cases hnext : schema.next? with
    | none => exact ⟨_, .last hat hnext⟩
    | some next =>
      have hlt := (hresolves.schemas schema (List.mem_of_getElem? hat)).next next hnext
      have hat' := List.getElem?_eq_getElem hlt
      obtain ⟨ids, hids⟩ := ih hat' (by simpa [hnext, hat'] using hends)
      exact ⟨_, .link hat hnext hids⟩

/-- A search for the end succeeds if it may take as many steps as there are links on the chain. -/
theorem Chain.endsWithin_eq_true {steps : Nat} {schema : Schema} (h : tables.Chain id ids)
    (hat : tables.schemas[id]? = some schema) (hsteps : ids.length ≤ steps + 1) :
    tables.endsWithin steps schema = true := by
  induction h generalizing steps schema with
  | last hat' hlast =>
    cases hat.symm.trans hat'
    unfold endsWithin
    simp only [hlast]
  | link hat' hnext hrest ih =>
    cases hat.symm.trans hat'
    have hpositive := hrest.length_pos
    rw [List.length_cons] at hsteps
    obtain ⟨steps, rfl⟩ : ∃ fewer, steps = fewer + 1 := ⟨steps - 1, by omega⟩
    obtain ⟨found, hfound⟩ := hrest.exists_at
    unfold endsWithin
    simp only [hnext, hfound]
    exact ih hfound (by omega)

/-- With as many steps as the table has entries, a search finds the end of every chain that has
one. No chain is longer than the table, so that one link less would do. -/
theorem endsWithin_iff (hresolves : tables.Resolves) {schema : Schema}
    (hat : tables.schemas[id]? = some schema) :
    tables.endsWithin tables.schemas.length schema = true ↔ ∃ ids, tables.Chain id ids := by
  constructor
  · exact exists_chain_of_endsWithin hresolves hat
  · rintro ⟨ids, hids⟩
    exact hids.endsWithin_eq_true hat (Nat.le_succ_of_le hids.length_le)

end Tables

namespace CodeModel

/-- Every schema of a code model has a chain that ends. -/
theorem exists_chain (model : CodeModel) {id : SchemaId} (h : id < model.schemas.length) :
    ∃ ids, model.toTables.Chain id ids := by
  have hends := (Tables.check_eq_ok.mp model.checked).2
  exact Tables.exists_chain_of_endsWithin model.resolves (List.getElem?_eq_getElem h)
    (hends _ (List.getElem_mem h))

end CodeModel

end ClientPlan.Wire

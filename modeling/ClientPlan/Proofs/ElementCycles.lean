import ClientPlan.Proofs.Validation
import Mathlib.Data.Finset.Card

/-!
# Cycles of element types

A search for the end of a chain that uses up its steps has visited more schemas than the table
holds, hence one of them twice. From there on it goes round in a circle, and it stops on it. The
error names the schema at which the search started, and not the one at which it stopped. The two
need not lie on the same circle: a search that starts beside the circle is led into it. This file
says exactly when the named schema lies on a cycle, and gives tables for which it does not.
-/

namespace ClientPlan.Wire

namespace Tables

/-- The schema that so many links lead to from a schema. -/
def follow (tables : Tables) : (steps : Nat) → SchemaId → Option SchemaId
  | 0, id => some id
  | steps + 1, id => (tables.schemas[id]?.bind Schema.next?).bind (tables.follow steps)

/-- Following the links from a schema a positive number of times leads back to it. -/
def OnCycle (tables : Tables) (id : SchemaId) : Prop :=
  ∃ steps, 0 < steps ∧ tables.follow steps id = some id

variable {tables : Tables} {id last : SchemaId} {steps : Nat}

/-- Links are followed one part after the other. -/
theorem follow_add (fewer more : Nat) (id : SchemaId) :
    tables.follow (fewer + more) id = (tables.follow fewer id).bind (tables.follow more) := by
  induction fewer generalizing id with
  | zero => rw [Nat.zero_add, follow, Option.bind_some]
  | succ fewer ih => simp only [Nat.succ_add, follow, Option.bind_assoc, ih]

/-- What leads so far leads through a schema at every distance before. -/
theorem exists_follow_of_le {fewer : Nat} (h : tables.follow steps id = some last)
    (hle : fewer ≤ steps) : ∃ between, tables.follow fewer id = some between ∧
      tables.follow (steps - fewer) between = some last := by
  rw [← Nat.add_sub_cancel' hle, follow_add] at h
  simpa only [Option.bind_eq_some_iff, Nat.add_sub_cancel_left] using h

/-- Whatever a schema on a cycle leads to lies on a cycle. -/
theorem OnCycle.of_follow (h : tables.OnCycle id) (hfollow : tables.follow steps id = some last) :
    tables.OnCycle last := by
  obtain ⟨round, hpositive, hround⟩ := h
  refine ⟨round, hpositive, ?_⟩
  have hboth : tables.follow (steps + round) id = tables.follow (round + steps) id := by
    rw [Nat.add_comm]
  rwa [follow_add, follow_add, hfollow, hround, Option.bind_some, Option.bind_some, hfollow]
    at hboth

/-- Some schema of the table points to a schema on a cycle. -/
theorem OnCycle.exists_next (h : tables.OnCycle id) :
    ∃ schema ∈ tables.schemas, schema.next? = some id := by
  obtain ⟨round, hpositive, hround⟩ := h
  obtain ⟨fewer, rfl⟩ : ∃ fewer, round = fewer + 1 := ⟨round - 1, by omega⟩
  rw [follow_add] at hround
  obtain ⟨before, -, hlink⟩ := Option.bind_eq_some_iff.mp hround
  simp only [follow, Option.bind_eq_some_iff] at hlink
  obtain ⟨next, ⟨schema, hat, hnext⟩, heq⟩ := hlink
  cases heq
  exact ⟨schema, List.mem_of_getElem? hat, hnext⟩

/-- Links lead from a chain to its tails. -/
theorem Chain.exists_of_follow {ids : List SchemaId} (h : tables.Chain id ids)
    (hfollow : tables.follow steps id = some last) :
    ∃ rest, tables.Chain last rest ∧ ids.length = steps + rest.length := by
  induction steps generalizing id ids with
  | zero =>
    cases hfollow
    exact ⟨ids, h, (Nat.zero_add _).symm⟩
  | succ steps ih =>
    simp only [follow, Option.bind_eq_some_iff] at hfollow
    obtain ⟨next, ⟨schema, hat, hnext⟩, hfollow⟩ := hfollow
    cases h with
    | last hat' hlast =>
      cases hat.symm.trans hat'
      cases hnext.symm.trans hlast
    | link hat' hnext' hrest =>
      cases hat.symm.trans hat'
      cases hnext.symm.trans hnext'
      obtain ⟨rest, hrest, hlength⟩ := ih hrest hfollow
      refine ⟨rest, hrest, ?_⟩
      rw [List.length_cons]
      omega

/-- A schema on a cycle has no chain that ends. -/
theorem OnCycle.not_exists_chain (h : tables.OnCycle id) : ¬ ∃ ids, tables.Chain id ids := by
  rintro ⟨ids, hchain⟩
  obtain ⟨round, hpositive, hround⟩ := h
  obtain ⟨rest, hrest, hlength⟩ := hchain.exists_of_follow hround
  -- One round leads to a shorter chain from the same schema.
  rw [hchain.unique hrest] at hlength
  omega

/-- A search that finds no end has visited schemas of the table up to its last step. -/
theorem exists_follow_of_endsWithin_eq_false {schema : Schema}
    (hat : tables.schemas[id]? = some schema) (hends : tables.endsWithin steps schema = false) :
    ∃ stop, tables.follow steps id = some stop ∧ stop < tables.schemas.length := by
  induction steps generalizing id schema with
  | zero => exact ⟨id, rfl, (List.getElem?_eq_some_iff.mp hat).1⟩
  | succ steps ih =>
    unfold endsWithin at hends
    cases hnext : schema.next? with
    | none => simp [hnext] at hends
    | some next =>
      cases hat' : tables.schemas[next]? with
      | none => simp [hnext, hat'] at hends
      | some found =>
        simp only [hnext, hat'] at hends
        obtain ⟨stop, hstop, hlt⟩ := ih hat' hends
        exact ⟨stop, by simp only [follow, hat, Option.bind_some, hnext, hstop], hlt⟩

/-- Links that lead on from every schema they visit visit one twice within as many steps as the
table has entries. -/
theorem exists_repeated_of_follow (hlt : last < tables.schemas.length)
    (h : tables.follow tables.schemas.length id = some last) :
    ∃ first second between, first < second ∧ second ≤ tables.schemas.length ∧
      tables.follow first id = some between ∧ tables.follow second id = some between := by
  let visited (steps : Nat) : SchemaId := (tables.follow steps id).getD 0
  have hvisited {steps : Nat} (hle : steps ≤ tables.schemas.length) :
      tables.follow steps id = some (visited steps) ∧ visited steps < tables.schemas.length := by
    obtain ⟨between, hbetween, hrest⟩ := exists_follow_of_le h hle
    have heq : visited steps = between := by simp only [visited, hbetween, Option.getD_some]
    refine ⟨heq ▸ hbetween, heq ▸ ?_⟩
    cases hleft : tables.schemas.length - steps with
    | zero =>
      rw [hleft] at hrest
      cases hrest
      exact hlt
    | succ left =>
      rw [hleft] at hrest
      simp only [follow, Option.bind_eq_some_iff] at hrest
      obtain ⟨_, ⟨schema, hat, -⟩, -⟩ := hrest
      exact (List.getElem?_eq_some_iff.mp hat).1
  have hcard : (Finset.range tables.schemas.length).card <
      (Finset.range (tables.schemas.length + 1)).card := by simp
  obtain ⟨first, hfirst, second, hsecond, hne, hsame⟩ :=
    Finset.exists_ne_map_eq_of_card_lt_of_maps_to hcard (f := visited) fun steps hsteps =>
      Finset.mem_range.mpr (hvisited (Nat.le_of_lt_succ (Finset.mem_range.mp hsteps))).2
  have hfirst := Nat.le_of_lt_succ (Finset.mem_range.mp hfirst)
  have hsecond := Nat.le_of_lt_succ (Finset.mem_range.mp hsecond)
  rcases Nat.lt_or_gt_of_ne hne with hlt | hlt
  · exact ⟨first, second, visited first, hlt, hsecond, (hvisited hfirst).1,
      hsame ▸ (hvisited hsecond).1⟩
  · exact ⟨second, first, visited second, hlt, hfirst, (hvisited hsecond).1,
      hsame ▸ (hvisited hfirst).1⟩

/-- A search that has used up as many steps as the table has entries stops on a cycle. -/
theorem onCycle_of_follow (hlt : last < tables.schemas.length)
    (h : tables.follow tables.schemas.length id = some last) : tables.OnCycle last := by
  obtain ⟨first, second, between, hbefore, hle, hfirst, hsecond⟩ :=
    exists_repeated_of_follow hlt h
  obtain ⟨_, hbetween, hrest⟩ := exists_follow_of_le h (Nat.le_trans hbefore.le hle)
  cases hfirst.symm.trans hbetween
  have hround : tables.follow (second - first) between = some between := by
    obtain ⟨_, hbetween, hround⟩ := exists_follow_of_le hsecond hbefore.le
    cases hfirst.symm.trans hbetween
    exact hround
  exact OnCycle.of_follow ⟨second - first, Nat.sub_pos_of_lt hbefore, hround⟩ hrest

end Tables

/-- Where tables are refused for a cycle, the error names the first schema whose chain has no end.
The search that starts there stops on a cycle, after as many steps as the table has entries. The
named schema lies on a cycle itself exactly when all chains end that start before the first schema
on a cycle. -/
theorem reported_onCycle_iff {tables : Tables} {name : String}
    (h : CodeModel.ofTables tables = .error (.schemaCycle name)) :
    ∃ id schema stop, tables.schemas[id]? = some schema ∧ schema.name = name ∧
      (∀ other < id, ∃ ids, tables.Chain other ids) ∧ (¬ ∃ ids, tables.Chain id ids) ∧
      tables.follow tables.schemas.length id = some stop ∧ tables.OnCycle stop ∧
      (tables.OnCycle id ↔
        ∃ first, tables.OnCycle first ∧ ∀ other < first, ∃ ids, tables.Chain other ids) := by
  rw [CodeModel.ofTables_eq_error, Tables.check_eq_error_iff] at h
  obtain _ | @⟨id, schema, hresolves, hat, hbefore, hendless⟩ := h
  have hends : tables.endsWithin tables.schemas.length schema = false := by
    rw [← Bool.not_eq_true, Tables.endsWithin_iff hresolves hat]
    exact hendless
  obtain ⟨stop, hstop, hlt⟩ := Tables.exists_follow_of_endsWithin_eq_false hat hends
  refine ⟨id, schema, stop, hat, rfl, hbefore, hendless, hstop,
    Tables.onCycle_of_follow hlt hstop, fun honCycle => ⟨id, honCycle, hbefore⟩, ?_⟩
  rintro ⟨first, hfirst, hends⟩
  -- The chain of `first` has no end, so that `first` is the first such schema.
  rcases Nat.lt_trichotomy id first with hlt | rfl | hlt
  · exact absurd (hends id hlt) hendless
  · exact hfirst
  · exact absurd (hbefore first hlt) hfirst.not_exists_chain

/-- Lists of lists of themselves, by way of one another, and lists of these before them. -/
def loopTables : Tables where
  schemas := [⟨"Names", .array 1⟩, ⟨"Loop", .array 2⟩, ⟨"Pool", .array 1⟩]
  properties := []
  parameters := []
  operations := []

/-- The search from the first list stops at the second one. -/
theorem reported_onCycle_iff_loop :
    CodeModel.ofTables loopTables = .error (.schemaCycle "Names") ∧
    ∃ id schema stop, loopTables.schemas[id]? = some schema ∧ schema.name = "Names" ∧
      (∀ other < id, ∃ ids, loopTables.Chain other ids) ∧ (¬ ∃ ids, loopTables.Chain id ids) ∧
      loopTables.follow loopTables.schemas.length id = some stop ∧ loopTables.OnCycle stop ∧
      (loopTables.OnCycle id ↔ ∃ first, loopTables.OnCycle first ∧
        ∀ other < first, ∃ ids, loopTables.Chain other ids) := by
  have h : CodeModel.ofTables loopTables = .error (.schemaCycle "Names") := by rfl
  exact ⟨h, reported_onCycle_iff h⟩

/-- The first list is named, and no schema of its name lies on a cycle. -/
theorem exists_reported_not_onCycle :
    ∃ tables name, tables.Resolves ∧ CodeModel.ofTables tables = .error (.schemaCycle name) ∧
      ∀ id schema, tables.schemas[id]? = some schema → schema.name = name →
        ¬ tables.OnCycle id := by
  refine ⟨loopTables, "Names", Tables.resolves_iff.mpr rfl, rfl, ?_⟩
  intro id schema hat hname hcycle
  obtain ⟨before, hmem, hnext⟩ := hcycle.exists_next
  have hunnamed : ∀ before ∈ loopTables.schemas, ∀ next ∈ before.next?,
      ∀ schema ∈ loopTables.schemas[next]?, schema.name ≠ "Names" := by decide
  exact hunnamed before hmem id hnext schema hat hname

end ClientPlan.Wire

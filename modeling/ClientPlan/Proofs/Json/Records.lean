import ClientPlan.Json.Record
import ClientPlan.Proofs.Json.Entries
import ClientPlan.Proofs.Json.Plain
import Mathlib.Data.List.Pairwise

/-!
# Reading written records

A reader that goes through the members of an object fills one place of its state for each known key.
Where the places do not touch each other, what they hold in the end depends on the values under the
keys alone, and on nothing about the order of the members.
-/

namespace ClientPlan.Json

variable {ν σ ι α : Type}

/-- A decoder reads everything that has a value as the same. -/
def Decodes (has : ν → Value → Prop) (decode : ν → Except ReadError α) (value : Value)
    (content : α) : Prop :=
  ∀ node, has node value → decode node = .ok content

/-- A field of a record that is read from a `ν`, with its place in the state and what is read. -/
structure Slot (ν σ : Type) where
  {α : Type}
  /-- The key of the field. -/
  key : String
  /-- Where it may be missing. -/
  presence : Presence
  /-- Reads it. -/
  decode : ν → Except ReadError α
  /-- What the state holds of it. -/
  held : σ → Option α
  /-- Puts it into the state. -/
  hold : σ → α → σ
  /-- What stands for it where it is missing. -/
  missing : α
  /-- What is read. -/
  content : α

namespace Slot

variable {has : ν → Value → Prop}

/-- The field of a slot. -/
def field (slot : Slot ν σ) : Field ν σ :=
  .of slot.key slot.presence slot.decode slot.held slot.hold

/-- Two slots have different keys and places that do not touch. -/
structure Apart (slot other : Slot ν σ) : Prop where
  key : slot.key ≠ other.key
  left : ∀ state content, slot.held (other.hold state content) = slot.held state
  right : ∀ state content, other.held (slot.hold state content) = other.held state

/-- Two slots are apart if their keys differ and neither place touches the other. -/
@[simp] theorem apart_iff {slot other : Slot ν σ} :
    slot.Apart other ↔ slot.key ≠ other.key ∧
      (∀ state content, slot.held (other.hold state content) = slot.held state) ∧
      ∀ state content, other.held (slot.hold state content) = other.held state :=
  ⟨fun h => ⟨h.key, h.left, h.right⟩, fun h => ⟨h.1, h.2.1, h.2.2⟩⟩

instance : Std.Symm (Apart : Slot ν σ → Slot ν σ → Prop) where
  symm _ _ h := ⟨h.key.symm, h.right, h.left⟩

/-- The slot is filled from these values under its key, or may stay empty if there are none. -/
def Reads (has : ν → Value → Prop) (slot : Slot ν σ) (values : List Value) : Prop :=
  (values = [] ∧ slot.presence ≠ .required ∧ slot.content = slot.missing) ∨
    ∃ value, values = [value] ∧ Decodes has slot.decode value slot.content

/-- Slots fill a state that is empty at the start, each its own place. -/
structure Fill (slots : List (Slot ν σ)) (start : σ) : Prop where
  apart : slots.Pairwise Apart
  own : ∀ slot ∈ slots, ∀ state content, slot.held (slot.hold state content) = some content
  empty : ∀ slot ∈ slots, slot.held start = none

/-- Behind these members the state holds what they write and nothing else. -/
def Filled (slots : List (Slot ν σ)) (past : List (String × Value)) (state : σ) : Prop :=
  ∀ slot ∈ slots, slot.held state =
    if slot.key ∈ past.map (·.1) then some slot.content else none

end Slot

/-- The values under a key come from one member after the other. -/
theorem under_append (key : String) (members more : List (String × Value)) :
    under key (members ++ more) = under key members ++ under key more := by
  rw [under, List.filter_append, List.map_append]
  rfl

/-- A member has its value under its key. -/
theorem under_cons_self (key : String) (value : Value) (members : List (String × Value)) :
    under key ((key, value) :: members) = value :: under key members := by
  rw [under, List.filter_cons_of_pos (by exact decide_eq_true rfl), List.map_cons]
  rfl

/-- No value stands under a key that no member has. -/
theorem under_eq_nil {key : String} {members : List (String × Value)} :
    under key members = [] ↔ key ∉ members.map (·.1) := by
  rw [under, List.map_eq_nil_iff, List.filter_eq_nil_iff, List.mem_map]
  constructor
  · rintro h ⟨member, hmember, hkey⟩
    exact h member hmember (decide_eq_true hkey)
  · intro h member hmember hkey
    exact h ⟨member, hmember, of_decide_eq_true hkey⟩

section Reading

variable {has : ν → Value → Prop} {slots : List (Slot ν σ)} {start state : σ}
  {skip : ν → Except ReadError Unit} {past members : List (String × Value)}

/-- The state holds nothing at the start. -/
theorem Slot.Fill.filled (h : Slot.Fill slots start) : Slot.Filled slots [] start :=
  fun slot hslot => h.empty slot hslot

/-- Slots with the same key are the same. -/
theorem Slot.Fill.eq_of_key_eq (h : Slot.Fill slots start) {slot other : Slot ν σ}
    (hslot : slot ∈ slots) (hother : other ∈ slots) (hkey : slot.key = other.key) :
    slot = other := by
  by_contra hne
  exact (h.apart.forall hslot hother hne).key hkey

/-- Slots with different keys do not touch each other. -/
theorem Slot.Fill.held_hold_of_ne (h : Slot.Fill slots start) {slot other : Slot ν σ}
    (hslot : slot ∈ slots) (hother : other ∈ slots) (hkey : slot.key ≠ other.key) (state : σ)
    (content : other.α) : slot.held (other.hold state content) = slot.held state := by
  exact (h.apart.forall hslot hother fun heq => hkey (congrArg Slot.key heq)).left _ _

/-- One member is read into its slot, or passed over. -/
theorem exists_takeMember_eq (hfill : Slot.Fill slots start) {name : String} {value : Value}
    {node : ν}
    (hreads : ∀ slot ∈ slots, slot.Reads has (under slot.key (past ++ (name, value) :: members)))
    (hnode : has node value) (hskip : name ∉ slots.map (·.key) → skip node = .ok ())
    (hfilled : Slot.Filled slots past state) :
    ∃ state', takeMember (slots.map Slot.field) skip state name node = .ok state' ∧
      Slot.Filled slots (past ++ [(name, value)]) state' := by
  have hfind : (slots.map Slot.field).find? (fun field => field.name = name) =
      (slots.find? fun slot => slot.key = name).map Slot.field := List.find?_map ..
  cases hslot : slots.find? fun slot => slot.key = name with
  | none =>
    have hnone : ∀ slot ∈ slots, slot.key ≠ name := fun slot hmem hkey =>
      List.find?_eq_none.mp hslot slot hmem (decide_eq_true hkey)
    have hnew : name ∉ slots.map (·.key) := by
      rintro hmem
      obtain ⟨slot, hmem, hkey⟩ := List.mem_map.mp hmem
      exact hnone slot hmem hkey
    refine ⟨state, ?_, fun slot hmem => ?_⟩
    · rw [takeMember, hfind, hslot]
      simp only [Option.map_none, hskip hnew, bind, Except.bind, pure, Except.pure]
    · have hkey := hnone slot hmem
      rw [hfilled slot hmem]
      simp only [List.map_append, List.map_cons, List.map_nil, List.mem_append,
        List.mem_singleton, hkey, or_false]
  | some slot =>
    have hmem := List.mem_of_find?_eq_some hslot
    have hkey := List.find?_some hslot
    obtain rfl : slot.key = name := of_decide_eq_true hkey
    have hvalues := hreads slot hmem
    rw [under_append, under_cons_self] at hvalues
    obtain ⟨hnil, -, -⟩ | ⟨value', hone, hdecodes⟩ := hvalues
    · exact absurd hnil (by simp)
    obtain ⟨hpast, hvalue, -⟩ : under slot.key past = [] ∧ value = value' ∧
        under slot.key members = [] := by
      rcases List.append_eq_singleton_iff.mp hone with ⟨hpast, hrest⟩ | ⟨-, hrest⟩
      · exact ⟨hpast, List.cons.inj hrest⟩
      · exact absurd hrest (List.cons_ne_nil _ _)
    subst hvalue
    have hempty : slot.held state = none := by
      rw [hfilled slot hmem, if_neg (under_eq_nil.mp hpast)]
    refine ⟨slot.hold state slot.content, ?_, fun other hother => ?_⟩
    · rw [takeMember, hfind, hslot]
      simp only [Option.map_some, Slot.field, Field.of, hempty, Option.isSome_none,
        Bool.false_eq_true, if_false, hdecodes node hnode, Functor.map, Except.map]
    · simp only [List.map_append, List.map_cons, List.map_nil, List.mem_append,
        List.mem_singleton]
      by_cases hkey : other.key = slot.key
      · rw [hfill.eq_of_key_eq hother hmem hkey, hfill.own slot hmem, if_pos (Or.inr rfl)]
      · rw [hfill.held_hold_of_ne hother hmem hkey, hfilled other hother]
        simp only [hkey, or_false]

/-- All members are read into their slots, or passed over. -/
theorem exists_foldlM_eq (hfill : Slot.Fill slots start) {step : σ → ι → Except ReadError σ}
    {items : List ι}
    (hsteps : List.Forall₂ (fun item member => ∃ node, has node member.2 ∧
      (member.1 ∉ slots.map (·.key) → skip node = .ok ()) ∧
      ∀ state, step state item = takeMember (slots.map Slot.field) skip state member.1 node)
      items members)
    (hreads : ∀ slot ∈ slots, slot.Reads has (under slot.key (past ++ members)))
    (hfilled : Slot.Filled slots past state) :
    ∃ state', items.foldlM step state = .ok state' ∧
      Slot.Filled slots (past ++ members) state' := by
  -- Members move one by one from those to come to those in the past.
  induction hsteps generalizing past state with
  | nil => exact ⟨state, rfl, by rwa [List.append_nil]⟩
  | @cons item member items members hstep _ ih =>
    obtain ⟨node, hnode, hskip, hstep⟩ := hstep
    obtain ⟨state', hstate', hfilled'⟩ := exists_takeMember_eq hfill hreads hnode hskip hfilled
    have hmore : past ++ member :: members = past ++ [(member.1, member.2)] ++ members := by
      rw [List.append_assoc]
      rfl
    rw [hmore] at hreads ⊢
    obtain ⟨last, hlast, hfilled''⟩ := ih hreads hfilled'
    refine ⟨last, ?_, hfilled''⟩
    rw [List.foldlM_cons, hstep, hstate']
    exact hlast

/-- In the end every required slot is filled, and every slot holds what is read. -/
theorem requireFields_eq_ok
    (hreads : ∀ slot ∈ slots, slot.Reads has (under slot.key members))
    (hfilled : Slot.Filled slots members state) :
    requireFields (slots.map Slot.field) state = .ok () ∧
      ∀ slot ∈ slots, (slot.held state).getD slot.missing = slot.content := by
  have hheld : ∀ slot ∈ slots, slot.held state = some slot.content ∨
      slot.held state = none ∧ slot.presence ≠ .required ∧ slot.content = slot.missing := by
    intro slot hslot
    rw [hfilled slot hslot]
    rcases hreads slot hslot with ⟨hnil, hmay⟩ | ⟨value, hone, -⟩
    · exact Or.inr ⟨if_neg (under_eq_nil.mp hnil), hmay⟩
    · refine Or.inl (if_pos ?_)
      by_contra hmissing
      rw [under_eq_nil.mpr hmissing] at hone
      exact absurd hone (List.cons_ne_nil _ _).symm
  constructor
  · have hnone : (slots.map Slot.field).find? (fun field =>
        field.presence = .required && !field.filled state) = none := by
      refine List.find?_eq_none.mpr fun field hfield => ?_
      obtain ⟨slot, hslot, rfl⟩ := List.mem_map.mp hfield
      rcases hheld slot hslot with hsome | ⟨-, hpresence, -⟩
      · simp [Slot.field, Field.of, hsome]
      · simp [Slot.field, Field.of, hpresence]
    rw [requireFields, hnone]
  · intro slot hslot
    rcases hheld slot hslot with hsome | ⟨hnone, -, hmissing⟩
    · rw [hsome, Option.getD_some]
    · rw [hnone, Option.getD_none, hmissing]

end Reading

end ClientPlan.Json

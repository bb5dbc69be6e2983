import ClientPlan.Json.Value
import Mathlib.Data.List.Forall2

/-!
# Written records

When a JSON value writes a record of a documented format, said without a reader. Each key of the
format occurs once at most. What stands under it, or that it may be left out, is said field by
field.
-/

namespace ClientPlan.Json

/-- When a value writes something. -/
abbrev Writing (α : Type) := α → Value → Prop

namespace Writing

/-- A text writes itself. -/
def text : Writing String := fun content value => value = .text content

/-- A truth value writes itself. -/
def flag : Writing Bool := fun content value => value = .boolean content

/-- A whole number writes an index. -/
def index : Writing Nat := fun content value => value = .number (.integer content)

/-- A text writes something by its name. -/
def named {α : Type} (name : α → String) : Writing α := fun content value =>
  value = .text (name content)

/-- A list writes items, one by one. -/
def list {α : Type} (item : Writing α) : Writing (List α) := fun contents value =>
  ∃ values, value = .list values ∧ List.Forall₂ item contents values

end Writing

/-- A key of a documented format, and which values may stand under it. -/
structure Entry where
  /-- The key. -/
  key : String
  /-- Whether these may be the values under the key, none if it is left out. -/
  holds : List Value → Prop

namespace Entry

variable {α : Type}

/-- Something is written once. -/
def Once (writing : Writing α) (content : α) (values : List Value) : Prop :=
  ∃ value, values = [value] ∧ writing content value

/-- A key that stands in every record. -/
def required (key : String) (writing : Writing α) (content : α) : Entry :=
  ⟨key, Once writing content⟩

/-- A key that may be left out, or written `null`, where there is nothing to write. -/
def optional (key : String) (writing : Writing α) (content : Option α) : Entry :=
  ⟨key, fun values =>
    match content with
    | none => values = [] ∨ values = [.null]
    | some content => Once writing content values⟩

/-- A key that may be left out where the default is to be written. -/
def defaulted (key : String) (writing : Writing α) (default content : α) : Entry :=
  ⟨key, fun values => values = [] ∧ content = default ∨ Once writing content values⟩

end Entry

/-- The values under a key of an object, in text order. -/
def under (key : String) (members : List (String × Value)) : List Value :=
  (members.filter fun member => member.1 = key).map (·.2)

/-- Null, a truth value or a text. -/
inductive IsAtom : Value → Prop
  | null : IsAtom .null
  | boolean (value : Bool) : IsAtom (.boolean value)
  | text (value : String) : IsAtom (.text value)

/-- An object writes a record of these entries. Its other members have keys that the format does not
reserve. -/
def WritesRecord (entries : List Entry) (reserved : List String) (value : Value) : Prop :=
  ∃ members, value = .object members ∧
    (∀ entry ∈ entries, entry.holds (under entry.key members)) ∧
    ∀ member ∈ members, member.1 ∈ entries.map (·.key) ∨ member.1 ∉ reserved ∧ IsAtom member.2

end ClientPlan.Json

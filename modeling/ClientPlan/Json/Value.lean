import ClientPlan.Decimal.Shortest
import ClientPlan.Shape

/-!
# JSON values

Numbers are whole numbers of 64 bits or binary floating-point values. An object is the list of its
members in text order, so a repeated key is kept until the members are merged.
-/

namespace ClientPlan.Json

open Decimal (Magnitude Layout)

/-- A JSON number. -/
inductive Number where
  | integer (value : Int)
  | floating (negative : Bool) (magnitude : Magnitude)
deriving DecidableEq, Repr

/-- A JSON value. -/
inductive Value where
  | null
  | boolean (value : Bool)
  | number (value : Number)
  | text (value : String)
  | list (items : List Value)
  | object (members : List (String × Value))
deriving Repr, Inhabited

namespace Value

mutual

/-- Equality of values is decidable. -/
def decideEq : (left right : Value) → Decidable (left = right)
  | .null, .null => isTrue rfl
  | .boolean left, .boolean right =>
    if same : left = right then isTrue (same ▸ rfl)
    else isFalse fun equal => same (Value.boolean.inj equal)
  | .number left, .number right =>
    if same : left = right then isTrue (same ▸ rfl)
    else isFalse fun equal => same (Value.number.inj equal)
  | .text left, .text right =>
    if same : left = right then isTrue (same ▸ rfl)
    else isFalse fun equal => same (Value.text.inj equal)
  | .list left, .list right =>
    match decideItems left right with
    | isTrue same => isTrue (same ▸ rfl)
    | isFalse differ => isFalse fun equal => differ (Value.list.inj equal)
  | .object left, .object right =>
    match decideMembers left right with
    | isTrue same => isTrue (same ▸ rfl)
    | isFalse differ => isFalse fun equal => differ (Value.object.inj equal)
  | .null, .boolean _ | .null, .number _ | .null, .text _ | .null, .list _ | .null, .object _
  | .boolean _, .null | .boolean _, .number _ | .boolean _, .text _ | .boolean _, .list _
  | .boolean _, .object _ | .number _, .null | .number _, .boolean _ | .number _, .text _
  | .number _, .list _ | .number _, .object _ | .text _, .null | .text _, .boolean _
  | .text _, .number _ | .text _, .list _ | .text _, .object _ | .list _, .null
  | .list _, .boolean _ | .list _, .number _ | .list _, .text _ | .list _, .object _
  | .object _, .null | .object _, .boolean _ | .object _, .number _ | .object _, .text _
  | .object _, .list _ => isFalse fun equal => Value.noConfusion equal

/-- Equality of items is decidable. -/
def decideItems : (left right : List Value) → Decidable (left = right)
  | [], [] => isTrue rfl
  | [], _ :: _ => isFalse (by simp)
  | _ :: _, [] => isFalse (by simp)
  | left :: leftRest, right :: rightRest =>
    match decideEq left right, decideItems leftRest rightRest with
    | isTrue same, isTrue sameRest => isTrue (by rw [same, sameRest])
    | isFalse differ, _ => isFalse fun equal => differ (List.cons.inj equal).1
    | _, isFalse differ => isFalse fun equal => differ (List.cons.inj equal).2

/-- Equality of members is decidable. -/
def decideMembers : (left right : List (String × Value)) → Decidable (left = right)
  | [], [] => isTrue rfl
  | [], _ :: _ => isFalse (by simp)
  | _ :: _, [] => isFalse (by simp)
  | (leftKey, left) :: leftRest, (rightKey, right) :: rightRest =>
    if sameKey : leftKey = rightKey then
      match decideEq left right, decideMembers leftRest rightRest with
      | isTrue same, isTrue sameRest => isTrue (by rw [sameKey, same, sameRest])
      | isFalse differ, _ =>
        isFalse fun equal => differ (Prod.mk.inj (List.cons.inj equal).1).2
      | _, isFalse differ => isFalse fun equal => differ (List.cons.inj equal).2
    else isFalse fun equal => sameKey (Prod.mk.inj (List.cons.inj equal).1).1

end

instance : DecidableEq Value := decideEq

/-- Puts a member in place of the one with its key, or after all others. -/
def putMember (key : String) (value : Value) : List (String × Value) → List (String × Value)
  | [] => [(key, value)]
  | (other, held) :: rest =>
    if other = key then (key, value) :: rest else (other, held) :: putMember key value rest

mutual

/-- The value whose objects keep the last of the members with one key. -/
def merged : Value → Value
  | .list items => .list (mergedItems items)
  | .object members => .object (mergedMembers [] members)
  | value => value

/-- The merged items of a list. -/
def mergedItems : List Value → List Value
  | [] => []
  | item :: rest => item.merged :: mergedItems rest

/-- The members of an object put, merged, after those in `kept`. -/
def mergedMembers (kept : List (String × Value)) : List (String × Value) → List (String × Value)
  | [] => kept
  | (key, value) :: rest => mergedMembers (putMember key value.merged kept) rest

end

end Value

/-- Numbers in messages are positional from `1e-5` up to `1e16` and have an exponent elsewhere. The
even one of two equally near decimals is taken. -/
def messageLayout : Layout := ⟨.toEven, fun leading => -5 ≤ leading && leading ≤ 15⟩

/-- What a message calls a number. -/
def Number.found : Number → Found
  | .integer value => .integer value
  | .floating negative magnitude => .floating (Decimal.signedText messageLayout negative magnitude)

/-- What a message calls a value. -/
def Value.found : Value → Found
  | .null => .null
  | .boolean value => .boolean value
  | .number value => value.found
  | .text value => .text value
  | .list _ => .sequence
  | .object _ => .map

/-- The value under a key, if an object holds one. -/
def Value.field? (key : String) : Value → Option Value
  | .object members => (members.find? fun member => member.1 = key).map (·.2)
  | _ => none

end ClientPlan.Json

import ClientPlan.Json.Decoder

/-!
# Decoding records

A record is an object with known keys in any order, or a list of its fields in declaration order.
The fields read so far are held in a state of type `σ`, from which the record is built at the end.
-/

namespace ClientPlan.Json

/-- Where a field of a record may be missing. -/
inductive Presence where
  /-- Nowhere. -/
  | required
  /-- From an object, but not from a list. -/
  | listed
  /-- Anywhere. -/
  | optional
deriving DecidableEq, Repr

/-- A field of a record that is read from a `ν`. -/
structure Field (ν σ : Type) where
  /-- The key of the field. -/
  name : String
  /-- Where it may be missing. -/
  presence : Presence
  /-- Whether it was read already. -/
  filled : σ → Bool
  /-- Reads it. -/
  read : ν → σ → Except ReadError σ

/-- The field that `decode` reads and that `held` and `hold` keep in the state. -/
def Field.of {ν σ α : Type} (name : String) (presence : Presence)
    (decode : ν → Except ReadError α) (held : σ → Option α) (hold : σ → α → σ) : Field ν σ where
  name := name
  presence := presence
  filled state := (held state).isSome
  read node state := hold state <$> decode node

/-- Reads a member of an object: an unknown one is passed over, a known one must be new. -/
def takeMember {ν σ : Type} (fields : List (Field ν σ)) (skip : ν → Except ReadError Unit)
    (state : σ) (name : String) (node : ν) : Except ReadError σ :=
  match fields.find? fun field => field.name = name with
  | none => do
    skip node
    return state
  | some field =>
    if field.filled state then .error (.shape (.duplicateField name)) else field.read node state

/-- Requires every field that an object may not lack. The first missing one is reported. -/
def requireFields {ν σ : Type} (fields : List (Field ν σ)) (state : σ) : Except ReadError Unit :=
  match fields.find? fun field => field.presence = .required && !field.filled state with
  | some field => .error (.shape (.missingField field.name))
  | none => .ok ()

/-- How a kind of record is read. -/
structure Record (σ α : Type) where
  /-- What the record is called. -/
  title : String
  /-- Its fields in declaration order, for a room inside the record. -/
  fields : Nat → List (Field Node σ)
  /-- The state before any field is read. -/
  start : σ
  /-- The record of a state in which every required field is filled. -/
  build : σ → α

namespace Record

variable {σ α : Type}

/-- What a list of the fields of a record is called. -/
def listTitle (record : Record σ α) : String :=
  let count := (record.fields 0).length
  record.title ++ " with " ++ toString count ++ (if count = 1 then " element" else " elements")

/-- Reads one member of a record that is written as an object. -/
def takeEntry (record : Record σ α) (room : Nat) (state : σ) (member : Literal × Node) :
    Except ReadError σ := do
  takeMember (record.fields room) Node.skip state (← member.1.read) member.2

/-- Reads the items of a record that is written as a list, of which `position` are past. -/
def takeItems (record : Record σ α) (ending : Option Fault) :
    List (Field Node σ) → (position : Nat) → List Node → σ → Except ReadError σ
  | [], _, [], state => do
    stopAt ending
    return state
  | [], _, _ :: _, _ => .error (.fault .malformed)
  | field :: fields, position, item :: items, state => do
    let state ← field.read item state
    record.takeItems ending fields (position + 1) items state
  | field :: fields, position, [], state => do
    stopAt ending
    match (field :: fields).findIdx? fun field => field.presence ≠ .optional with
    | some ahead => .error (.shape (.invalidLength (position + ahead) record.listTitle))
    | none => return state

/-- Reads a record. -/
def decode (record : Record σ α) : Decoder α
  | room, .list items ending => do
    let room ← enter room
    record.build <$> record.takeItems ending (record.fields room) 0 items record.start
  | room, .object members ending => do
    let room ← enter room
    let state ← members.foldlM (record.takeEntry room) record.start
    stopAt ending
    requireFields (record.fields room) state
    return record.build state
  | room, .keyless members key => do
    let room ← enter room
    let _ ← members.foldlM (record.takeEntry room) record.start
    .error key.keyError
  | _, node => node.refuse record.title

end Record

end ClientPlan.Json

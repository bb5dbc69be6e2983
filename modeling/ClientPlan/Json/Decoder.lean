import ClientPlan.Json.Draft

/-!
# Decoding drafts

A decoder reads a node of a draft, given how many containers may still be opened inside it. Each
decoder walks its node from left to right and stops at the first error.
-/

namespace ClientPlan.Json

/-- Why a text was not decoded. -/
inductive ReadError where
  | fault (fault : Fault)
  | shape (error : ShapeError)
deriving DecidableEq, Repr

/-- The wording of the error of a text. -/
def ReadError.message (wording : DocumentWording) (text : String) : ReadError → String
  | .fault _ => wording.malformed text
  | .shape error => wording.shape text error

/-- Reads a node in which at most `room` containers may be nested. -/
abbrev Decoder (α : Type) := (room : Nat) → Node → Except ReadError α

/-- How many containers may be nested in a text. -/
def containerLimit : Nat := 127

/-- Opens a container. -/
def enter : Nat → Except ReadError Nat
  | 0 => .error (.fault .malformed)
  | room + 1 => .ok room

/-- Stops at a fault, if there is one. -/
def stopAt : Option Fault → Except ReadError Unit
  | none => .ok ()
  | some fault => .error (.fault fault)

/-- The text of a literal. -/
def Literal.read (literal : Literal) : Except ReadError String :=
  literal.text.mapError .fault

/-- The value of a number. -/
def NumberText.read (number : NumberText) : Except ReadError Number :=
  match number.value with
  | some value => .ok value
  | none => .error (.fault .malformed)

namespace Node

/-- The error of a node that stands in place of a key. -/
def keyError : Node → ReadError
  | .absent => .fault .endsEarly
  | _ => .fault .malformed

/-- What a message calls a node. A container is named without being read. -/
def found : Node → Except ReadError Found
  | .null => .ok .null
  | .boolean value => .ok (.boolean value)
  | .misspelt _ fault => .error (.fault fault)
  | .number value => Number.found <$> value.read
  | .brokenNumber fault => .error (.fault fault)
  | .text literal => Found.text <$> literal.read
  | .list _ _ => .ok .sequence
  | .object _ _ | .keyless _ _ => .ok .map
  | .absent => .error (.fault .endsEarly)
  | .stray => .error (.fault .malformed)

/-- Refuses a node where something else is wanted. -/
def refuse {α : Type} (node : Node) (wanted : String) : Except ReadError α :=
  match node.found with
  | .ok found => .error (.shape (.invalidType found wanted))
  | .error error => .error error

mutual

/-- Passes over a node whose value nobody asks for: it only has to be well formed. -/
def skip : Node → Except ReadError Unit
  | .null | .boolean _ | .number _ => .ok ()
  | .misspelt _ fault => .error (.fault fault)
  | .brokenNumber _ => .error (.fault .malformed)
  | .text literal => literal.skip.mapError .fault
  | .list items ending => do
    skipItems items
    stopAt ending
  | .object members ending => do
    skipMembers members
    stopAt ending
  | .keyless members key => do
    skipMembers members
    .error key.keyError
  | .absent => .error (.fault .endsEarly)
  | .stray => .error (.fault .malformed)

/-- Passes over the items of a list. -/
def skipItems : List Node → Except ReadError Unit
  | [] => .ok ()
  | item :: rest => do
    item.skip
    skipItems rest

/-- Passes over the members of an object. -/
def skipMembers : List (Literal × Node) → Except ReadError Unit
  | [] => .ok ()
  | (key, item) :: rest => do
    key.skip.mapError .fault
    item.skip
    skipMembers rest

end

mutual

/-- The value of a node. -/
def value (room : Nat) : Node → Except ReadError Value
  | .null => .ok .null
  | .boolean value => .ok (.boolean value)
  | .misspelt _ fault => .error (.fault fault)
  | .number value => Value.number <$> value.read
  | .brokenNumber fault => .error (.fault fault)
  | .text literal => Value.text <$> literal.read
  | .list items ending => do
    let room ← enter room
    let values ← valueItems room items
    stopAt ending
    return .list values
  | .object members ending => do
    let room ← enter room
    let values ← valueMembers room members
    stopAt ending
    return .object values
  | .keyless members key => do
    let room ← enter room
    let _ ← valueMembers room members
    .error key.keyError
  | .absent => .error (.fault .endsEarly)
  | .stray => .error (.fault .malformed)

/-- The values of the items of a list. -/
def valueItems (room : Nat) : List Node → Except ReadError (List Value)
  | [] => .ok []
  | item :: rest => do
    let first ← item.value room
    return first :: (← valueItems room rest)

/-- The values of the members of an object. -/
def valueMembers (room : Nat) : List (Literal × Node) → Except ReadError (List (String × Value))
  | [] => .ok []
  | (key, item) :: rest => do
    let name ← key.read
    let first ← item.value room
    return (name, first) :: (← valueMembers room rest)

end

end Node

namespace Decoder

/-- Any value. -/
def any : Decoder Value := fun room node => node.value room

/-- A text. -/
def text : Decoder String
  | _, .text literal => literal.read
  | _, node => node.refuse "a string"

/-- A truth value. -/
def flag : Decoder Bool
  | _, .boolean value => .ok value
  | _, node => node.refuse "a boolean"

/-- What an index is called. -/
def indexName : String := "usize"

/-- The index that a number is. -/
def indexOfNumber : Number → Except ReadError Nat
  | .integer value =>
    if 0 ≤ value then .ok value.toNat
    else .error (.shape (.invalidValue (.integer value) indexName))
  | value => .error (.shape (.invalidType value.found indexName))

/-- An index into a table. -/
def index : Decoder Nat
  | _, .number value => do indexOfNumber (← value.read)
  | _, node => node.refuse indexName

/-- Nothing, written `null`, or a value. -/
def optional {α : Type} (decode : Decoder α) : Decoder (Option α)
  | _, .null => .ok none
  | _, .misspelt true fault => .error (.fault fault)
  | room, node => some <$> decode room node

/-- A list of values. -/
def list {α : Type} (decode : Decoder α) : Decoder (List α)
  | room, .list items ending => do
    let room ← enter room
    let values ← items.mapM (decode room)
    stopAt ending
    return values
  | _, node => node.refuse "a sequence"

/-- The variant of a name. -/
def variant {α : Type} (variants : List (String × α)) (name : String) : Except ReadError α :=
  match variants.find? fun entry => entry.1 = name with
  | some entry => .ok entry.2
  | none => .error (.shape (.unknownVariant name (variants.map (·.1))))

/-- Nothing, written `null`. -/
def unit : Decoder Unit
  | _, .null => .ok ()
  | _, node => node.refuse "unit"

/-- One of several names: a text, or an object whose one key is the name and whose value is
`null`. -/
def choice {α : Type} (variants : List (String × α)) : Decoder α
  | _, .text literal => do variant variants (← literal.read)
  | room, .object [] ending => do
    let _ ← enter room
    .error (.fault (ending.getD .malformed))
  | room, .object ((key, item) :: rest) ending => do
    let room ← enter room
    let value ← variant variants (← key.read)
    unit room item
    if rest.isEmpty then
      stopAt ending
      return value
    else .error (.fault .malformed)
  | room, .keyless members key => do
    let room ← enter room
    match members with
    | [] => .error key.keyError
    | (name, item) :: _ =>
      let _ ← variant variants (← name.read)
      unit room item
      .error (.fault .malformed)
  | _, .absent => .error (.fault .endsEarly)
  | _, _ => .error (.fault .malformed)

/-- Decodes a whole text: one value, and nothing but blanks after it. -/
def run {α : Type} (decode : Decoder α) (text : String) : Except ReadError α := do
  let draft := Draft.ofText text
  let value ← decode containerLimit draft.root
  if draft.trailing then .error (.fault .malformed) else return value

end Decoder

end ClientPlan.Json

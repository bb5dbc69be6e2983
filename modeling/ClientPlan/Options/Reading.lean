import ClientPlan.Options
import ClientPlan.Toml.Document

/-!
# Reading options

Options are the root table of a TOML document. Every key is optional and no other key is allowed.
-/

namespace ClientPlan

open Toml (Item)

/-- Why a text holds no options. -/
inductive OptionsError where
  | malformed
  | shape (error : ShapeError)
deriving DecidableEq, Repr

/-- The wording of the error of a text. -/
def OptionsError.message (wording : DocumentWording) (text : String) : OptionsError → String
  | .malformed => wording.malformed text
  | .shape error => wording.shape text error

namespace Options

/-- The key of the flag for convenience methods. -/
def convenienceKey : String := "convenience-methods"

/-- The key of the flag for protocol methods. -/
def protocolKey : String := "protocol-methods"

/-- The key of the list of operations. -/
def operationsKey : String := "operations"

/-- All keys. -/
def keys : List String := [convenienceKey, protocolKey, operationsKey]

/-- A truth value. -/
def flagOf : Item → Except ShapeError Bool
  | .boolean value => .ok value
  | item => .error (.invalidType item.found "a boolean")

/-- A text. -/
def textOf : Item → Except ShapeError String
  | .text value => .ok value
  | item => .error (.invalidType item.found "a string")

/-- A list of texts. -/
def textsOf : Item → Except ShapeError (List String)
  | .list items => items.mapM textOf
  | .tables elements => elements.mapM fun members => textOf (.table .header members)
  | item => .error (.invalidType item.found "a sequence")

/-- Reads one member of the root table. -/
def take (options : Options) (member : String × Item) : Except ShapeError Options :=
  if member.1 = convenienceKey then do
    return { options with convenienceMethods := ← flagOf member.2 }
  else if member.1 = protocolKey then do
    return { options with protocolMethods := ← flagOf member.2 }
  else if member.1 = operationsKey then do
    return { options with operations := some (← textsOf member.2) }
  else .error (.unknownField member.1 keys)

/-- Reads options. -/
def ofText (text : String) : Except OptionsError Options :=
  match Toml.document text with
  | none => .error .malformed
  | some members => (members.foldlM take {}).mapError .shape

end Options

end ClientPlan

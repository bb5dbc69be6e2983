import ClientPlan.Text.Characters

/-!
# String literals

A literal is kept as written: plain characters and 16-bit units. Its text is read off afterwards, so
that a literal whose text nobody asks for may hold units that pair up badly. Like every part of a
text that is no JSON, a broken literal either ends too early or holds something that no continuation
can mend.
-/

namespace ClientPlan.Json

/-- Why a text is not well formed. -/
inductive Fault where
  /-- The text ends before the value does. -/
  | endsEarly
  /-- Something stands where it cannot, or a limit is passed. -/
  | malformed
deriving DecidableEq, Repr

/-- A part of a string literal. -/
inductive Piece where
  /-- A character, written plainly or by a short escape. -/
  | plain (c : Char)
  /-- A 16-bit unit, written by its four digits. -/
  | unit (value : Nat)
deriving DecidableEq, Repr

/-- A string literal: its parts, and the fault that ends them early. -/
structure Literal where
  pieces : List Piece
  fault : Option Fault
deriving DecidableEq, Repr

/-- The character of a short escape. -/
def shortEscape? : Char → Option Char
  | '"' => some '"'
  | '\\' => some '\\'
  | '/' => some '/'
  | 'b' => some '\x08'
  | 'f' => some '\x0c'
  | 'n' => some '\n'
  | 'r' => some '\r'
  | 't' => some '\t'
  | _ => none

/-- The fault of a text that should hold the four digits of a unit: it ends early if it has fewer
than four bytes left. -/
def digitsFault (text : List Char) : Fault :=
  if (String.ofList (text.take 4)).utf8ByteSize < 4 then .endsEarly else .malformed

/-- Puts a piece before those of a literal. -/
def Literal.before (piece : Piece) (scan : Literal × Option (List Char)) :
    Literal × Option (List Char) :=
  ({ scan.1 with pieces := piece :: scan.1.pieces }, scan.2)

/-- Reads a literal after its opening quote. The rest is missing if the literal has a fault. -/
def scanLiteral : List Char → Literal × Option (List Char)
  | [] => (⟨[], some .endsEarly⟩, none)
  | '"' :: rest => (⟨[], none⟩, some rest)
  | '\\' :: 'u' :: first :: second :: third :: fourth :: rest =>
    match Text.hexValues? [first, second, third, fourth] with
    | some value => Literal.before (.unit value) (scanLiteral rest)
    | none => (⟨[], some (digitsFault [first, second, third, fourth])⟩, none)
  | '\\' :: 'u' :: text => (⟨[], some (digitsFault text)⟩, none)
  | ['\\'] => (⟨[], some .endsEarly⟩, none)
  | '\\' :: c :: rest =>
    match shortEscape? c with
    | some c => Literal.before (.plain c) (scanLiteral rest)
    | none => (⟨[], some .malformed⟩, none)
  | c :: rest =>
    if c < ' ' then (⟨[], some .malformed⟩, none)
    else Literal.before (.plain c) (scanLiteral rest)

/-- Whether a unit opens a pair. -/
def opensPair (unit : Nat) : Bool := 0xD800 ≤ unit && unit ≤ 0xDBFF

/-- Whether a unit closes a pair. -/
def closesPair (unit : Nat) : Bool := 0xDC00 ≤ unit && unit ≤ 0xDFFF

/-- The character of a pair of units. -/
def pairedChar (opening closing : Nat) : Char :=
  Char.ofNat (0x10000 + 0x400 * (opening - 0xD800) + (closing - 0xDC00))

/-- The characters of a row of pieces that ends with `fault`, if at all early. The first fault in
text order decides. -/
def readPieces (fault : Option Fault) : List Piece → Except Fault (List Char)
  | [] => fault.elim (.ok []) .error
  | .plain c :: rest => (c :: ·) <$> readPieces fault rest
  | .unit opening :: rest =>
    if closesPair opening then .error .malformed
    else if opensPair opening then
      match rest with
      | .unit closing :: rest =>
        if closesPair closing then (pairedChar opening closing :: ·) <$> readPieces fault rest
        else .error .malformed
      | .plain _ :: _ => .error .malformed
      | [] => .error (fault.getD .malformed)
    else (Char.ofNat opening :: ·) <$> readPieces fault rest

/-- The text of a literal. -/
def Literal.text (literal : Literal) : Except Fault String :=
  String.ofList <$> readPieces literal.fault literal.pieces

/-- Passes over a literal whose text nobody asks for. -/
def Literal.skip (literal : Literal) : Except Fault Unit :=
  literal.fault.elim (.ok ()) .error

end ClientPlan.Json

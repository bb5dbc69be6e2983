import ClientPlan.Json.NumberText

/-!
# Drafts of JSON values

A text is read into a draft: the value it spells as far as it is well formed, each fault at its
place. Whoever decodes a draft walks it from left to right, so the first fault in text order is the
one reported, whether it lies in the text or in the shape of the value.
-/

namespace ClientPlan.Json

/-- A value as far as a text spells it. -/
inductive Node where
  | null
  | boolean (value : Bool)
  /-- A word that begins like `null` or, otherwise, like `true` or `false`. -/
  | misspelt (likeNull : Bool) (fault : Fault)
  | number (value : NumberText)
  /-- A number that lacks a digit. -/
  | brokenNumber (fault : Fault)
  | text (literal : Literal)
  /-- A list, and the fault where neither a comma nor the end follows an item. -/
  | list (items : List Node) (ending : Option Fault)
  /-- An object, and the fault where neither a comma nor the end follows a member. -/
  | object (members : List (Literal × Node)) (ending : Option Fault)
  /-- An object in which something else stands where a key should. -/
  | keyless (members : List (Literal × Node)) (key : Node)
  /-- The text ends where a value should begin. -/
  | absent
  /-- Something that begins no value. -/
  | stray
deriving Repr, Inhabited

/-- Blanks between the parts of a text: the space, the tab and the two line breaks. -/
def isBlank (c : Char) : Bool := c == ' ' || c == '\t' || c == '\n' || c == '\r'

/-- The text after leading blanks. -/
def afterBlanks (text : List Char) : List Char := text.dropWhile isBlank

/-- A text after a node was read. The rest is missing if the node has a fault that stops reading. -/
abbrev Node.Scan := Node × Option (List Char)

/-- Reads a word of which the first letter is past. -/
def scanWord (node : Node) (likeNull : Bool) : List Char → List Char → Node.Scan
  | [], text => (node, some text)
  | _ :: _, [] => (.misspelt likeNull .endsEarly, none)
  | expected :: letters, c :: text =>
    if c = expected then scanWord node likeNull letters text
    else (.misspelt likeNull .malformed, none)

/-- Reads a number. -/
def scanNumberNode (text : List Char) : Node.Scan :=
  match scanNumber text with
  | .read number rest => (.number number, some rest)
  | .broken fault => (.brokenNumber fault, none)

mutual

/-- Reads a node; `depth` bounds the steps of the recursion. -/
def scanNode : Nat → List Char → Node.Scan
  | 0, _ => (.stray, none)
  | depth + 1, text =>
    match afterBlanks text with
    | [] => (.absent, none)
    | 'n' :: rest => scanWord .null true ['u', 'l', 'l'] rest
    | 't' :: rest => scanWord (.boolean true) false ['r', 'u', 'e'] rest
    | 'f' :: rest => scanWord (.boolean false) false ['a', 'l', 's', 'e'] rest
    | '"' :: rest =>
      let literal := scanLiteral rest
      (.text literal.1, literal.2)
    | '[' :: rest =>
      let scan := scanItems true depth rest
      (.list scan.1 scan.2.1, scan.2.2)
    | '{' :: rest =>
      let scan := scanMembers true depth rest
      match scan.2.1 with
      | .inl ending => (.object scan.1 ending, scan.2.2)
      | .inr key => (.keyless scan.1 key, none)
    | c :: rest => if c = '-' || c.isDigit then scanNumberNode (c :: rest) else (.stray, none)

/-- Reads the items of a list up to its end. -/
def scanItems (first : Bool) : Nat → List Char → List Node × Option Fault × Option (List Char)
  | 0, _ => ([], some .malformed, none)
  | depth + 1, text =>
    match afterBlanks text, first with
    | [], _ => ([], some .endsEarly, none)
    | ']' :: rest, _ => ([], none, some rest)
    | ',' :: rest, false => scanItemsFrom depth rest
    | _ :: _, false => ([], some .malformed, none)
    | rest, true => scanItemsFrom depth rest

/-- Reads an item and those after it. -/
def scanItemsFrom : Nat → List Char → List Node × Option Fault × Option (List Char)
  | 0, _ => ([], some .malformed, none)
  | depth + 1, text =>
    match scanNode depth text with
    | (node, none) => ([node], some .malformed, none)
    | (node, some rest) =>
      let scan := scanItems false depth rest
      (node :: scan.1, scan.2)

/-- Reads the members of an object up to its end, or up to what stands in place of a key. -/
def scanMembers (first : Bool) :
    Nat → List Char → List (Literal × Node) × (Option Fault ⊕ Node) × Option (List Char)
  | 0, _ => ([], .inl (some .malformed), none)
  | depth + 1, text =>
    match afterBlanks text, first with
    | [], _ => ([], .inl (some .endsEarly), none)
    | '}' :: rest, _ => ([], .inl none, some rest)
    | ',' :: rest, false => scanMembersFrom depth rest
    | _ :: _, false => ([], .inl (some .malformed), none)
    | rest, true => scanMembersFrom depth rest

/-- Reads a member and those after it. -/
def scanMembersFrom :
    Nat → List Char → List (Literal × Node) × (Option Fault ⊕ Node) × Option (List Char)
  | 0, _ => ([], .inl (some .malformed), none)
  | depth + 1, text =>
    match afterBlanks text with
    | '"' :: rest =>
      match scanLiteral rest with
      | (key, none) => ([(key, .stray)], .inl (some .malformed), none)
      | (key, some rest) =>
        match scanMemberValue depth rest with
        | (node, none) => ([(key, node)], .inl (some .malformed), none)
        | (node, some rest) =>
          let scan := scanMembers false depth rest
          ((key, node) :: scan.1, scan.2)
    | rest => ([], .inr (scanNode depth rest).1, none)

/-- Reads the colon and the value of a member. -/
def scanMemberValue : Nat → List Char → Node.Scan
  | 0, _ => (.stray, none)
  | depth + 1, text =>
    match afterBlanks text with
    | [] => (.absent, none)
    | ':' :: rest => scanNode depth rest
    | _ :: _ => (.stray, none)

end

/-- A text read as one value: the value, and whether more than blanks follows it. -/
structure Draft where
  root : Node
  trailing : Bool
deriving Repr, Inhabited

/-- The steps that reading a text of this length may take. -/
def scanSteps (text : List Char) : Nat := 3 * text.length + 3

/-- Reads a text as one value. -/
def Draft.ofText (text : String) : Draft :=
  let scan := scanNode (scanSteps text.toList) text.toList
  ⟨scan.1, !(afterBlanks (scan.2.getD [])).isEmpty⟩

end ClientPlan.Json

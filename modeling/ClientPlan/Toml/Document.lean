import ClientPlan.Toml.Item

/-!
# TOML documents

A document is a row of pairs, each on a line of its own, and of headers that open tables. The whole
text is read before any of it is used.
-/

namespace ClientPlan.Toml

/-- How many lists and tables may be nested, and how many parts a dotted key may have. -/
def nestingLimit : Nat := 79

/-- Whether a character may stand in an unquoted key. -/
def inBareKey (c : Char) : Bool := c.isAlphanum || c == '-' || c == '_'

/-- One part of a key. -/
def keyPart : Reader String := fun text =>
  match text with
  | '"' :: _ | '\'' :: _ => lineString text
  | _ =>
    match text.span inBareKey with
    | ([], _) => none
    | (name, rest) => some (String.ofList name, rest)

/-- The parts of a key; `steps` bounds their number. -/
def keyParts : (steps : Nat) → Reader (List String)
  | 0, _ => none
  | steps + 1, text => do
    let (name, rest) ← keyPart (afterBlanks text)
    match afterBlanks rest with
    | '.' :: rest =>
      let (names, rest) ← keyParts steps rest
      return (name :: names, rest)
    | rest => return ([name], rest)

/-- A key: its first parts and its last one. -/
def key : Reader (List String × String) := fun text => do
  let (names, rest) ← keyParts nestingLimit text
  return ((names.dropLast, ← names.getLast?), rest)

/-- The rest of a word of which the first letter is past. -/
def afterWord : (letters : List Char) → List Char → Option (List Char)
  | [], text => some text
  | c :: letters, text => do afterWord letters (← after c text)

mutual

/-- A value, with at most `room` lists and tables nested in it; `steps` bounds the recursion. -/
def value (room : Nat) : (steps : Nat) → Reader Item
  | 0, _ => none
  | steps + 1, text =>
    match text with
    | [] => none
    | '[' :: rest => if room = 0 then none else items (room - 1) steps rest
    | '\x7b' :: rest => if room = 0 then none else inlineTable (room - 1) steps rest
    | '"' :: _ | '\'' :: _ => (string text).map fun (value, rest) => (.text value, rest)
    | 't' :: rest => (afterWord ['r', 'u', 'e'] rest).map fun rest => (.boolean true, rest)
    | 'f' :: rest => (afterWord ['a', 'l', 's', 'e'] rest).map fun rest => (.boolean false, rest)
    | _ => (scalar text).map fun (value, rest) => (.scalar value, rest)
termination_by structural steps => steps

/-- The items of a list up to its end. -/
def items (room : Nat) : (steps : Nat) → Reader Item
  | 0, _ => none
  | steps + 1, text => (itemList room steps text).map fun (items, rest) => (.list items, rest)
termination_by structural steps => steps

/-- The items of a list, as they follow its opening bracket or a comma. -/
def itemList (room : Nat) : (steps : Nat) → Reader (List Item)
  | 0, _ => none
  | steps + 1, text =>
    match afterGap false text with
    | ']' :: rest => some ([], rest)
    | text => do
      let (item, rest) ← value room steps text
      match afterGap false rest with
      | ']' :: rest => return ([item], rest)
      | ',' :: rest =>
        let (items, rest) ← itemList room steps rest
        return (item :: items, rest)
      | _ => none
termination_by structural steps => steps

/-- A table between braces, of which the first is past. -/
def inlineTable (room : Nat) : (steps : Nat) → Reader Item
  | 0, _ => none
  | steps + 1, text =>
    match afterBlanks text with
    | '\x7d' :: rest => some (.table .inline [], rest)
    | text => do
      let (pairs, rest) ← pairList room steps text
      return (.table .inline (← putAll pairs []), rest)
termination_by structural steps => steps

/-- One or more pairs up to a closing brace. -/
def pairList (room : Nat) : (steps : Nat) → Reader (List Pair)
  | 0, _ => none
  | steps + 1, text => do
    let (pair, rest) ← pair room steps text
    match afterBlanks rest with
    | '\x7d' :: rest => return ([pair], rest)
    | ',' :: rest =>
      let (pairs, rest) ← pairList room steps rest
      return (pair :: pairs, rest)
    | _ => none
termination_by structural steps => steps

/-- A key and its value. -/
def pair (room : Nat) : (steps : Nat) → Reader Pair
  | 0, _ => none
  | steps + 1, text => do
    let ((path, name), rest) ← key text
    let (item, rest) ← value room steps (afterBlanks (← after '=' rest))
    return (⟨path, name, item⟩, rest)
termination_by structural steps => steps

end

/-- A line of a document. -/
inductive Line where
  | pair (pair : Pair)
  | header (header : Header)
deriving Repr, Inhabited

/-- The steps that reading a text of this length may take. -/
def readSteps (text : List Char) : Nat := 4 * text.length + 4

/-- A header after its first bracket. -/
def header : Reader Header := fun text =>
  match text with
  | '[' :: text => do
    let ((path, name), rest) ← key text
    return (⟨path, name, true⟩, ← after ']' (← after ']' rest))
  | _ => do
    let ((path, name), rest) ← key text
    return (⟨path, name, false⟩, ← after ']' rest)

/-- The lines of a document, without the empty ones. -/
def documentLines : (steps : Nat) → List Char → Option (List Line)
  | 0, _ => none
  | steps + 1, text =>
    match afterBlanks text with
    | [] => some []
    | '[' :: text => do
      let (header, rest) ← header text
      return .header header :: (← documentLines steps (← afterLine? rest))
    | c :: text =>
      if c = '#' || c = '\n' || c = '\r' then do
        documentLines steps (← afterLine? (c :: text))
      else do
        let (pair, rest) ← pair nestingLimit (readSteps text) (c :: text)
        return .pair pair :: (← documentLines steps (← afterLine? rest))

/-- The pairs before the first header, and each header with the pairs after it. -/
def sections : List Line → List Pair × List (Header × List Pair)
  | [] => ([], [])
  | .pair pair :: rest => (pair :: (sections rest).1, (sections rest).2)
  | .header header :: rest => ([], (header, (sections rest).1) :: (sections rest).2)

/-- The text after a byte order mark, if there is one. -/
def afterMark : List Char → List Char
  | '\uFEFF' :: rest => rest
  | text => text

/-- The members of the root table of a document, or nothing if the text is malformed. -/
def document (text : String) : Option Members := do
  let text := afterMark text.toList
  let parts := sections (← documentLines (text.length + 1) text)
  let root ← putAll parts.1 []
  parts.2.foldlM (fun root part => openSection root part.1 part.2) root

end ClientPlan.Toml

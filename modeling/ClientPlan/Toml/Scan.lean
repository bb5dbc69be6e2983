import ClientPlan.Text.Characters

/-!
# Parts of a TOML text

Blanks, line ends, comments and strings. A reader gives what stands at the start of a text and the
rest, or nothing if the text is malformed there.
-/

namespace ClientPlan.Toml

/-- Reads something at the start of a text. -/
abbrev Reader (α : Type) := List Char → Option (α × List Char)

/-- Blanks inside a line. -/
def isBlank (c : Char) : Bool := c == ' ' || c == '\t'

/-- The text after leading blanks. -/
def afterBlanks (text : List Char) : List Char := text.dropWhile isBlank

/-- The characters that stand for themselves in comments and strings: all but controls other than
the tab. -/
def isPlain (c : Char) : Bool := c == '\t' || (' ' ≤ c && c != '\x7f')

/-- The text after a line break. -/
def afterBreak? : List Char → Option (List Char)
  | '\n' :: rest => some rest
  | '\r' :: '\n' :: rest => some rest
  | _ => none

/-- The text after a comment, if there is one. -/
def afterComment : List Char → List Char
  | '#' :: rest => rest.dropWhile isPlain
  | text => text

/-- The text after blanks, a comment and the line break, or the end of the text. -/
def afterLine? (text : List Char) : Option (List Char) :=
  match afterComment (afterBlanks text) with
  | [] => some []
  | rest => afterBreak? rest

/-- The text after blanks, line breaks and comments that end with one; `inComment` says whether it
begins inside a comment. -/
def afterGap (inComment : Bool) : List Char → List Char
  | [] => []
  | '\n' :: rest => afterGap false rest
  | '\r' :: '\n' :: rest => afterGap false rest
  | c :: rest =>
    if inComment && isPlain c then afterGap true rest
    else if !inComment && isBlank c then afterGap false rest
    else if !inComment && c == '#' then afterGap true rest
    else c :: rest

/-- The text after blanks and line breaks. -/
def afterBreaks : List Char → List Char
  | '\n' :: rest => afterBreaks rest
  | '\r' :: '\n' :: rest => afterBreaks rest
  | ' ' :: rest => afterBreaks rest
  | '\t' :: rest => afterBreaks rest
  | text => text

/-- The character of a short escape. -/
def shortEscape? : Char → Option Char
  | 'b' => some '\x08'
  | 'f' => some '\x0c'
  | 'n' => some '\n'
  | 'r' => some '\r'
  | 't' => some '\t'
  | '\\' => some '\\'
  | '"' => some '"'
  | _ => none

/-- The character of a code point, unless it is half of a pair or past the last one. -/
def charOfCode? (code : Nat) : Option Char :=
  if h : code.isValidChar then some (Char.ofNatAux code h) else none

/-- The character of a row of hexadecimal digits at the start of a text. -/
def codeEscape (count : Nat) : Reader Char := fun text =>
  if text.length < count then none
  else do
    let code ← Text.hexValues? (text.take count)
    return (← charOfCode? code, text.drop count)

/-- The character of an escape after its backslash. -/
def escape : Reader Char
  | 'u' :: rest => codeEscape 4 rest
  | 'U' :: rest => codeEscape 8 rest
  | c :: rest => (shortEscape? c).map fun c => (c, rest)
  | [] => none

/-- Puts a character before those read. -/
def before (c : Char) (read : Option (List Char × List Char)) : Option (List Char × List Char) :=
  read.map fun (text, rest) => (c :: text, rest)

/-- The characters of a string on one line up to its closing quote; `steps` bounds their number. -/
def basicText : (steps : Nat) → Reader (List Char)
  | 0, _ => none
  | steps + 1, text =>
    match text with
    | '"' :: rest => some ([], rest)
    | '\\' :: rest => do
      let (c, rest) ← escape rest
      before c (basicText steps rest)
    | c :: rest => if isPlain c then before c (basicText steps rest) else none
    | [] => none

/-- The characters of a string without escapes on one line up to its closing quote. -/
def literalText : Reader (List Char)
  | [] => none
  | c :: rest =>
    if c = '\'' then some ([], rest)
    else if isPlain c then before c (literalText rest)
    else none

/-- Up to two quotes that belong to a string before its closing ones, of which three are past. -/
def lastQuotes (quote : Char) (text : List Char) : List Char × List Char :=
  let quotes := (text.take 2).takeWhile (· == quote)
  (quotes, text.drop quotes.length)

/-- The text after the rest of a line and the blanks and lines that follow, if a line ends here. -/
def afterFold? (text : List Char) : Option (List Char) :=
  (afterBreak? (afterBlanks text)).map afterBreaks

/-- The characters of a string over several lines up to its closing quotes. -/
def longBasicText : (steps : Nat) → Reader (List Char)
  | 0, _ => none
  | steps + 1, text =>
    match text with
    | '"' :: '"' :: '"' :: rest => some (lastQuotes '"' rest)
    | '\\' :: rest =>
      match afterFold? rest with
      | some rest => longBasicText steps rest
      | none => do
        let (c, rest) ← escape rest
        before c (longBasicText steps rest)
    | '\n' :: rest => before '\n' (longBasicText steps rest)
    | '\r' :: '\n' :: rest => before '\n' (longBasicText steps rest)
    | c :: rest => if isPlain c then before c (longBasicText steps rest) else none
    | [] => none

/-- The characters of a string without escapes over several lines up to its closing quotes. -/
def longLiteralText : Reader (List Char)
  | '\'' :: '\'' :: '\'' :: rest => some (lastQuotes '\'' rest)
  | '\n' :: rest => before '\n' (longLiteralText rest)
  | '\r' :: '\n' :: rest => before '\n' (longLiteralText rest)
  | c :: rest => if isPlain c then before c (longLiteralText rest) else none
  | [] => none

/-- The text after a line break, if there is one. -/
def afterFirstBreak (text : List Char) : List Char := (afterBreak? text).getD text

/-- A string on one line. -/
def lineString (text : List Char) : Option (String × List Char) :=
  match text with
  | '"' :: rest => (basicText rest.length rest).map fun (text, rest) => (String.ofList text, rest)
  | '\'' :: rest => (literalText rest).map fun (text, rest) => (String.ofList text, rest)
  | _ => none

/-- A string of any form. -/
def string (text : List Char) : Option (String × List Char) :=
  match text with
  | '"' :: '"' :: '"' :: rest =>
    let rest := afterFirstBreak rest
    (longBasicText rest.length rest).map fun (text, rest) => (String.ofList text, rest)
  | '\'' :: '\'' :: '\'' :: rest =>
    (longLiteralText (afterFirstBreak rest)).map fun (text, rest) => (String.ofList text, rest)
  | _ => lineString text

end ClientPlan.Toml

import ClientPlan.Proofs.Json.Grammar
import ClientPlan.Toml.Item
import Mathlib.Data.List.Forall2

/-!
# Texts of TOML documents

When lines spell members of the root table, said without a reader. A line holds one member at most.
Characters between double quotes may be escaped in any of the ways there are, blanks may stand
between the parts of a line, and a comment at its end. Of the values only truth values and lists of
strings on one line are spelled.
-/

namespace ClientPlan.Toml

/-- A text of blanks. -/
def AllBlank (text : List Char) : Prop := ∀ c ∈ text, c = ' ' ∨ c = '\t'

instance (text : List Char) : Decidable (AllBlank text) :=
  List.decidableBAll (fun c => c = ' ' ∨ c = '\t') text

/-- A character that comments and strings hold as it is. -/
def IsPrintable (c : Char) : Prop := c = '\t' ∨ 0x20 ≤ c.toNat ∧ c.toNat ≠ 0x7F

instance (c : Char) : Decidable (IsPrintable c) :=
  inferInstanceAs (Decidable (c = '\t' ∨ 0x20 ≤ c.toNat ∧ c.toNat ≠ 0x7F))

/-- A text that comments and strings hold as it is. -/
def AllPrintable (text : List Char) : Prop := ∀ c ∈ text, IsPrintable c

instance (text : List Char) : Decidable (AllPrintable text) := List.decidableBAll IsPrintable text

/-- A text of letters, digits, dashes and underscores. -/
def AllBare (text : List Char) : Prop := ∀ c ∈ text, c.isAlphanum = true ∨ c = '-' ∨ c = '_'

instance (text : List Char) : Decidable (AllBare text) :=
  List.decidableBAll (fun c : Char => c.isAlphanum = true ∨ c = '-' ∨ c = '_') text

/-- The characters with an escape of two letters, behind the second of these. -/
def shortEscapes : List (Char × Char) :=
  [('b', '\x08'), ('t', '\t'), ('n', '\n'), ('f', '\x0c'), ('r', '\r'), ('"', '"'), ('\\', '\\')]

/-- Hexadecimal digits spell a code point. -/
def SpellsCode (digits : List Char) (code : Nat) : Prop :=
  ∃ values, List.Forall₂ Json.HexDigit digits values ∧
    values.foldl (fun code value => 16 * code + value) 0 = code

/-- What stands behind a backslash spells a character. -/
inductive SpellsEscape : List Char → Char → Prop
  | short {letter c : Char} (h : (letter, c) ∈ shortEscapes) : SpellsEscape [letter] c
  | code {digits : List Char} {c : Char} (hlength : digits.length = 4)
      (hcode : SpellsCode digits c.toNat) : SpellsEscape ('u' :: digits) c
  | longCode {digits : List Char} {c : Char} (hlength : digits.length = 8)
      (hcode : SpellsCode digits c.toNat) : SpellsEscape ('U' :: digits) c

/-- What stands between two double quotes spells the characters of a text. -/
inductive SpellsChars : List Char → List Char → Prop
  | nil : SpellsChars [] []
  | plain {c : Char} {written text : List Char} (hprintable : IsPrintable c) (hquote : c ≠ '"')
      (hslash : c ≠ '\\') (h : SpellsChars written text) :
      SpellsChars (c :: written) (c :: text)
  | escape {escaped : List Char} {c : Char} {written text : List Char}
      (hescape : SpellsEscape escaped c) (h : SpellsChars written text) :
      SpellsChars ('\\' :: (escaped ++ written)) (c :: text)

/-- A text spells a string between double quotes. -/
inductive SpellsText : List Char → String → Prop
  | quoted {written text : List Char} (h : SpellsChars written text) :
      SpellsText ('"' :: (written ++ ['"'])) (String.ofList text)

/-- A text spells a key, with or without quotes. -/
inductive SpellsKey : List Char → String → Prop
  | bare {written : List Char} (hne : written ≠ []) (hbare : AllBare written) :
      SpellsKey written (String.ofList written)
  | text {written : List Char} {name : String} (h : SpellsText written name) :
      SpellsKey written name
  | literal {written : List Char} (hprintable : AllPrintable written) (hquote : '\'' ∉ written) :
      SpellsKey ('\'' :: (written ++ ['\''])) (String.ofList written)

/-- What follows the opening bracket of a list spells strings up to the closing bracket. A comma may
stand behind the last of them. -/
inductive SpellsTexts : List Char → List String → Prop
  | close {blanks : List Char} (hblanks : AllBlank blanks) : SpellsTexts (blanks ++ [']']) []
  | last {before written after : List Char} {name : String} (hbefore : AllBlank before)
      (h : SpellsText written name) (hafter : AllBlank after) :
      SpellsTexts (before ++ (written ++ (after ++ [']']))) [name]
  | cons {before written after others : List Char} {name : String} {names : List String}
      (hbefore : AllBlank before) (h : SpellsText written name) (hafter : AllBlank after)
      (hothers : SpellsTexts others names) :
      SpellsTexts (before ++ (written ++ (after ++ ',' :: others))) (name :: names)

/-- A text spells a value. -/
inductive SpellsItem : List Char → Item → Prop
  | trueWord : SpellsItem ['t', 'r', 'u', 'e'] (.boolean true)
  | falseWord : SpellsItem ['f', 'a', 'l', 's', 'e'] (.boolean false)
  | texts {written : List Char} {names : List String} (h : SpellsTexts written names) :
      SpellsItem ('[' :: written) (.list (names.map .text))

/-- Blanks at the end of a line, with or without a comment behind them. -/
inductive EndsLine : List Char → Prop
  | blank {blanks : List Char} (hblanks : AllBlank blanks) : EndsLine blanks
  | comment {blanks text : List Char} (hblanks : AllBlank blanks) (htext : AllPrintable text) :
      EndsLine (blanks ++ '#' :: text)

/-- A line spells no member or one. -/
inductive SpellsLine : List Char → Members → Prop
  | gap {line : List Char} (h : EndsLine line) : SpellsLine line []
  | member {before key between inner written ending : List Char} {name : String} {item : Item}
      (hbefore : AllBlank before) (hkey : SpellsKey key name) (hbetween : AllBlank between)
      (hinner : AllBlank inner) (h : SpellsItem written item) (hending : EndsLine ending) :
      SpellsLine (before ++ (key ++ (between ++ '=' :: (inner ++ (written ++ ending)))))
        [(name, item)]

/-- Lines spell members in order. -/
inductive SpellsLines : List (List Char) → Members → Prop
  | nil : SpellsLines [] []
  | cons {line : List Char} {lines : List (List Char)} {first others : Members}
      (hline : SpellsLine line first) (h : SpellsLines lines others) :
      SpellsLines (line :: lines) (first ++ others)

/-- A line break: a line feed, with or without a carriage return before it. -/
def IsBreak (text : List Char) : Prop := text = ['\n'] ∨ text = ['\r', '\n']

/-- Lines with line breaks between them make up a text. -/
inductive Joins : List (List Char) → List Char → Prop
  | last (line : List Char) : Joins [line] line
  | cons (line : List Char) {lineBreak text : List Char} {lines : List (List Char)}
      (hbreak : IsBreak lineBreak) (h : Joins lines text) :
      Joins (line :: lines) (line ++ (lineBreak ++ text))

/-- A text consists of lines, with or without a byte order mark before them. -/
inductive HasLines : String → List (List Char) → Prop
  | unmarked {text : String} {lines : List (List Char)} (h : Joins lines text.toList) :
      HasLines text lines
  | marked {text : String} {written : List Char} {lines : List (List Char)}
      (hmark : text.toList = '\uFEFF' :: written) (h : Joins lines written) : HasLines text lines

/-- Lines one after the other spell their members one after the other. -/
theorem SpellsLines.append {lines lines' : List (List Char)} {members members' : Members}
    (h : SpellsLines lines members) (h' : SpellsLines lines' members') :
    SpellsLines (lines ++ lines') (members ++ members') := by
  induction h with
  | nil => exact h'
  | cons hline _ ih =>
    rw [List.cons_append, List.append_assoc]
    exact .cons hline ih

/-- Every part of the lines spells a part of the members. -/
theorem SpellsLines.exists_of_append {lines lines' : List (List Char)} {members : Members}
    (h : SpellsLines (lines ++ lines') members) :
    ∃ first second, members = first ++ second ∧ SpellsLines lines first ∧
      SpellsLines lines' second := by
  induction lines generalizing members with
  | nil => exact ⟨[], members, rfl, .nil, h⟩
  | cons line lines ih =>
    cases h with
    | @cons _ _ head others hline h =>
      obtain ⟨first, second, rfl, hfirst, hsecond⟩ := ih h
      exact ⟨head ++ first, second, (List.append_assoc ..).symm, .cons hline hfirst, hsecond⟩

/-- Every number below a power of sixteen has digits. -/
theorem exists_spellsCode {count code : Nat} (h : code < Nat.pow 16 count) :
    ∃ digits, digits.length = count ∧ SpellsCode digits code := by
  induction count generalizing code with
  | zero => exact ⟨[], rfl, [], .nil, (Nat.lt_one_iff.mp h).symm⟩
  | succ count ih =>
    have hshorter : code / 16 < Nat.pow 16 count := by
      have hmul : Nat.pow 16 (count + 1) = Nat.pow 16 count * 16 := rfl
      omega
    obtain ⟨digits, hlength, values, hdigits, hcode⟩ := ih hshorter
    have hlast : code % 16 < "0123456789abcdef".toList.length := Nat.mod_lt code (by decide)
    refine ⟨digits ++ ["0123456789abcdef".toList[code % 16]], by simp [hlength],
      values ++ [code % 16], ?_, ?_⟩
    · exact List.rel_append hdigits (.cons (Or.inl (List.getElem?_eq_getElem hlast)) .nil)
    · rw [List.foldl_append, hcode]
      exact Nat.div_add_mod code 16

/-- Every text can be spelled between double quotes. -/
theorem exists_spellsChars (text : List Char) : ∃ written, SpellsChars written text := by
  induction text with
  | nil => exact ⟨[], .nil⟩
  | cons c text ih =>
    obtain ⟨written, h⟩ := ih
    have hlt : c.toNat < Nat.pow 16 8 := by
      rcases c.valid with hlow | hhigh
      · exact Nat.lt_trans hlow (by decide)
      · exact Nat.lt_trans hhigh.2 (by decide)
    obtain ⟨digits, hlength, hcode⟩ := exists_spellsCode hlt
    exact ⟨_, .escape (.longCode hlength hcode) h⟩

/-- Every list of strings can be spelled. -/
theorem exists_spellsTexts (names : List String) : ∃ written, SpellsTexts written names := by
  have hblank : AllBlank [] := List.forall_mem_nil _
  induction names with
  | nil => exact ⟨_, .close hblank⟩
  | cons name names ih =>
    obtain ⟨others, hothers⟩ := ih
    obtain ⟨written, h⟩ := exists_spellsChars name.toList
    have htext := SpellsText.quoted h
    rw [String.ofList_toList] at htext
    exact ⟨_, .cons hblank htext hblank hothers⟩

/-- Every truth value can be spelled. -/
theorem exists_spellsItem_boolean (value : Bool) :
    ∃ written, SpellsItem written (.boolean value) := by
  cases value with
  | false => exact ⟨_, .falseWord⟩
  | true => exact ⟨_, .trueWord⟩

/-- A name of letters, digits, dashes and underscores may stand without quotes. -/
theorem spellsKey_bare {name : String} (hne : name.toList ≠ []) (hbare : AllBare name.toList) :
    SpellsKey name.toList name := by
  have hkey := SpellsKey.bare hne hbare
  rwa [String.ofList_toList] at hkey

/-- A key and a value can be spelled on a line. -/
theorem exists_spellsLine {key written : List Char} {name : String} {item : Item}
    (hkey : SpellsKey key name) (h : SpellsItem written item) :
    ∃ line, SpellsLine line [(name, item)] := by
  have hblank : AllBlank [] := List.forall_mem_nil _
  exact ⟨_, .member hblank hkey hblank hblank h (.blank hblank)⟩

/-- One or more lines make up a text. -/
theorem exists_hasLines (line : List Char) (lines : List (List Char)) :
    ∃ text, HasLines text (line :: lines) := by
  have hjoins : ∃ written, Joins (line :: lines) written := by
    induction lines generalizing line with
    | nil => exact ⟨line, .last line⟩
    | cons next lines ih =>
      obtain ⟨written, h⟩ := ih next
      exact ⟨_, .cons line (Or.inl rfl) h⟩
  obtain ⟨written, h⟩ := hjoins
  exact ⟨String.ofList written, .unmarked (by rwa [String.toList_ofList])⟩

end ClientPlan.Toml

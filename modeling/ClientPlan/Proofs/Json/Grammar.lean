import ClientPlan.Json.Value

/-!
# Texts of JSON values

When a text spells a value, said without a reader. Blanks may stand around every value and around
every key, characters between quotes may be escaped in any of the ways there are, and the members of
an object are those of the value in text order. Of the numbers only whole ones are spelled.
-/

namespace ClientPlan.Json

/-- A text of blanks. -/
def AllBlank (text : List Char) : Prop :=
  ∀ c ∈ text, c = ' ' ∨ c = '\t' ∨ c = '\n' ∨ c = '\r'

instance (text : List Char) : Decidable (AllBlank text) :=
  List.decidableBAll (fun c => c = ' ' ∨ c = '\t' ∨ c = '\n' ∨ c = '\r') text

/-- A hexadecimal digit of this value, in lower or upper case. -/
def HexDigit (c : Char) (value : Nat) : Prop :=
  "0123456789abcdef".toList[value]? = some c ∨ "0123456789ABCDEF".toList[value]? = some c

/-- Four hexadecimal digits spell a 16-bit unit. -/
inductive SpellsUnit : List Char → Nat → Prop
  | digits {first second third fourth : Char} {a b c d : Nat} (hfirst : HexDigit first a)
      (hsecond : HexDigit second b) (hthird : HexDigit third c) (hfourth : HexDigit fourth d) :
      SpellsUnit [first, second, third, fourth] (0x1000 * a + 0x100 * b + 0x10 * c + d)

/-- The characters with an escape of two letters, behind the second of these. -/
def shortEscapes : List (Char × Char) :=
  [('"', '"'), ('\\', '\\'), ('/', '/'), ('b', '\x08'), ('f', '\x0c'), ('n', '\n'), ('r', '\r'),
    ('t', '\t')]

/-- What stands between two quotes spells the characters of a text. -/
inductive SpellsChars : List Char → List Char → Prop
  | nil : SpellsChars [] []
  | plain {c : Char} {written text : List Char} (hprintable : 0x20 ≤ c.toNat) (hquote : c ≠ '"')
      (hslash : c ≠ '\\') (h : SpellsChars written text) :
      SpellsChars (c :: written) (c :: text)
  | short {letter c : Char} {written text : List Char} (hescape : (letter, c) ∈ shortEscapes)
      (h : SpellsChars written text) : SpellsChars ('\\' :: letter :: written) (c :: text)
  | unit {digits : List Char} {c : Char} {written text : List Char}
      (hunit : SpellsUnit digits c.toNat) (h : SpellsChars written text) :
      SpellsChars ('\\' :: 'u' :: (digits ++ written)) (c :: text)
  | pair {opening closing : List Char} {c : Char} {written text : List Char}
      (hlarge : 0x10000 ≤ c.toNat)
      (hopening : SpellsUnit opening (0xD800 + (c.toNat - 0x10000) / 0x400))
      (hclosing : SpellsUnit closing (0xDC00 + (c.toNat - 0x10000) % 0x400))
      (h : SpellsChars written text) :
      SpellsChars ('\\' :: 'u' :: (opening ++ '\\' :: 'u' :: (closing ++ written))) (c :: text)

/-- A text spells a key, with the blanks around it. -/
inductive SpellsKey : List Char → String → Prop
  | quoted {before written after text : List Char} (hbefore : AllBlank before)
      (h : SpellsChars written text) (hafter : AllBlank after) :
      SpellsKey (before ++ '"' :: (written ++ '"' :: after)) (String.ofList text)

/-- A whole number that 64 bits hold, with a sign or without one. -/
def IsWord (value : Int) : Prop := -0x8000000000000000 ≤ value ∧ value ≤ 0xffffffffffffffff

instance (value : Int) : Decidable (IsWord value) :=
  inferInstanceAs (Decidable (-0x8000000000000000 ≤ value ∧ value ≤ 0xffffffffffffffff))

mutual

/-- A text spells a value. -/
inductive Spells : List Char → Value → Prop
  | nullWord : Spells ['n', 'u', 'l', 'l'] .null
  | trueWord : Spells ['t', 'r', 'u', 'e'] (.boolean true)
  | falseWord : Spells ['f', 'a', 'l', 's', 'e'] (.boolean false)
  | integer {value : Int} (hword : IsWord value) :
      Spells (toString value).toList (.number (.integer value))
  | text {written text : List Char} (h : SpellsChars written text) :
      Spells ('"' :: (written ++ ['"'])) (.text (String.ofList text))
  | emptyList {blanks : List Char} (hblanks : AllBlank blanks) :
      Spells ('[' :: (blanks ++ [']'])) (.list [])
  | list {written : List Char} {items : List Value} (h : SpellsItems written items) :
      Spells ('[' :: (written ++ [']'])) (.list items)
  | emptyObject {blanks : List Char} (hblanks : AllBlank blanks) :
      Spells ('{' :: (blanks ++ ['}'])) (.object [])
  | object {written : List Char} {members : List (String × Value)}
      (h : SpellsMembers written members) : Spells ('{' :: (written ++ ['}'])) (.object members)
  | padded {before written after : List Char} {value : Value} (hbefore : AllBlank before)
      (h : Spells written value) (hafter : AllBlank after) :
      Spells (before ++ (written ++ after)) value

/-- A text spells one or more items of a list. -/
inductive SpellsItems : List Char → List Value → Prop
  | last {written : List Char} {item : Value} (h : Spells written item) :
      SpellsItems written [item]
  | cons {written others : List Char} {item : Value} {items : List Value}
      (h : Spells written item) (hothers : SpellsItems others items) :
      SpellsItems (written ++ ',' :: others) (item :: items)

/-- A text spells one or more members of an object. -/
inductive SpellsMembers : List Char → List (String × Value) → Prop
  | last {key written : List Char} {name : String} {value : Value}
      (hkey : SpellsKey key name) (h : Spells written value) :
      SpellsMembers (key ++ ':' :: written) [(name, value)]
  | cons {key written others : List Char} {name : String} {value : Value}
      {members : List (String × Value)} (hkey : SpellsKey key name) (h : Spells written value)
      (hothers : SpellsMembers others members) :
      SpellsMembers (key ++ ':' :: (written ++ ',' :: others)) ((name, value) :: members)

end

end ClientPlan.Json

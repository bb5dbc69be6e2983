import ClientPlan.Decimal.Binary64
import ClientPlan.Toml.Scan

/-!
# Numbers, dates and times of a TOML text

Digits may be parted by underscores. A date or time is checked and its value is not kept.
-/

namespace ClientPlan.Toml

open Decimal (Binary64 Magnitude)

/-- A scalar that is neither a text nor a truth value. -/
inductive Scalar where
  | integer (value : Int)
  | floating (value : Binary64)
  /-- A date, a time, or both. -/
  | moment
deriving DecidableEq, Repr

/-- Digits, each but the first with at most one underscore before it. -/
def digitsAfter (isDigit : Char → Bool) : Reader (List Char)
  | '_' :: c :: rest => if isDigit c then before c (digitsAfter isDigit rest) else none
  | ['_'] => none
  | c :: rest =>
    if isDigit c then before c (digitsAfter isDigit rest) else some ([], c :: rest)
  | [] => some ([], [])

/-- One or more digits, parted by single underscores. -/
def digits (isDigit : Char → Bool) : Reader (List Char)
  | c :: rest => if isDigit c then before c (digitsAfter isDigit rest) else none
  | [] => none

/-- A sign, if there is one: whether it is a minus. -/
def sign : List Char → Bool × List Char
  | '-' :: rest => (true, rest)
  | '+' :: rest => (false, rest)
  | text => (false, text)

/-- The digits of a whole number. A zero stands alone. -/
def wholeDigits : Reader (List Char)
  | '0' :: rest => some (['0'], rest)
  | text => digits Char.isDigit text

/-- The value of digits in a base up to sixteen. -/
def valueOf (base : Nat) (digits : List Char) : Nat :=
  digits.foldl (fun value c => base * value + (Text.hexValue? c).getD 0) 0

/-- A number that fits in 64 bits with a sign. -/
def integer? (negative : Bool) (value : Nat) : Option Scalar :=
  if negative then if value ≤ Nat.pow 2 63 then some (.integer (-(value : Int))) else none
  else if value < Nat.pow 2 63 then some (.integer value) else none

/-- The floating-point number nearest to scaled digits. One past the greatest is refused unless it
is negative. -/
def floating? (negative : Bool) (digits : List Char) (exponent : Int) : Option Scalar :=
  match Magnitude.nearestDecimal (valueOf 10 digits) exponent, negative with
  | some magnitude, _ => some (.floating (.finite negative magnitude))
  | none, true => some (.floating (.infinite true))
  | none, false => none

/-- The power of ten of an exponent, if there is one. -/
def exponent : Reader (Option Int) := fun text =>
  match text with
  | 'e' :: rest | 'E' :: rest => do
    let (digits, after) ← digits Char.isDigit (sign rest).2
    let power : Int := valueOf 10 digits
    return (some (if (sign rest).1 then -power else power), after)
  | _ => some (none, text)

/-- A number in base ten after its sign. -/
def decimal (negative : Bool) : Reader Scalar := fun text => do
  let (whole, rest) ← wholeDigits text
  match rest with
  | '.' :: rest =>
    let (fraction, rest) ← digits Char.isDigit rest
    let (power, rest) ← exponent rest
    let scalar ← floating? negative (whole ++ fraction) (power.getD 0 - fraction.length)
    return (scalar, rest)
  | _ =>
    let (power, rest) ← exponent rest
    match power with
    | some power => return (← floating? negative whole power, rest)
    | none => return (← integer? negative (valueOf 10 whole), rest)

/-- Whether a character is a hexadecimal digit. -/
def isHexDigit (c : Char) : Bool := (Text.hexValue? c).isSome

/-- Whether a character is an octal digit. -/
def isOctalDigit (c : Char) : Bool := '0' ≤ c && c ≤ '7'

/-- Whether a character is a binary digit. -/
def isBinaryDigit (c : Char) : Bool := c == '0' || c == '1'

/-- A whole number in another base after the mark of the base. -/
def based (base : Nat) (isDigit : Char → Bool) : Reader Scalar := fun text => do
  let (digits, rest) ← digits isDigit text
  return (← integer? false (valueOf base digits), rest)

/-- A number. -/
def number : Reader Scalar := fun text =>
  match text with
  | '0' :: 'x' :: rest => based 16 isHexDigit rest
  | '0' :: 'o' :: rest => based 8 isOctalDigit rest
  | '0' :: 'b' :: rest => based 2 isBinaryDigit rest
  | _ =>
    match sign text with
    | (negative, 'i' :: 'n' :: 'f' :: rest) => some (.floating (.infinite negative), rest)
    | (_, 'n' :: 'a' :: 'n' :: rest) => some (.floating .notNumber, rest)
    | (negative, rest) => decimal negative rest

/-- A number of exactly `count` digits between two bounds. -/
def fixedDigits (count low high : Nat) : Reader Nat := fun text =>
  let row := text.take count
  let value := valueOf 10 row
  if row.length = count && row.all Char.isDigit && low ≤ value && value ≤ high then
    some (value, text.drop count)
  else none

/-- The text after one certain character. -/
def after (c : Char) : List Char → Option (List Char)
  | [] => none
  | first :: rest => if first = c then some rest else none

/-- The number of days of a month. -/
def daysOfMonth (year month : Nat) : Nat :=
  if month = 2 then
    if year % 4 = 0 ∧ (year % 100 ≠ 0 ∨ year % 400 = 0) then 29 else 28
  else if month ∈ [4, 6, 9, 11] then 30
  else 31

/-- The text after a date. -/
def afterDate (text : List Char) : Option (List Char) := do
  let (year, rest) ← fixedDigits 4 0 9999 text
  let (month, rest) ← fixedDigits 2 1 12 (← after '-' rest)
  let (_, rest) ← fixedDigits 2 1 (daysOfMonth year month) (← after '-' rest)
  return rest

/-- The text after the decimals of a second, if there are any. -/
def afterDecimals (text : List Char) : Option (List Char) :=
  match text with
  | '.' :: c :: rest => if c.isDigit then some (rest.dropWhile Char.isDigit) else none
  | ['.'] => none
  | _ => some text

/-- The text after a time of day. -/
def afterTime (text : List Char) : Option (List Char) := do
  let (_, rest) ← fixedDigits 2 0 23 text
  let (_, rest) ← fixedDigits 2 0 59 (← after ':' rest)
  let (_, rest) ← fixedDigits 2 0 60 (← after ':' rest)
  afterDecimals rest

/-- The text after the offset of a time, if there is one. -/
def afterOffset (text : List Char) : Option (List Char) :=
  match text with
  | 'Z' :: rest | 'z' :: rest => some rest
  | '+' :: rest | '-' :: rest => do
    let (_, rest) ← fixedDigits 2 0 23 rest
    let (_, rest) ← fixedDigits 2 0 59 (← after ':' rest)
    return rest
  | _ => some text

/-- Whether a text begins with so many digits and then a certain character. -/
def beginsWith (count : Nat) (mark : Char) (text : List Char) : Bool :=
  text.length > count && (text.take count).all Char.isDigit && text[count]? == some mark

/-- The text after a date and, if one follows, a time. -/
def afterMoment (text : List Char) : Option (List Char) := do
  let rest ← afterDate text
  match rest with
  | [] => return []
  | delimiter :: time =>
    if delimiter ∈ ['T', 't', ' '] && beginsWith 2 ':' time then
      afterOffset (← afterTime time)
    else return rest

/-- A number, a date or a time. -/
def scalar : Reader Scalar := fun text =>
  if beginsWith 4 '-' text then (afterMoment text).map fun rest => (.moment, rest)
  else if beginsWith 2 ':' text then (afterTime text).map fun rest => (.moment, rest)
  else number text

end ClientPlan.Toml

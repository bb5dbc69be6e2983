import ClientPlan.Json.Literal
import ClientPlan.Json.Value

/-!
# Numbers as written

A written number keeps its digits. Its value is a whole number if it is written as one and fits in
64 bits. Otherwise the leading digits that fit in 64 bits are scaled by a power of ten, rounding
once for the digits, once for the power and once for the result.
-/

namespace ClientPlan.Json

open Decimal (Magnitude)

/-- A number as written. -/
structure NumberText where
  /-- Whether a minus sign comes first. -/
  negative : Bool
  /-- The digits before the point. -/
  whole : List Char
  /-- The digits after the point, if there is one. -/
  fraction : Option (List Char)
  /-- The digits of the exponent, if there is one, and whether it is negative. -/
  exponent : Option (Bool × List Char)
deriving DecidableEq, Repr

/-- A text after a part of it was read: what was read and the rest, or the fault met. -/
inductive Scan (α : Type) where
  | read (value : α) (rest : List Char)
  | broken (fault : Fault)
deriving DecidableEq, Repr

/-- One or more digits. -/
def scanDigits (text : List Char) : Scan (List Char) :=
  match text.span Char.isDigit with
  | ([], []) => .broken .endsEarly
  | ([], _ :: _) => .broken .malformed
  | (digits, rest) => .read digits rest

/-- The digits before the point. A zero stands alone. -/
def scanWhole (text : List Char) : Scan (List Char) :=
  match scanDigits text with
  | .read ('0' :: _ :: _) _ => .broken .malformed
  | scan => scan

/-- A point and its digits, if there is one. -/
def scanFraction : List Char → Scan (Option (List Char))
  | '.' :: text =>
    match scanDigits text with
    | .read digits rest => .read (some digits) rest
    | .broken fault => .broken fault
  | text => .read none text

/-- The sign of an exponent and the text after it. -/
def exponentSign : List Char → Bool × List Char
  | '-' :: text => (true, text)
  | '+' :: text => (false, text)
  | text => (false, text)

/-- The letter, sign and digits of an exponent, if there is one. -/
def scanExponent (text : List Char) : Scan (Option (Bool × List Char)) :=
  match text with
  | 'e' :: rest | 'E' :: rest =>
    match scanDigits (exponentSign rest).2 with
    | .read digits rest' => .read (some ((exponentSign rest).1, digits)) rest'
    | .broken fault => .broken fault
  | _ => .read none text

/-- A number after its sign. -/
def scanUnsigned (negative : Bool) (text : List Char) : Scan NumberText :=
  match scanWhole text with
  | .broken fault => .broken fault
  | .read whole rest =>
    match scanFraction rest with
    | .broken fault => .broken fault
    | .read fraction rest =>
      match scanExponent rest with
      | .broken fault => .broken fault
      | .read exponent rest => .read ⟨negative, whole, fraction, exponent⟩ rest

/-- A number at the start of a text. -/
def scanNumber : List Char → Scan NumberText
  | '-' :: text => scanUnsigned true text
  | text => scanUnsigned false text

/-- The value of a decimal digit. -/
def digitValue (c : Char) : Nat := c.toNat - '0'.toNat

/-- The value of a row of decimal digits. -/
def digitsValue (digits : List Char) : Nat :=
  digits.foldl (fun value c => 10 * value + digitValue c) 0

/-- The greatest number of 64 bits. -/
def greatestWord : Nat := Nat.pow 2 64 - 1

/-- Leading digits that fit in 64 bits, and the power of ten that scales them. -/
structure Scaled where
  /-- The leading digits. -/
  significand : Nat
  /-- The power of ten. -/
  exponent : Int
  /-- Whether a digit was left out for want of space. -/
  full : Bool
deriving DecidableEq, Repr

/-- Adds a digit before the point. Past the last one that fits each counts a power of ten. -/
def Scaled.takeWhole (scaled : Scaled) (c : Char) : Scaled :=
  let longer := 10 * scaled.significand + digitValue c
  if scaled.full = false ∧ longer ≤ greatestWord then { scaled with significand := longer }
  else { scaled with exponent := scaled.exponent + 1, full := true }

/-- Adds a digit after the point. From the first one on that does not fit all are dropped. -/
def Scaled.takeFraction (scaled : Scaled) (c : Char) : Scaled :=
  let longer := 10 * scaled.significand + digitValue c
  if scaled.full = false ∧ longer ≤ greatestWord then
    { scaled with significand := longer, exponent := scaled.exponent - 1 }
  else { scaled with full := true }

/-- The greatest power of ten that is multiplied or divided by at once. -/
def greatestStep : Nat := 308

/-- The magnitude nearest to a power of ten up to the greatest step. -/
def tens (exponent : Nat) : Magnitude := (Magnitude.nearestDecimal 1 exponent).getD .zero

/-- Divides by a power of ten, in steps. -/
def divideByTens (value : Magnitude) (exponent : Nat) : Option Magnitude :=
  go (exponent / greatestStep + 1) value exponent
where
  /-- Divides by the remaining power with at most `steps` divisions. -/
  go : Nat → Magnitude → Nat → Option Magnitude
    | 0, value, _ => some value
    | steps + 1, value, exponent =>
      if exponent ≤ greatestStep then value.div (tens exponent)
      else if value.significand = 0 then some value
      else
        (value.div (tens greatestStep)).bind fun value => go steps value (exponent - greatestStep)

/-- A significand scaled by a power of ten, or nothing where that is past the greatest value. -/
def scaleByTens (significand : Nat) (exponent : Int) : Option Magnitude :=
  (Magnitude.nearest ⟨significand, 1⟩).bind fun value =>
    if exponent < 0 then divideByTens value exponent.natAbs
    else if exponent ≤ greatestStep then value.mul (tens exponent.toNat)
    else if significand = 0 then some value
    else none

namespace NumberText

/-- The digits before the point, as far as they fit. -/
def scaledWhole (number : NumberText) : Scaled :=
  number.whole.foldl Scaled.takeWhole ⟨0, 0, false⟩

/-- The digits around the point, as far as they fit. -/
def scaled (number : NumberText) : Scaled :=
  (number.fraction.getD []).foldl Scaled.takeFraction { number.scaledWhole with full := false }

/-- The written power of ten. -/
def writtenExponent (number : NumberText) : Int :=
  match number.exponent with
  | none => 0
  | some (true, digits) => -(digitsValue digits : Int)
  | some (false, digits) => digitsValue digits

/-- The value of a number that is written as a whole number of 64 bits. -/
def integer? (number : NumberText) : Option Int :=
  let scaled := number.scaledWhole
  if number.fraction.isSome || number.exponent.isSome || scaled.full then none
  else if number.negative then
    if 0 < scaled.significand ∧ scaled.significand ≤ Nat.pow 2 63 then
      some (-(scaled.significand : Int))
    else none
  else some scaled.significand

/-- The value of a number, or nothing where it is past the greatest one. -/
def value (number : NumberText) : Option Number :=
  match number.integer? with
  | some value => some (.integer value)
  | none =>
    let scaled := number.scaled
    (scaleByTens scaled.significand (scaled.exponent + number.writtenExponent)).map
      (Number.floating number.negative)

end NumberText

end ClientPlan.Json

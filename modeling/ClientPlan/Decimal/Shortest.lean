import ClientPlan.Decimal.Binary64

/-!
# Shortest decimal text

The digits of a magnitude are those of the point of the coarsest decimal grid that rounds back to
it. A layout says which of two equally near points is taken, and which exponents are written out and
which as a power of ten.
-/

namespace ClientPlan.Decimal

/-- The number `digits · 10 ^ exponent`. -/
structure Numeral where
  /-- The whole number of the digits. -/
  digits : Nat
  /-- The power of ten that scales it. -/
  exponent : Int
deriving DecidableEq, Repr

/-- The exact value of a decimal. -/
def Numeral.exact (number : Numeral) : Fraction := .scale 10 number.exponent ⟨number.digits, 1⟩

namespace Magnitude

/-- The exponent of the quarter unit in which the neighbourhood of a magnitude is measured. -/
def quarterExponent (value : Magnitude) : Int := value.exponent - 2

/-- How many quarter units below the value its neighbourhood starts. The gap below a power of two
is half as wide as the one above it. -/
def gapBelow (value : Magnitude) : Nat :=
  if value.significand = leastFull ∧ leastExponent < value.exponent then 1 else 2

/-- Where the neighbourhood of a magnitude starts. -/
def low (value : Magnitude) : Fraction :=
  .scale 2 value.quarterExponent ⟨4 * value.significand - value.gapBelow, 1⟩

/-- Where the neighbourhood of a magnitude ends. -/
def high (value : Magnitude) : Fraction :=
  .scale 2 value.quarterExponent ⟨4 * value.significand + 2, 1⟩

/-- Whether a decimal rounds to a magnitude. The ends of the neighbourhood belong to it when the
significand is even. -/
def readsBack (value : Magnitude) (number : Numeral) : Bool :=
  if value.significand % 2 = 0 then
    value.low.atMost number.exact && number.exact.atMost value.high
  else value.low.below number.exact && number.exact.below value.high

/-- The greatest point of the grid of a power of ten that is not above a magnitude. -/
def gridFloor (value : Magnitude) (exponent : Int) : Nat :=
  (value.exact.scale 10 (-exponent)).floor

/-- The point of the grid of a power of ten that rounds to a magnitude, of two the nearer. -/
def onGrid? (tie : Tie) (value : Magnitude) (exponent : Int) : Option Numeral :=
  let floor := value.gridFloor exponent
  let lower : Numeral := ⟨floor, exponent⟩
  let upper : Numeral := ⟨floor + 1, exponent⟩
  match value.readsBack lower, value.readsBack upper with
  | true, false => some lower
  | false, true => some upper
  | false, false => none
  | true, true => some ⟨(value.exact.scale 10 (-exponent)).round tie, exponent⟩

/-- The exponents of ten that a grid may need, the coarsest first. -/
def gridExponents : List Int :=
  (List.range 660).map fun (step : Nat) => (310 - step : Int)

/-- The shortest decimal that rounds to a magnitude, and of the shortest the nearest. -/
def shortest (tie : Tie) (value : Magnitude) : Numeral :=
  if value.significand = 0 then ⟨0, 0⟩
  else (gridExponents.findSome? (value.onGrid? tie)).getD ⟨0, 0⟩

end Magnitude

/-- How a decimal is laid out. -/
structure Layout where
  /-- Which of two equally near decimals is taken. -/
  tie : Tie
  /-- The exponents of the leading digit that are written with a point only. -/
  positional : Int → Bool

/-- `count` zeros. -/
def zeros (count : Nat) : String := String.ofList (List.replicate count '0')

namespace Numeral

/-- A decimal with a point and no exponent, and at least one digit on either side. -/
def positionalText (number : Numeral) : String :=
  let digits := Nat.toDigits 10 number.digits
  if 0 ≤ number.exponent then
    String.ofList digits ++ zeros number.exponent.toNat ++ ".0"
  else
    let places := (-number.exponent).toNat
    if places < digits.length then
      String.ofList (digits.take (digits.length - places)) ++ "." ++
        String.ofList (digits.drop (digits.length - places))
    else "0." ++ zeros (places - digits.length) ++ String.ofList digits

/-- A decimal with one digit before the point, and its exponent with a sign. -/
def scientificText (leading : Int) (number : Numeral) : String :=
  let digits := Nat.toDigits 10 number.digits
  let fraction := digits.drop 1
  String.ofList (digits.take 1) ++
    (if fraction.isEmpty then "" else "." ++ String.ofList fraction) ++
    (if leading < 0 then "e-" else "e+") ++ toString leading.natAbs

/-- The text of a decimal under a layout. -/
def text (layout : Layout) (number : Numeral) : String :=
  let leading := ((Nat.toDigits 10 number.digits).length : Int) + number.exponent - 1
  if number.digits = 0 || layout.positional leading then number.positionalText
  else number.scientificText leading

end Numeral

/-- The text of a finite value: its sign, and the shortest decimal that rounds to it. -/
def signedText (layout : Layout) (negative : Bool) (value : Magnitude) : String :=
  (if negative then "-" else "") ++ (value.shortest layout.tie).text layout

end ClientPlan.Decimal

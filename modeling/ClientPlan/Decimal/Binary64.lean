/-!
# Binary floating-point values

A finite value of the 64-bit binary format is a sign and a magnitude, a whole number scaled by a
power of two. Rounding, products and quotients are calculations with natural numbers: each result is
the nearest magnitude to an exact fraction, and a tie goes to the even significand.
-/

namespace ClientPlan.Decimal

/-- Where a fraction that is halfway between two whole numbers is rounded to. -/
inductive Tie where
  /-- To the even one. -/
  | toEven
  /-- To the greater one. -/
  | up
deriving DecidableEq, Repr

/-- A fraction of natural numbers. -/
structure Fraction where
  numerator : Nat
  denominator : Nat
deriving DecidableEq, Repr

namespace Fraction

/-- A fraction times a power of a base. -/
def scale (base : Nat) (exponent : Int) (fraction : Fraction) : Fraction :=
  if 0 ≤ exponent then
    { fraction with numerator := fraction.numerator * Nat.pow base exponent.toNat }
  else { fraction with denominator := fraction.denominator * Nat.pow base (-exponent).toNat }

/-- The whole part of a fraction. -/
def floor (fraction : Fraction) : Nat := fraction.numerator / fraction.denominator

/-- The whole number nearest to a fraction. -/
def round (tie : Tie) (fraction : Fraction) : Nat :=
  let twice := 2 * (fraction.numerator % fraction.denominator)
  if twice < fraction.denominator then fraction.floor
  else if fraction.denominator < twice then fraction.floor + 1
  else
    match tie with
    | .toEven => fraction.floor + fraction.floor % 2
    | .up => fraction.floor + 1

/-- Whether one fraction is at most another. -/
def atMost (left right : Fraction) : Bool :=
  left.numerator * right.denominator ≤ right.numerator * left.denominator

/-- Whether one fraction is less than another. -/
def below (left right : Fraction) : Bool :=
  left.numerator * right.denominator < right.numerator * left.denominator

end Fraction

/-- The number of binary digits of a significand. -/
def precision : Nat := 53

/-- The least significand with all its digits. -/
def leastFull : Nat := Nat.pow 2 52

/-- The least number with a digit too many. -/
def tooLong : Nat := Nat.pow 2 53

/-- The least exponent of the format. -/
def leastExponent : Int := -1074

/-- The greatest exponent of the format. -/
def greatestExponent : Int := 971

/-- A finite magnitude of the 64-bit binary format. Its significand is less than `tooLong`, and at
least `leastFull` unless its exponent is the least one. -/
structure Magnitude where
  /-- The whole number that is scaled. -/
  significand : Nat
  /-- The power of two that scales it. -/
  exponent : Int
deriving DecidableEq, Repr, Inhabited

/-- A value of the 64-bit binary format. All values that are not numbers count as one. -/
inductive Binary64 where
  | finite (negative : Bool) (magnitude : Magnitude)
  | infinite (negative : Bool)
  | notNumber
deriving DecidableEq, Repr

namespace Magnitude

/-- Zero. -/
def zero : Magnitude := ⟨0, leastExponent⟩

/-- The exact value of a magnitude. -/
def exact (value : Magnitude) : Fraction := .scale 2 value.exponent ⟨value.significand, 1⟩

/-- The exponent whose unit leaves 53 binary digits of a positive fraction before the point, or the
least one of the format. -/
def unitExponent (fraction : Fraction) : Int :=
  let digits := (fraction.numerator.log2 : Int) - (fraction.denominator.log2 : Int)
  let guess := max leastExponent (digits - precision)
  if (fraction.scale 2 (-guess)).floor < tooLong then guess else guess + 1

/-- The magnitude nearest to a fraction, or nothing where that is past the greatest one. -/
def nearest (fraction : Fraction) : Option Magnitude :=
  if fraction.numerator = 0 then some zero
  else
    let exponent := unitExponent fraction
    let significand := (fraction.scale 2 (-exponent)).round .toEven
    let result : Magnitude :=
      if significand < tooLong then ⟨significand, exponent⟩ else ⟨leastFull, exponent + 1⟩
    if result.exponent ≤ greatestExponent then some result else none

/-- The rounded product. -/
def mul (left right : Magnitude) : Option Magnitude :=
  nearest (.scale 2 (left.exponent + right.exponent) ⟨left.significand * right.significand, 1⟩)

/-- The rounded quotient by a magnitude other than zero. -/
def div (left right : Magnitude) : Option Magnitude :=
  nearest (.scale 2 (left.exponent - right.exponent) ⟨left.significand, right.significand⟩)

/-- The magnitude nearest to digits times a power of ten. An exponent far outside the range of the
format is settled without the power. -/
def nearestDecimal (digits : Nat) (exponent : Int) : Option Magnitude :=
  if digits = 0 then some zero
  else if 400 < exponent then none
  else if exponent < -400 - (digits.log2 : Int) then some zero
  else nearest (.scale 10 exponent ⟨digits, 1⟩)

end Magnitude

end ClientPlan.Decimal

import Montage.Number.Printer

/-!
# Writing numbers with an exponent

* `Magnitude.significant`: a number rounded to a count of significant digits, a half going to the
  even neighbour.
* `Binary64.scientific`: a number with a given count of digits behind the point, and an exponent.
* `Binary64.general`: a number with a given count of digits, with an exponent only where it is very
  large or very small.
-/

namespace Montage

namespace Magnitude

/-- A positive count of units rounded to `count + 1` significant digits: the digits, and the
exponent of the first of them. -/
def significant (units count : Nat) : Nat × Int :=
  let leading := leadingExponent units
  let (stepNum, stepDen) := decimalRatio 1 (leading - count)
  let rounded := roundDiv (units * stepDen) stepNum
  if rounded = Nat.pow 10 (count + 1) then (rounded / 10, leading + 1) else (rounded, leading)

end Magnitude

namespace Binary64

/-- The digits of a magnitude and the exponent of the first of them. -/
def significantDigits (count units : Nat) : List Char × Int :=
  if units = 0 then (List.replicate (count + 1) '0', 0)
  else
    let (digits, exponent) := Magnitude.significant units count
    (Decimal.digits digits, exponent)

/-- Digits without the zeros at their end. -/
def withoutZeros (digits : List Char) : List Char :=
  match (digits.reverse.dropWhile (· = '0')).reverse with
  | [] => ['0']
  | kept => kept

/-- The absolute value of a number with `places` digits behind the point, and an exponent. -/
def scientific (places : Nat) : Binary64 → List Char
  | nan => "nan".toList
  | infinity _ => "inf".toList
  | finite _ m =>
    let (digits, exponent) := significantDigits places m.units
    withExponent digits exponent

/-- The absolute value of a number with `count` significant digits. Unless `keepsZeros`, zeros at
the end are left out. -/
def general (keepsZeros : Bool) (count : Nat) : Binary64 → List Char
  | nan => "nan".toList
  | infinity _ => "inf".toList
  | finite _ m =>
    let (digits, exponent) := significantDigits (count - 1) m.units
    let digits := if keepsZeros then digits else withoutZeros digits
    if leastPlain ≤ exponent ∧ exponent < count then placePoint digits (exponent + 1)
    else withExponent digits exponent

end Binary64

end Montage

import Montage.Number.Binary64
import Montage.Number.Digits

/-!
# Writing numbers

* `Magnitude.shortest`: the fewest digits that read back, of those the nearest to the number and of
  two equally near ones the even one.
* `Binary64.text`: these digits in plain notation or, for very large and very small numbers, with
  an exponent.
* `Binary64.fixed`: a fixed count of decimal places, a half going to the even neighbour.
-/

namespace Montage

namespace Magnitude

/-- `digits * 10 ^ exponent` as a ratio of units. -/
def decimalRatio (digits : Nat) (exponent : Int) : Nat × Nat :=
  if 0 ≤ exponent then (digits * Nat.pow 10 exponent.toNat * unitsInOne, 1)
  else (digits * unitsInOne, Nat.pow 10 (-exponent).toNat)

/-- Whether a decimal number is rounded to this count of units. -/
def readsBack (units digits : Nat) (exponent : Int) : Bool :=
  let (num, den) := decimalRatio digits exponent
  nearest num den == units

/-- The exponent of the first decimal digit of a positive count of units. -/
def leadingExponent (units : Nat) : Int :=
  if unitsInOne ≤ units then (Decimal.size (units / unitsInOne) : Int) - 1
  else -(Decimal.size ((unitsInOne - 1) / units) : Int)

/-- The two multiples of `10 ^ exponent` next to the count of units, the nearer one first. Of two
equally near ones the even one comes first. -/
def onGrid (units : Nat) (exponent : Int) : List Nat :=
  let (stepNum, stepDen) := decimalRatio 1 exponent
  let low := units * stepDen / stepNum
  if roundDiv (units * stepDen) stepNum = low then [low, low + 1] else [low + 1, low]

/-- The decimal number with this many digits that reads back, the nearer one if two do. -/
def withDigits? (units count : Nat) : Option (Nat × Int) :=
  let exponent := leadingExponent units - ((count : Int) - 1)
  ((onGrid units exponent).find? fun d => readsBack units d exponent).map fun d => (d, exponent)

/-- The fewest decimal digits that read back, and the exponent of the last of them. Seventeen
always suffice. -/
def shortest (units : Nat) : Nat × Int :=
  ((List.range 17).findSome? fun n => withDigits? units (n + 1)).getD
    ((onGrid units (leadingExponent units - 16)).headD 0, leadingExponent units - 16)

end Magnitude

namespace Binary64

/-- Numbers are written without an exponent from `10 ^ leastPlain` up to `10 ^ plainLimit`. -/
def leastPlain : Int := -4

def plainLimit : Int := 16

/-- Digits with the point after the first `whole` of them; zeros fill up either side. -/
def placePoint (digits : List Char) (whole : Int) : List Char :=
  if whole ≤ 0 then '0' :: '.' :: List.replicate (-whole).toNat '0' ++ digits
  else if digits.length ≤ whole.toNat then
    digits ++ List.replicate (whole.toNat - digits.length) '0'
  else digits.take whole.toNat ++ '.' :: digits.drop whole.toNat

/-- Digits with the point after the first of them and the exponent of the first after all. -/
def withExponent (digits : List Char) (exponent : Int) : List Char :=
  let mantissa :=
    match digits with
    | first :: second :: rest => first :: '.' :: second :: rest
    | _ => digits
  let size := Decimal.digits exponent.natAbs
  mantissa ++ ['e', if exponent < 0 then '-' else '+']
    ++ List.replicate (2 - size.length) '0' ++ size

/-- The text of a positive count of units. -/
def magnitudeText (units : Nat) : List Char :=
  let (significand, exponent) := Magnitude.shortest units
  let all := Decimal.digits significand
  let leading := exponent + all.length - 1
  let digits := (all.reverse.dropWhile (· = '0')).reverse
  if leastPlain ≤ leading ∧ leading < plainLimit then placePoint digits (leading + 1)
  else withExponent digits leading

def signText (negative : Bool) : List Char := if negative then ['-'] else []

/-- The text of a number: the fewest digits that read back. -/
def text : Binary64 → String
  | nan => "nan"
  | infinity negative => String.ofList (signText negative ++ ['i', 'n', 'f'])
  | finite negative m =>
    String.ofList (signText negative ++ if m.units = 0 then ['0'] else magnitudeText m.units)

/-- The text of a number with a fixed count of decimal places. -/
def fixed (places : Nat) : Binary64 → String
  | nan => "nan"
  | infinity negative => String.ofList (signText negative ++ ['i', 'n', 'f'])
  | finite negative m =>
    let scale := Nat.pow 10 places
    let scaled := roundDiv (m.units * scale) unitsInOne
    let fraction := Decimal.digits (scaled % scale)
    let point :=
      if places = 0 then []
      else '.' :: List.replicate (places - fraction.length) '0' ++ fraction
    String.ofList (signText negative ++ Decimal.digits (scaled / scale) ++ point)

end Binary64

end Montage

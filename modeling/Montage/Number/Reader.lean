import Montage.Number.Binary64
import Montage.Number.Integer

/-!
# Reading numbers

A number is written as blanks, a sign and one of: decimal digits with an optional point and an
optional decimal exponent; `0x`, hexadecimal digits with an optional point and an optional
exponent of two; `inf` or `infinity`; `nan`, optionally with a word in parentheses. Letters may be
in either case. The longest start of the text that has this form is read.

* `Number.read`: the number at the start of a text and the rest after it.
* `Number.ofWord?`: the number that is the whole text and that the format can hold.
-/

namespace Montage

/-- A ratio of natural numbers, in units of the binary format. -/
structure UnitRatio where
  num : Nat
  den : Nat

namespace UnitRatio

/-- Whether rounding loses something and the number, with 53 significant bits, is below the
least normal one. -/
def underflows (r : UnitRatio) : Bool :=
  decide (4 * r.num < (Nat.pow 2 54 - 1) * r.den ∧ Magnitude.nearest r.num r.den * r.den ≠ r.num)

end UnitRatio

namespace Number

/-- A number that was read; `outOfRange` if the format holds no number near what was written. -/
structure Reading where
  value : Binary64
  outOfRange : Bool := false

/-! ## Values -/

def ofUnitRatio (negative : Bool) (r : UnitRatio) : Reading :=
  let value := Binary64.ofRatio negative r.num r.den
  ⟨value, !value.isFinite || r.underflows⟩

/-- The number `significand * base ^ exponent`. Numbers whose leading digit is above
`base ^ limit` or below `base ^ -limit` are decided without computing them. -/
def ofScientific (base limit : Nat) (negative : Bool) (significand : Nat) (digitCount : Nat)
    (exponent : Int) : Reading :=
  if significand = 0 then ⟨.finite negative .zero, false⟩
  else if limit < exponent + digitCount then ⟨.infinity negative, true⟩
  else if exponent + digitCount < -limit then ⟨.finite negative .zero, true⟩
  else if 0 ≤ exponent then
    ofUnitRatio negative ⟨significand * Nat.pow base exponent.toNat * unitsInOne, 1⟩
  else
    ofUnitRatio negative ⟨significand * unitsInOne, Nat.pow base (-exponent).toNat⟩

/-- The number `significand * 10 ^ exponent`. -/
def ofDecimal (negative : Bool) (significand : Nat) (exponent : Int) : Reading :=
  ofScientific 10 400 negative significand (Decimal.size significand) exponent

/-- The number `significand * 2 ^ exponent`. -/
def ofBinary (negative : Bool) (significand : Nat) (exponent : Int) : Reading :=
  ofScientific 2 1200 negative significand (significand.log2 + 1) exponent

/-! ## Grammar -/

/-- The value of a hexadecimal digit. -/
def hexValue (c : Char) : Nat :=
  if c.isDigit then c.toNat - '0'.toNat else c.toLower.toNat - 'a'.toNat + 10

def isHexDigit (c : Char) : Bool := c.isDigit || ('a' ≤ c.toLower && c.toLower ≤ 'f')

/-- Digits with an optional point: the digits before it, those after it and the rest. A point
without a digit on either side is not read. -/
def readMantissa (isDigit : Char → Bool) (cs : List Char) :
    Option (List Char × List Char × List Char) :=
  match cs.takeWhile isDigit, cs.dropWhile isDigit with
  | whole, '.' :: rest =>
    let fraction := rest.takeWhile isDigit
    if whole.isEmpty && fraction.isEmpty then none
    else some (whole, fraction, rest.dropWhile isDigit)
  | [], _ => none
  | whole, rest => some (whole, [], rest)

/-- An exponent after its letter, with an optional sign; without digits nothing is read. -/
def readExponent (letter : Char) (cs : List Char) : Int × List Char :=
  match cs with
  | [] => (0, [])
  | c :: rest =>
    if c.toLower = letter then
      let (negative, body) := Integer.readSign rest
      match Text.spanDigits body with
      | ([], _) => (0, cs)
      | (digits, after) =>
        let size : Int := Decimal.ofDigits digits
        (if negative then -size else size, after)
    else (0, cs)

def readDecimal (negative : Bool) (cs : List Char) : Option (Reading × List Char) := do
  let (whole, fraction, rest) ← readMantissa Char.isDigit cs
  let (exponent, rest) := readExponent 'e' rest
  let significand := Decimal.ofDigits (whole ++ fraction)
  some (ofDecimal negative significand (exponent - fraction.length), rest)

def readHexadecimal (negative : Bool) (cs : List Char) : Option (Reading × List Char) := do
  let (whole, fraction, rest) ← readMantissa isHexDigit cs
  let (exponent, rest) := readExponent 'p' rest
  let significand := (whole ++ fraction).foldl (fun n c => 16 * n + hexValue c) 0
  some (ofBinary negative significand (exponent - 4 * fraction.length), rest)

/-- The rest of a text after a word, in whichever case it is written. -/
def afterWord? (word : String) (cs : List Char) : Option (List Char) :=
  if word.toList.isPrefixOf (Text.lower cs) then some (cs.drop word.length) else none

/-- The rest after a word in parentheses; without both parentheses nothing is skipped. -/
def skipPayload : List Char → List Char
  | '(' :: rest =>
    match rest.dropWhile (fun c => c.isAlphanum || c = '_') with
    | ')' :: after => after
    | _ => '(' :: rest
  | cs => cs

/-- The number at the start of a text, after blanks, and the rest of the text. -/
def read (cs : List Char) : Option (Reading × List Char) :=
  let (negative, body) := Integer.readSign (cs.dropWhile Text.isBlank)
  if let some rest := afterWord? "infinity" body then some (⟨.infinity negative, false⟩, rest)
  else if let some rest := afterWord? "inf" body then some (⟨.infinity negative, false⟩, rest)
  else if let some rest := afterWord? "nan" body then some (⟨.nan, false⟩, skipPayload rest)
  else if let some result := (afterWord? "0x" body).bind (readHexadecimal negative) then
    some result
  else readDecimal negative body

/-- The number that a text consists of, if the format can hold it. -/
def ofWord? (word : String) : Option Binary64 :=
  match read word.toList with
  | some (reading, []) => if reading.outOfRange then none else some reading.value
  | _ => none

end Number

instance : OfScientific Binary64 where
  ofScientific significand negativeExponent exponent :=
    (Number.ofDecimal false significand
      (if negativeExponent then -(exponent : Int) else exponent)).value

end Montage

import Montage.Number.Digits
import Montage.Text

/-!
# Reading integers

An integer is written as blanks, a sign and decimal digits, of which the digits are needed. It
has to fit in 32 bits. What follows the last digit is handed back, so that a caller may require
that nothing does.

* `Integer.read`: the integer at the start of a text and the rest after it.
* `Integer.ofWord?`: the integer that is the whole text.
-/

namespace Montage.Integer

/-- What keeps an integer from being read. -/
inductive Fault where
  /-- No digit stands where the integer should. -/
  | notANumber
  /-- The integer does not fit in 32 bits. -/
  | outOfRange
  deriving DecidableEq

/-- Whether an integer fits in 32 bits with a sign. -/
def fits (n : Int) : Bool := decide (-2147483648 ≤ n ∧ n < 2147483648)

/-- A sign at the start of a text, true for minus, and the rest. -/
def readSign : List Char → Bool × List Char
  | '-' :: rest => (true, rest)
  | '+' :: rest => (false, rest)
  | cs => (false, cs)

/-- The integer at the start of a text, after blanks, and the rest of the text. -/
def read (cs : List Char) : Except Fault (Int × List Char) :=
  let (negative, body) := readSign (cs.dropWhile Text.isBlank)
  match Text.spanDigits body with
  | ([], _) => .error .notANumber
  | (digits, rest) =>
    let size : Int := Decimal.ofDigits digits
    let n := if negative then -size else size
    if fits n then .ok (n, rest) else .error .outOfRange

/-- The integer that a text consists of. -/
def ofWord? (word : String) : Option Int :=
  match read word.toList with
  | .ok (n, []) => some n
  | _ => none

end Montage.Integer

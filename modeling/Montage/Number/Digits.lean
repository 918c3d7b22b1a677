/-!
# Decimal digits

Decimal digits as characters, both ways.

* `ofDigits`: the value of a list of digits.
* `digits`: the digits of a natural number, without leading zeros.
* `padded`: an integer filled up with zeros; a minus sign counts in the width.
-/

namespace Montage.Decimal

/-- The value of one decimal digit. -/
def digitValue (c : Char) : Nat := c.toNat - '0'.toNat

/-- The value of decimal digits, the most significant first. -/
def ofDigits (cs : List Char) : Nat := cs.foldl (fun n c => 10 * n + digitValue c) 0

/-- The decimal digits of a number, the most significant first; zero has the digit `0`. -/
def digits (n : Nat) : List Char := Nat.toDigits 10 n

/-- The number of decimal digits of a number. -/
def size (n : Nat) : Nat := (digits n).length

/-- The decimal text of an integer. -/
def ofInt (n : Int) : String :=
  String.ofList ((if n < 0 then ['-'] else []) ++ digits n.natAbs)

/-- An integer filled up with zeros to a width, in which a minus sign counts. -/
def padded (width : Nat) (n : Int) : String :=
  let sign := if n < 0 then ['-'] else []
  let body := digits n.natAbs
  String.ofList (sign ++ List.replicate (width - sign.length - body.length) '0' ++ body)

end Montage.Decimal

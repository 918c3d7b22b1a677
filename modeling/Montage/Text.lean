/-!
# Text

The few operations on text that the rest of the library shares. They work on lists of characters,
so that proofs can follow the list. Blanks, digits and letters are those of ASCII: a character
beyond ASCII is never one of them.

* `isBlank`, `lower`: blanks and lower case.
* `splitOn`: the pieces between separators; there is always one more than there are separators.
* `lines`: the lines of a text; a final line end opens no further line.
* `includes`: whether a word stands somewhere in a text.
-/

namespace Montage.Text

/-- The ASCII blanks: space, tab, line feed, vertical tab, form feed and carriage return. -/
def isBlank (c : Char) : Bool := c == ' ' || ('\t' ≤ c && c ≤ '\r')

/-- A text with its ASCII capitals in lower case. -/
def lower (cs : List Char) : List Char := cs.map Char.toLower

/-- The pieces between the separators, empty ones included. -/
def splitOn (separator : Char) : List Char → List (List Char)
  | [] => [[]]
  | c :: rest =>
    if c = separator then [] :: splitOn separator rest
    else (splitOn separator rest).modifyHead (c :: ·)

/-- The pieces that separators end: what follows the last separator is a piece only if it is not
empty. -/
def endedBy (separator : Char) (cs : List Char) : List (List Char) :=
  let pieces := splitOn separator cs
  if pieces.getLast? = some [] then pieces.dropLast else pieces

/-- The lines of a text, without their ends. -/
def lines (cs : List Char) : List (List Char) := endedBy '\n' cs

/-- Whether the word stands somewhere in the text. -/
def includes (word : List Char) : List Char → Bool
  | [] => word.isEmpty
  | c :: rest => word.isPrefixOf (c :: rest) || includes word rest

/-- The text without the characters at both ends that are to be dropped. -/
def trim (dropped : Char → Bool) (cs : List Char) : List Char :=
  ((cs.dropWhile dropped).reverse.dropWhile dropped).reverse

/-- The longest start whose characters all satisfy the test, and the rest. -/
def spanDigits (cs : List Char) : List Char × List Char :=
  (cs.takeWhile Char.isDigit, cs.dropWhile Char.isDigit)

/-- The text filled up on the left to a width. -/
def padLeft (fill : Char) (width : Nat) (cs : List Char) : List Char :=
  List.replicate (width - cs.length) fill ++ cs

/-- Pieces joined with a text between neighbours. -/
def join (between : String) (pieces : List String) : String := between.intercalate pieces

end Montage.Text

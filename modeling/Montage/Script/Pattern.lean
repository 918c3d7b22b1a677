/-!
# Patterns

A pattern matches whole texts: a star any characters, a question mark one character, brackets one
character of a set. A character that was quoted stands for itself.

* `Pattern.ofGlyphs`: the pattern that an expanded word is read as.
* `Pattern.accepts`: whether a pattern matches a text.
* `Pattern.trimStart`, `Pattern.trimEnd`: a text without a start or an end that matches.
-/

namespace Montage

/-- A character of an expanded word. -/
structure Glyph where
  char : Char
  quoted : Bool
  deriving DecidableEq

/-- A part of the set in brackets. -/
inductive Span where
  | range (first last : Char)
  | named (name : String)
  deriving DecidableEq

inductive PatternPart where
  | one (char : Char)
  | any
  | many
  | oneOf (spans : List Span) (negated : Bool)
  deriving DecidableEq

abbrev Pattern := List PatternPart

/-- The names of the classes of characters. -/
def classNames : List String :=
  ["alpha", "digit", "alnum", "upper", "lower", "space", "blank", "punct", "graph", "print", "cntrl",
    "xdigit"]

/-- Whether a character belongs to a named class of characters. -/
def inClass (name : String) (c : Char) : Bool :=
  let printable := ' ' < c && c < '\x7f'
  match name with
  | "alpha" => c.isAlpha
  | "digit" => c.isDigit
  | "alnum" => c.isAlphanum
  | "upper" => c.isUpper
  | "lower" => c.isLower
  | "space" => c = ' ' || ('\t' ≤ c && c ≤ '\r')
  | "blank" => c = ' ' || c = '\t'
  | "punct" => printable && !c.isAlphanum
  | "graph" => printable
  | "print" => printable || c = ' '
  | "cntrl" => c < ' ' || c = '\x7f'
  | "xdigit" => c.isDigit || ('a' ≤ c && c ≤ 'f') || ('A' ≤ c && c ≤ 'F')
  | _ => false

def Span.holds (c : Char) : Span → Bool
  | range first last => first ≤ c && c ≤ last
  | named name => inClass name c

namespace Pattern

/-! ## Reading -/

def isPlain (g : Glyph) (c : Char) : Bool := !g.quoted && g.char = c

/-- The named class at the start of glyphs behind `[:`, and the rest behind `:]`. -/
def className? : List Glyph → Option (List Char × List Glyph)
  | [] => none
  | g :: rest =>
    match rest with
    | next :: after =>
      if isPlain g ':' && isPlain next ']' then some ([], after)
      else if g.char.isAlpha then (className? rest).map fun r => (g.char :: r.1, r.2)
      else none
    | [] => none

/-- The spans up to the closing bracket and the rest behind it; none if it is not closed. `first`
tells whether this is the first place, where a closing bracket stands for itself. -/
def spans? : Nat → Bool → List Glyph → Option (List Span × List Glyph)
  | 0, _, _ => none
  | _, _, [] => none
  | fuel + 1, first, g :: rest =>
    if isPlain g ']' && !first then some ([], rest)
    else
      let single (c : Char) (rest : List Glyph) : Option (List Span × List Glyph) :=
        match rest with
        | dash :: last :: after =>
          if isPlain dash '-' && !isPlain last ']' then
            (spans? fuel false after).map fun r => (.range c last.char :: r.1, r.2)
          else (spans? fuel false rest).map fun r => (.range c c :: r.1, r.2)
        | _ => (spans? fuel false rest).map fun r => (.range c c :: r.1, r.2)
      match isPlain g '[', isPlain g '\\', rest with
      | true, _, colon :: after =>
        if isPlain colon ':' then
          match (className? after).filter fun r => classNames.contains (String.ofList r.1) with
          | some (name, after) =>
            (spans? fuel false after).map fun r => (.named (String.ofList name) :: r.1, r.2)
          | none => single '[' rest
        else single '[' rest
      | _, true, escaped :: after => single escaped.char after
      | _, _, _ => single g.char rest

/-- The set behind an opening bracket and the rest behind the closing one. -/
def set? (rest : List Glyph) : Option (PatternPart × List Glyph) :=
  let negated := rest.head?.any fun g => isPlain g '!'
  (spans? (rest.length + 1) true (if negated then rest.drop 1 else rest)).map fun r =>
    (.oneOf r.1 negated, r.2)

/-- The pattern that glyphs are read as; `fuel` is at least their number. -/
def read : Nat → List Glyph → Pattern
  | 0, _ => []
  | _, [] => []
  | fuel + 1, g :: rest =>
    if g.quoted then .one g.char :: read fuel rest
    else
      match g.char, rest with
      | '*', _ => .many :: read fuel rest
      | '?', _ => .any :: read fuel rest
      | '\\', next :: after => .one next.char :: read fuel after
      | '[', _ =>
        match set? rest with
        | some (part, after) => part :: read fuel after
        | none => .one '[' :: read fuel rest
      | c, _ => .one c :: read fuel rest

def ofGlyphs (glyphs : List Glyph) : Pattern := read glyphs.length glyphs

/-- Whether a pattern matches more than one text. -/
def isGeneral (p : Pattern) : Bool :=
  p.any fun
    | .one _ => false
    | _ => true

/-! ## Matching -/

/-- Whether a test holds of some end of a text, the whole text and the empty one included. -/
def someEnd (p : List Char → Bool) : List Char → Bool
  | [] => p []
  | c :: rest => p (c :: rest) || someEnd p rest

def accepts : Pattern → List Char → Bool
  | [], cs => cs.isEmpty
  | .many :: rest, cs => someEnd (accepts rest) cs
  | .any :: rest, _ :: cs => accepts rest cs
  | .one c :: rest, d :: cs => c = d && accepts rest cs
  | .oneOf spans negated :: rest, c :: cs => (spans.any (Span.holds c)) != negated && accepts rest cs
  | _, [] => false

/-- A text up to the character zero, which stands between the texts of several arguments. -/
def first (cs : List Char) : List Char := cs.takeWhile (· ≠ '\x00')

/-- A text without the shortest or the longest start that a pattern matches. Of a start only its
first argument is compared. -/
def trimStart (p : Pattern) (longest : Bool) (cs : List Char) : List Char :=
  let lengths := List.range (cs.length + 1)
  let lengths := if longest then lengths.reverse else lengths
  match lengths.find? fun n => accepts p (first (cs.take n)) with
  | some n => cs.drop n
  | none => cs

/-- A text without the shortest or the longest end that a pattern matches. Of an end only its first
argument is compared, and the longest one begins in the first argument. -/
def trimEnd (p : Pattern) (longest : Bool) (cs : List Char) : List Char :=
  let lengths :=
    if longest then List.range ((first cs).length + 1) else (List.range (cs.length + 1)).reverse
  match lengths.find? fun n => accepts p (first (cs.drop n)) with
  | some n => cs.take n
  | none => cs

end Pattern

end Montage

import Montage.Script.Pattern

/-!
# Fields

An expanded word is split into fields: at the separators in the values that were put in, and
between the arguments.

* `Bit`: a part of an expanded word.
* `Fields.split`: the fields of an expanded word.
-/

namespace Montage

/-- A part of an expanded word. -/
inductive Bit where
  /-- A character; one that `splits` may separate fields. -/
  | glyph (glyph : Glyph) (splits : Bool)
  /-- Shows that there is a field here even if it is empty. -/
  | mark
  /-- The start of a value: blanks in front of it do not belong to a separator in it. -/
  | start
  /-- The end of an argument; a hard one ends a field even if it is empty. -/
  | gap (hard : Bool)
  deriving DecidableEq

namespace Bit

/-- The bits of a text. -/
def ofText (quoted splits : Bool) (text : String) : List Bit :=
  text.toList.map fun c => .glyph ⟨c, quoted⟩ splits

def glyph? : Bit → Option Glyph
  | glyph g _ => some g
  | _ => none

def glyphs (bits : List Bit) : List Glyph := bits.filterMap glyph?

end Bit

def Glyph.text (glyphs : List Glyph) : String := String.ofList (glyphs.map Glyph.char)

/-- Fields in the making, each from its last character to its first and the last field first. -/
structure Fields where
  complete : List (List Glyph) := []
  current : Option (List Glyph) := none
  /-- Whether only blanks stand between the last field and the present place. -/
  afterBlank : Bool := false

namespace Fields

def finish (f : Fields) : Fields :=
  match f.current with
  | some field => { f with complete := field :: f.complete, current := none }
  | none => f

/-- The fields after a separator. Blanks around another separator belong to it. -/
def separate (f : Fields) (blank : Bool) : Fields :=
  match f.current with
  | some _ => { f.finish with afterBlank := blank }
  | none =>
    if blank then f
    else if f.afterBlank then { f with afterBlank := false }
    else { f with complete := [] :: f.complete }

def isBlank (c : Char) : Bool := c = ' ' || c = '\t' || c = '\n'

def add (separators : List Char) (f : Fields) : Bit → Fields
  | .mark => { f with current := some (f.current.getD []), afterBlank := false }
  | .start => { f with afterBlank := false }
  | .gap true => { f with complete := f.current.getD [] :: f.complete, current := none }
  | .gap false => f.separate true
  | .glyph g splits =>
    if splits && separators.contains g.char then f.separate (isBlank g.char)
    else { f with current := some (g :: f.current.getD []), afterBlank := false }

/-- The fields of an expanded word. -/
def split (separators : List Char) (bits : List Bit) : List (List Glyph) :=
  ((bits.foldl (add separators) {}).finish.complete.map List.reverse).reverse

end Fields

end Montage

import Montage.Error
import Montage.Number.Digits

/-!
# Anchors

The nine named places of an item on the frame, and the expressions that put it there.

* `Anchor.ofName`: reads a name in whichever case.
* `Anchor.coordinates`: the expressions for the left and the top edge.
* `Placement.check`: an anchor excludes coordinates.
-/

namespace Montage

inductive Anchor where
  | topLeft | top | topRight
  | left | center | right
  | bottomLeft | bottom | bottomRight
  deriving DecidableEq

/-- The names under which a filter knows the sizes of the frame and of the item. -/
structure SizeTerms where
  frameWidth : String
  frameHeight : String
  itemWidth : String
  itemHeight : String

namespace SizeTerms

def overlay : SizeTerms := ⟨"main_w", "main_h", "overlay_w", "overlay_h"⟩

def text : SizeTerms := ⟨"w", "h", "text_w", "text_h"⟩

end SizeTerms

namespace Anchor

def all : List Anchor :=
  [topLeft, top, topRight, left, center, right, bottomLeft, bottom, bottomRight]

def name : Anchor → String
  | topLeft => "topleft"
  | top => "top"
  | topRight => "topright"
  | left => "left"
  | center => "center"
  | right => "right"
  | bottomLeft => "bottomleft"
  | bottom => "bottom"
  | bottomRight => "bottomright"

/-- The anchor of a name, in whichever case it is written (`parse_position`). -/
def ofName (text : String) : Except Error Anchor :=
  let wanted := String.ofList (Text.lower text.toList)
  match all.find? fun a => a.name = wanted with
  | some a => .ok a
  | none => .error (.invalidParameter "position" s!"Unknown position '{text}'")

/-- Where an item stands along one direction of the frame. -/
inductive Edge where
  | near | middle | far
  deriving DecidableEq

def horizontal : Anchor → Edge
  | topLeft | left | bottomLeft => .near
  | top | center | bottom => .middle
  | topRight | right | bottomRight => .far

def vertical : Anchor → Edge
  | topLeft | top | topRight => .near
  | left | center | right => .middle
  | bottomLeft | bottom | bottomRight => .far

/-- The expression for the near side of an item, given the sizes of frame and item. -/
def Edge.expression (frame item padding : String) : Edge → String
  | near => padding
  | middle => s!"({frame}-{item})/2"
  | far => s!"{frame}-{item}-{padding}"

/-- The expressions for the left and the top edge of an item at an anchor, with a distance from the
edges of the frame (`anchor_coordinates`). -/
def coordinates (a : Anchor) (padding : Int) (terms : SizeTerms) : String × String :=
  let distance := Decimal.ofInt padding
  (a.horizontal.expression terms.frameWidth terms.itemWidth distance,
    a.vertical.expression terms.frameHeight terms.itemHeight distance)

end Anchor

/-- Where an item is to stand: at an anchor, or at coordinates. -/
structure Placement where
  anchor : Option Anchor := none
  x : Option Int := none
  y : Option Int := none
  padding : Option Int := none
  deriving DecidableEq

namespace Placement

/-- An anchor and coordinates exclude each other (`check_exclusive_placement`). -/
def check (p : Placement) : Except Error Unit :=
  if p.anchor.isSome && (p.x.isSome || p.y.isSome) then
    .error (.invalidParameter "position"
      "Use either a predefined position or x/y coordinates, not both")
  else .ok ()

end Placement

end Montage

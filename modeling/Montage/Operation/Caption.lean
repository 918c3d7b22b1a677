import Montage.Action
import Montage.Anchor
import Montage.Settings
import Montage.Window

/-!
# Captions

Text drawn on the video.

* `Caption.escape`: the text as the filter wants it quoted.
* `Caption.filterText`: the whole filter.
* `Placement.distance`: the padding of something at an anchor; the setting is read even if the
  placement gives its own.
-/

namespace Montage

def Placement.distance (p : Placement) (h : Host) : Except Failure Int :=
  match Settings.overlayPadding h with
  | .ok default => .ok (p.padding.getD default)
  | .error fault => .error (.setting fault)

structure Caption where
  text : String := ""
  place : Placement := {}
  fontFile : Option String := none
  fontSize : Option Int := none
  fontColor : Option String := none
  background : Option String := none
  border : Option Int := none
  window : Window := {}
  deriving DecidableEq

namespace Caption

/-- One character as the filter reads it inside its quotes. -/
def escapeChar (c : Char) : List Char :=
  if c = '\\' then ['\\', '\\']
  else if c = ':' ∨ c = '\'' then ['\\', '\\', c]
  else [c]

/-- The text as it stands inside the quotes of a filter (`escape_drawtext`). -/
def escape (cs : List Char) : List Char := cs.flatMap escapeChar

/-- There is a text, and sizes, place and window are allowed (`validate`). -/
def check (c : Caption) : Except Error Unit := do
  if c.text.toList.all Text.isBlank then
    throw (.invalidParameter "text" "Text must not be empty")
  if let some size := c.fontSize then
    if size ≤ 0 then throw (.invalidParameter "fontSize" "Font size must be positive")
  if let some border := c.border then
    if border < 0 then throw (.invalidParameter "boxBorder" "Border must not be negative")
  c.place.check
  c.window.check

/-- An option of a filter, if it is set. -/
def option (key : String) : Option String → String
  | some value => ":" ++ key ++ "=" ++ value
  | none => ""

/-- The text, its font and its box. -/
def lookText (c : Caption) : String :=
  let escaped := String.ofList (escape c.text.toList)
  let quoted (text : String) : String := s!"'{text}'"
  "drawtext=text=" ++ quoted escaped
    ++ option "fontfile" (c.fontFile.map quoted)
    ++ option "fontsize" (some (Decimal.ofInt (c.fontSize.getD 24)))
    ++ option "fontcolor" (some (c.fontColor.getD "white"))
    ++ match c.background with
      | some color =>
        ":box=1" ++ option "boxcolor" (some color)
          ++ option "boxborderw" (c.border.map Decimal.ofInt)
      | none => ""

/-- The coordinates of a caption; without any it stands in the center. -/
def coordinates (p : Placement) (h : Host) : Except Failure (String × String) :=
  match p.anchor with
  | some anchor => do
    let distance ← p.distance h
    return anchor.coordinates distance .text
  | none =>
    if p.x.isSome || p.y.isSome then
      .ok (Decimal.ofInt (p.x.getD 0), Decimal.ofInt (p.y.getD 0))
    else .ok (Anchor.center.coordinates 0 .text)

/-- The filter that draws the caption (`drawtext_filter`). -/
def filterText (c : Caption) (h : Host) : Except Failure String := do
  let (x, y) ← coordinates c.place h
  let window ← c.window.option.mapError .reported
  return c.lookText ++ option "x" (some x) ++ option "y" (some y)
    ++ if window.isEmpty then "" else ":" ++ window

def describe (c : Caption) : String := "Adding text overlay: " ++ c.text

end Caption

end Montage

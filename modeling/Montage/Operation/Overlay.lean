import Montage.Operation.Caption

/-!
# Overlays

Another picture laid over the video. Its source becomes an input of the command; if it has to be
scaled or made translucent, a filter of its own prepares it.

* `Overlay.sourceFilter`: the preparation, empty if none is needed.
* `Overlay.overlayFilter`: the filter that lays the source over the main stream.
-/

namespace Montage

structure Overlay where
  source : String := ""
  place : Placement := {}
  /-- A factor for both sides; a width or a height given wins over it. -/
  scale : Option Binary64 := none
  width : Option Int := none
  height : Option Int := none
  opacity : Option Binary64 := none
  window : Window := {}
  deriving DecidableEq

namespace Overlay

/-- The checks that do not look at the machine. -/
def checkValues (o : Overlay) : Except Error Unit := do
  if let some opacity := o.opacity then
    unless 0 ≤ opacity ∧ opacity ≤ 1 do
      throw (.invalidParameter "opacity" "Opacity must be between 0 and 1")
  if let some scale := o.scale then
    unless 0 < scale do throw (.invalidParameter "scale" "Scale must be positive")
  if let some width := o.width then
    if width ≤ 0 then throw (.invalidParameter "width" "Width must be positive")
  if let some height := o.height then
    if height ≤ 0 then throw (.invalidParameter "height" "Height must be positive")
  o.place.check
  o.window.check

/-- Whether the overlay may be used: its source is looked up before its values are checked
(`validate`). -/
def check (o : Overlay) (h : Host) : Except Failure Unit := do
  if o.source.isEmpty then
    throw (.reported (.invalidParameter "source" "Overlay source is required"))
  h.requireFile o.source "File does not exist"
  o.checkValues.mapError .reported

/-- The filter that gives the source its size, if one is asked for. -/
def sizeFilter (o : Overlay) : List String :=
  match o.width, o.height, o.scale with
  | some width, some height, _ =>
    ["scale=" ++ Decimal.ofInt width ++ ":" ++ Decimal.ofInt height]
  | some width, none, _ => ["scale=" ++ Decimal.ofInt width ++ ":-1"]
  | none, some height, _ => ["scale=-1:" ++ Decimal.ofInt height]
  | none, none, some scale =>
    let factor := scale.text
    [s!"scale=iw*{factor}:ih*{factor}"]
  | none, none, none => []

/-- The filter that makes the source translucent, if it is to be. -/
def opacityFilter (o : Overlay) : List String :=
  match o.opacity with
  | some opacity =>
    if opacity < 1 then ["format=rgba,colorchannelmixer=a=" ++ opacity.text] else []
  | none => []

/-- The filters that prepare the source, empty if it goes in as it is (`source_filter`). -/
def sourceFilter (o : Overlay) : String := Text.join "," (o.sizeFilter ++ o.opacityFilter)

/-- The coordinates of an overlay; without any it stands in the top left corner. -/
def coordinates (p : Placement) (h : Host) : Except Failure (String × String) :=
  match p.anchor with
  | some anchor => do
    let distance ← p.distance h
    return anchor.coordinates distance .overlay
  | none => .ok (Decimal.ofInt (p.x.getD 0), Decimal.ofInt (p.y.getD 0))

/-- The filter that lays the source over the main stream (`overlay_filter`). -/
def overlayFilter (o : Overlay) (h : Host) : Except Failure String := do
  let (x, y) ← coordinates o.place h
  let window ← o.window.option.mapError .reported
  return s!"overlay={x}:{y}" ++ if window.isEmpty then "" else ":" ++ window

def describe (o : Overlay) : String := "Adding overlay from: " ++ o.source

end Overlay

end Montage

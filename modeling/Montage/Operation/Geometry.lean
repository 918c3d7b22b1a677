import Montage.Draft
import Montage.Number.Printer
import Montage.Number.Reader

/-!
# Resizing, cropping and rotating

The operations on the frame. Each adds one simple filter.

* `Resize.filter?`: no filter if neither side is given.
* `Crop.filterText`, `Rotation.filterText`.
-/

namespace Montage

/-! ## Resizing -/

structure Resize where
  width : Option Int := none
  height : Option Int := none
  keepsAspect : Bool := true
  deriving DecidableEq

namespace Resize

def isNonPositive : Option Int → Bool
  | some n => decide (n ≤ 0)
  | none => false

def check (r : Resize) : Except Error Unit := do
  if r.width.isNone && r.height.isNone then
    throw (.invalidParameter "resize" "Width or height is required")
  if isNonPositive r.width then
    throw (.invalidParameter "width" "Width must be positive")
  if isNonPositive r.height then
    throw (.invalidParameter "height" "Height must be positive")

/-- The filter for a size. With both sides given and the aspect kept, the width decides. -/
def filter? (r : Resize) : Except Error (Option String) :=
  if isNonPositive r.width || isNonPositive r.height then
    .error (.invalidParameter "resize" "Width and height must be positive")
  else
    let width := Decimal.ofInt (r.width.getD 0)
    let height := Decimal.ofInt (r.height.getD 0)
    match r.width, r.height with
    | some _, some _ =>
      .ok (some (if r.keepsAspect then s!"scale={width}:-1" else s!"scale={width}:{height}"))
    | some _, none => .ok (some s!"scale={width}:-1")
    | none, some _ => .ok (some s!"scale=-1:{height}")
    | none, none => .ok none

def describe (r : Resize) : String :=
  let side (name : String) : Option Int → List String
    | some n => [name ++ ": " ++ Decimal.ofInt n]
    | none => []
  let sides := Text.join ", " (side "width" r.width ++ side "height" r.height)
  let aspect := r.keepsAspect
  s!"Resizing to {sides} (maintain aspect ratio: {aspect})"

end Resize

/-! ## Cropping -/

structure Crop where
  width : Int := 0
  height : Int := 0
  x : Int := 0
  y : Int := 0
  deriving DecidableEq

namespace Crop

def check (c : Crop) : Except Error Unit :=
  if c.width ≤ 0 ∨ c.height ≤ 0 then
    .error (.invalidParameter "crop" "Width and height must be positive")
  else if c.x < 0 ∨ c.y < 0 then
    .error (.invalidParameter "crop" "Offsets must not be negative")
  else .ok ()

def filterText (c : Crop) : String :=
  "crop=" ++ Text.join ":" ([c.width, c.height, c.x, c.y].map Decimal.ofInt)

def describe (c : Crop) : String :=
  let width := Decimal.ofInt c.width
  let height := Decimal.ofInt c.height
  let x := Decimal.ofInt c.x
  let y := Decimal.ofInt c.y
  s!"Cropping to {width}x{height} at position ({x},{y})"

end Crop

/-! ## Rotating -/

/-- A clockwise rotation. -/
structure Rotation where
  degrees : Binary64
  deriving DecidableEq

namespace Rotation

def pi : Binary64 := 3.14159265358979323846

def check (r : Rotation) : Except Error Unit :=
  if r.degrees.isFinite then .ok ()
  else .error (.invalidParameter "degrees" "Rotation must be a finite number")

/-- The filter for an angle. Right angles are transposed, which loses nothing. -/
def filterText (r : Rotation) : String :=
  if r.degrees.same 90 then "transpose=1"
  else if r.degrees.same 180 then "transpose=2,transpose=2"
  else if r.degrees.same 270 then "transpose=2"
  else
    let radians := (r.degrees * pi / 180).text
    s!"rotate={radians}"

def describe (r : Rotation) : String :=
  let degrees := r.degrees.text
  s!"Rotating by {degrees} degrees"

end Rotation

end Montage

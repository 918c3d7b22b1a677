import Montage.Command
import Montage.Number.Printer
import Montage.Number.Reader

/-!
# Color adjustment

Brightness, contrast and saturation, each within its range and at least one of them given.
-/

namespace Montage

structure ColorAdjustment where
  brightness : Option Binary64 := none
  contrast : Option Binary64 := none
  saturation : Option Binary64 := none
  deriving DecidableEq

namespace ColorAdjustment

def isEmpty (a : ColorAdjustment) : Bool :=
  a.brightness.isNone && a.contrast.isNone && a.saturation.isNone

/-- A value that is given lies between the bounds. -/
def checkRange (parameter label : String) (low high : Binary64) :
    Option Binary64 → Except Error Unit
  | none => .ok ()
  | some value =>
    if low ≤ value ∧ value ≤ high then .ok ()
    else
      let lowText := low.fixed 1
      let highText := high.fixed 1
      .error (.invalidParameter parameter s!"{label} must be between {lowText} and {highText}.")

/-- Each value lies in its range, and one of them is given (`validate`). -/
def check (a : ColorAdjustment) : Except Error Unit := do
  checkRange "brightness" "Brightness" (-1) 1 a.brightness
  checkRange "contrast" "Contrast" (-2) 2 a.contrast
  checkRange "saturation" "Saturation" 0 3 a.saturation
  if a.isEmpty then
    throw (.invalidParameter "options"
      "AdjustColorOperation requires at least one option (brightness, contrast, or saturation).")

/-- The parameters that are given, in a fixed order (`eq_params`). -/
def parameters (a : ColorAdjustment) : String :=
  let pair (key : String) : Option Binary64 → List String
    | some value => [key ++ "=" ++ value.text]
    | none => []
  Text.join ":" (pair "brightness" a.brightness ++ pair "contrast" a.contrast
    ++ pair "saturation" a.saturation)

def apply (a : ColorAdjustment) (c : Command) : Command := c.filter "eq" a.parameters

def describe (a : ColorAdjustment) : String :=
  let parameters := a.parameters
  s!"Adjusting color: {parameters}"

end ColorAdjustment

end Montage

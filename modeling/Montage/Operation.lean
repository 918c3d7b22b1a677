import Montage.Operation.Caption
import Montage.Operation.ColorAdjustment
import Montage.Operation.Concatenation
import Montage.Operation.Encoding
import Montage.Operation.Geometry
import Montage.Operation.Overlay
import Montage.Operation.Speed
import Montage.Operation.Trim

/-!
# Operations

The ten kinds of edits. An operation is checked when it is made and again when it is added to a
draft, since the files that it names may have gone.

* `Operation.check`: whether an operation may be used on a host.
* `Operation.apply`: its arguments and filters, put into the draft.
* `Bench.add`: the check and then the application.
-/

namespace Montage

inductive Operation where
  | trim (t : Trim)
  | resize (r : Resize)
  | crop (c : Crop)
  | rotate (r : Rotation)
  | speed (s : Speed)
  | adjustColor (a : ColorAdjustment)
  | caption (c : Caption)
  | overlay (o : Overlay)
  | encode (e : Encoding)
  | concat (c : Concatenation)
  deriving DecidableEq

/-! ## Frame filters on the bench -/

namespace Bench

/-- Adds the filter of a size; without a size it warns and adds nothing (`add_resize_operation`). -/
def resize (r : Resize) : Action Bench Unit := do
  match ← Action.require r.filter? with
  | some text => edit fun d => d.addSimple text
  | none => warn ["Resize without width or height ignored"]

/-- Adds the filter of a crop that passes its check (`add_crop_operation`). -/
def crop (c : Crop) : Action Bench Unit := do
  Action.require c.check
  edit fun d => d.addSimple c.filterText

/-- Adds the filter of a rotation that passes its check (`add_rotate_operation`). -/
def rotate (r : Rotation) : Action Bench Unit := do
  Action.require r.check
  edit fun d => d.addSimple r.filterText

/-- Goes on with a text that depends on the host. -/
def requireText (text : Host → Except Failure String) : Action Bench String := do
  Action.expect (text (← get).host)

end Bench

namespace Operation

/-- Whether an operation may be used (`validate`). Only what names files looks at the host. -/
def check (op : Operation) (h : Host) : Except Failure Unit :=
  match op with
  | trim t => t.check.mapError .reported
  | resize r => r.check.mapError .reported
  | crop c => c.check.mapError .reported
  | rotate r => r.check.mapError .reported
  | speed s => s.check.mapError .reported
  | adjustColor a => a.check.mapError .reported
  | caption c => c.check.mapError .reported
  | overlay o => o.check h
  | encode e => e.check.mapError .reported
  | concat c => c.check h

/-- The operation, if it passes the check. -/
def checked (op : Operation) (h : Host) : Except Failure Operation := do
  op.check h
  return op

/-- Adds the source of an overlay, prepares it if it needs it, and lays it over the main
stream. -/
def applyOverlay (o : Overlay) : Action Bench Unit := do
  let number ← Bench.editGet fun d => d.addInput o.source
  let raw := Concatenation.streamLabel "v" number
  let label ←
    if o.sourceFilter.isEmpty then pure raw
    else do
      let prepared ← Bench.editGet fun d => d.allocate "ovl"
      Bench.edit fun d => d.addComplex o.sourceFilter [raw] [prepared]
      pure prepared
  let text ← Bench.requireText o.overlayFilter
  Bench.edit fun d => d.addComplex text [mainVideo, label] []

/-- Puts the arguments and filters of an operation into the draft (`apply_to`). -/
def apply : Operation → Action Bench Unit
  | trim t => Bench.edit fun d => d.append t.arguments
  | resize r => Bench.resize r
  | crop c => Bench.crop c
  | rotate r => Bench.rotate r
  | speed s => Bench.edit fun d => { d with command := s.apply d.command }
  | adjustColor a => Bench.edit fun d => { d with command := a.apply d.command }
  | caption c => do
    let text ← Bench.requireText c.filterText
    Bench.edit fun d => d.addComplex text
  | overlay o => applyOverlay o
  | encode e => Bench.edit fun d => d.append e.arguments
  | concat c => c.apply

/-- What an operation does, for the log (`describe`). -/
def describe : Operation → String
  | trim t => t.describe
  | resize r => r.describe
  | crop c => c.describe
  | rotate r => r.describe
  | speed s => s.describe
  | adjustColor a => a.describe
  | caption c => c.describe
  | overlay o => o.describe
  | encode e => e.describe
  | concat c => c.describe

end Operation

/-- Checks an operation and applies it (`add_operation`). -/
def Bench.add (op : Operation) : Action Bench Unit := do
  Action.expect (op.check (← get).host)
  op.apply

end Montage

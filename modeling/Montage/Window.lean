import Montage.Time

/-!
# Visibility windows

The span of time in which something placed on the video shows. Either bound may be missing.

* `Window.check`: the start is not negative and the end does not precede it.
* `Window.option`: the filter option that switches a filter on in the window.
-/

namespace Montage

structure Window where
  start : Option Time := none
  stop : Option Time := none
  deriving DecidableEq

namespace Window

/-- The end of a window without one, in seconds. -/
def openEnd : String := "999999"

/-- The start is not negative and the end does not precede it (`check_visibility_window`). -/
def check (w : Window) : Except Error Unit := do
  let start ← match w.start with
    | some t => t.toSeconds
    | none => pure 0
  if w.start.isSome && decide (start < 0) then
    throw (.invalidParameter "start" "Start time must not be negative")
  if let some t := w.stop then
    if (← t.toSeconds) < start then
      throw (.invalidParameter "end" "End time must not precede start")

def boundText (missing : String) : Option Time → Except Error String
  | some t => t.secondsText
  | none => .ok missing

/-- The option that shows a filter between the bounds only; empty if there are none
(`visibility_window`). -/
def option (w : Window) : Except Error String :=
  if w.start.isNone && w.stop.isNone then .ok ""
  else do
    let start ← boundText "0" w.start
    let stop ← boundText openEnd w.stop
    return s!"enable='between(t,{start},{stop})'"

end Window

end Montage

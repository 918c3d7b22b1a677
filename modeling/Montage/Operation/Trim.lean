import Montage.Command
import Montage.Time

/-!
# Trimming

Keeps a span of the medium, given by its start, its end or its duration.
-/

namespace Montage

structure Trim where
  start : Option Time := none
  stop : Option Time := none
  duration : Option Time := none
  deriving DecidableEq

namespace Trim

def isEmpty (t : Trim) : Bool := t.start.isNone && t.stop.isNone && t.duration.isNone

/-- The value of a bound that can be written; a missing one counts as zero. -/
def boundSeconds : Option Time → Except Error Binary64
  | none => .ok 0
  | some t => do
    t.check
    t.toSeconds

/-- By how much start and duration may miss the end, in seconds. -/
def tolerance : Binary64 := 0.001

/-- Some bound is given, the end is after the start, the duration is positive, and the three agree
if all are given (`validate`). -/
def check (t : Trim) : Except Error Unit := do
  if t.isEmpty then
    throw (.invalidParameter "trim" "At least one of start, end or duration is required")
  let start ← boundSeconds t.start
  let stop ← boundSeconds t.stop
  let duration ← boundSeconds t.duration
  if t.stop.isSome && decide (stop ≤ start) then
    throw (.invalidParameter "end" "End time must be after start time")
  if t.duration.isSome && decide (duration ≤ 0) then
    throw (.invalidParameter "duration" "Duration must be positive")
  if t.start.isSome && t.stop.isSome && t.duration.isSome
      && decide (tolerance < (start + duration - stop).abs) then
    throw (.invalidParameter "duration" "Duration conflicts with start and end times")

/-- The arguments of a trim that passes the check (`apply_to_command`). The end wins over the
duration. -/
def arguments (t : Trim) : List String :=
  let start := match t.start with
    | some s => ["-ss", s.token]
    | none => []
  let stop := match t.stop, t.duration with
    | some e, _ => ["-to", e.token]
    | none, some d => ["-t", d.token]
    | none, none => []
  start ++ stop

def describe (t : Trim) : String :=
  let start := (t.start.map Time.token).getD ""
  let stop := (t.stop.map Time.token).getD ""
  let duration := (t.duration.map Time.token).getD ""
  match t.start, t.stop, t.duration with
  | some _, some _, _ => s!"Trimming from {start} to {stop}"
  | some _, none, some _ => s!"Trimming from {start} to duration: {duration}"
  | some _, none, none => s!"Trimming from {start} to end"
  | none, some _, _ => s!"Trimming from beginning to {stop}"
  | none, none, _ => s!"Trimming with duration {duration}"

end Trim

end Montage

import Montage.Error
import Montage.Number.Printer
import Montage.Number.Reader

/-!
# Times

A point or a span of time in a medium. It is given as a number of seconds, as a clock text
`[[HH:]MM:]SS[.mmm]`, or in parts. It is written as a timestamp or as a number of seconds.

* `Time.isClock`: the grammar of clock texts.
* `Time.clockSeconds`: the seconds of a clock text, read field by field.
* `Time.timestamp`, `Time.secondsText`: the two ways to write a time.
* `Time.toSeconds`: its value in seconds.
-/

namespace Montage

/-- A time in parts. Frames show in a timestamp and count for nothing in seconds. -/
structure TimeParts where
  hours : Int := 0
  minutes : Int := 0
  seconds : Binary64 := 0
  frames : Int := 0
  deriving DecidableEq

inductive Time where
  | seconds (n : Binary64)
  | clock (text : String)
  | parts (p : TimeParts)
  deriving DecidableEq

namespace Time

/-! ## Clock texts -/

/-- The text after a first field of digits and its colon; a text without one is not changed. -/
def dropField (cs : List Char) : List Char :=
  match Text.spanDigits cs with
  | (_ :: _, ':' :: rest) => rest
  | _ => cs

/-- Whether a text is one or more digits, optionally followed by a point and one or more. -/
def isSecondsField (cs : List Char) : Bool :=
  match Text.spanDigits cs with
  | (_ :: _, []) => true
  | (_ :: _, '.' :: fraction) => !fraction.isEmpty && fraction.all Char.isDigit
  | _ => false

/-- Whether a text has the form `[[HH:]MM:]SS[.mmm]`; any field may have any count of digits. -/
def isClock (cs : List Char) : Bool := isSecondsField (dropField (dropField cs))

def checkClock (text : String) : Except Error Unit :=
  if isClock text.toList then .ok ()
  else .error (.invalidParameter "time"
    s!"Invalid time format: {text}. Expected format: [[HH:]MM:]SS[.mmm]")

/-- A number of seconds is finite and not negative (`check_seconds`). -/
def checkNumber (n : Binary64) : Except Error Unit :=
  if n.isFinite && !decide (n < 0) then .ok ()
  else
    let got := n.text
    .error (.invalidParameter "time" s!"Time must be a non-negative number, got {got}")

/-- The number of a field, if it has one that the format can hold. A field of a clock text always has a
number, so that a field without one needs no failure of its own. -/
def fieldNumber (text : String) (field : List Char) : Except Error Binary64 :=
  match (Number.read field).filter fun r => !r.1.outOfRange with
  | some (reading, _) => .ok reading.value
  | none => .error (.invalidParameter "time" s!"Time value out of range: {text}")

/-- The sum of the fields of a clock text from the last to the first, each in its unit. -/
def fieldSum (text : String) : List (List Char) → Except Error Binary64
  | [] => .ok 0
  | [last] => fieldNumber text last
  | [last, middle] => do
    return (← fieldNumber text last) + (← fieldNumber text middle) * 60
  | last :: middle :: first :: _ => do
    return (← fieldNumber text last) + (← fieldNumber text middle) * 60
      + (← fieldNumber text first) * 3600

/-- The seconds of a text that has the form of a clock text (`string_to_seconds`). -/
def clockSeconds (text : String) : Except Error Binary64 := do
  let sum ← fieldSum text (Text.splitOn ':' text.toList).reverse
  checkNumber sum
  return sum

/-! ## Values -/

/-- The seconds of a time in parts (`parts_to_seconds`). -/
def partsSeconds (p : TimeParts) : Binary64 :=
  Binary64.ofInt p.hours * 3600 + Binary64.ofInt p.minutes * 60 + p.seconds

/-- The value of a time in seconds (`time_spec_to_seconds`). A number is taken as it is. -/
def toSeconds : Time → Except Error Binary64
  | seconds n => .ok n
  | clock text => do
    checkClock text
    clockSeconds text
  | parts p => .ok (partsSeconds p)

/-! ## Texts -/

/-- What has to hold of a time before it is written: a number is finite and not negative, and a
text is a clock text. -/
def check : Time → Except Error Unit
  | seconds n => checkNumber n
  | clock text => checkClock text
  | parts _ => .ok ()

/-- A count of milliseconds as `HH:MM:SS.mmm`. It is split after rounding, so no field is ever
carried to 60. -/
def ofMilliseconds (total : Int) : String :=
  let hours := Decimal.padded 2 (total / 3600000)
  let minutes := Decimal.padded 2 (total / 60000 % 60)
  let seconds := Decimal.padded 2 (total / 1000 % 60)
  let milliseconds := Decimal.padded 3 (total % 1000)
  s!"{hours}:{minutes}:{seconds}.{milliseconds}"

def partsToken (p : TimeParts) : String :=
  let hours := Decimal.padded 2 p.hours
  let minutes := Decimal.padded 2 p.minutes
  let seconds := String.ofList (Text.padLeft '0' 2 p.seconds.text.toList)
  let frames := Decimal.ofInt p.frames
  if p.frames = 0 then s!"{hours}:{minutes}:{seconds}" else s!"{hours}:{minutes}:{seconds}:{frames}"

/-- The timestamp of a time that passes the check. -/
def token : Time → String
  | seconds n => ofMilliseconds (n * 1000).roundAway
  | clock text => text
  | parts p => partsToken p

/-- A time as a timestamp (`format_time_spec`). -/
def timestamp (t : Time) : Except Error String := do
  t.check
  return t.token

/-- A time as a number of seconds (`format_time_spec`). -/
def secondsText (t : Time) : Except Error String := do
  t.check
  let n ← t.toSeconds
  return n.text

/-- Whole seconds as `HH:MM:SS`; each field has the sign of the number (`format_time`). -/
def wholeSeconds (n : Binary64) : String :=
  let total := n.truncate
  let hours := Decimal.padded 2 (total.tdiv 3600)
  let minutes := Decimal.padded 2 ((total.tmod 3600).tdiv 60)
  let seconds := Decimal.padded 2 (total.tmod 60)
  s!"{hours}:{minutes}:{seconds}"

end Time

end Montage

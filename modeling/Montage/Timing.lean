import Montage.Number.Printer
import Montage.Number.Reader
import Montage.Text

/-!
# Timings

Durations of named phases, in microseconds, and the table that shows them.

* `Timing.Entry`: one measured phase.
* `Timing.summary`: the table of all phases; nothing if there are none.
-/

namespace Montage.Timing

structure Entry where
  phase : String
  microseconds : Int
  deriving DecidableEq

/-- A text filled up with a character on the right. Widths count bytes. -/
def fillRight (fill : Char) (width : Nat) (text : String) : String :=
  text ++ String.ofList (List.replicate (width - text.utf8ByteSize) fill)

/-- A text filled up with blanks on the left. -/
def fillLeft (width : Nat) (text : String) : String :=
  String.ofList (Text.padLeft ' ' width text.toList)

def row (e : Entry) : String :=
  let seconds := (Binary64.ofInt e.microseconds / 1000000).fixed 2
  let phase := fillRight ' ' 30 e.phase
  let time := fillLeft 10 (Decimal.ofInt e.microseconds)
  s!"{phase} {time} [{seconds}s]\n"

def header : String :=
  "\n================== TIMING SUMMARY ==================\n"
    ++ fillRight ' ' 30 "Phase" ++ " " ++ fillLeft 20 "Time (us) [sec]" ++ "\n"
    ++ fillRight '-' 30 "" ++ " " ++ fillRight '-' 20 "" ++ "\n"

def footer : String := "====================================================\n"

/-- The table of the phases in the order in which they were measured (`print_summary`). -/
def summary (entries : List Entry) : String :=
  if entries.isEmpty then "" else header ++ String.join (entries.map row) ++ footer

end Montage.Timing

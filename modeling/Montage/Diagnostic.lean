import Montage.Text

/-!
# The line of an error output that matters

`Diagnostic.errorLine` picks from what a program wrote to its error output the line to report:
the first that mentions an error, else the first line, else a fixed text.
-/

namespace Montage.Diagnostic

/-- Whether a line contains the word "error", in whichever case. -/
def mentionsError (line : List Char) : Bool := Text.includes "error".toList (Text.lower line)

/-- The characters dropped at both ends of a line that mentions an error. -/
def isMargin (c : Char) : Bool := c = ' ' || c = '\t' || c = '\r'

/-- The text reported when the error output says nothing. -/
def unknown : String := "Unknown FFmpeg error"

/-- The line to report of an error output (`parse_ffmpeg_error`). It is never empty. -/
def errorLine (output : String) : String :=
  let lines := Text.lines output.toList
  match lines.find? mentionsError, lines with
  | some line, _ => String.ofList (Text.trim isMargin line)
  | none, (c :: line) :: _ => String.ofList (c :: line)
  | none, _ => unknown

end Montage.Diagnostic

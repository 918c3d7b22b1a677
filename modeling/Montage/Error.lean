import Montage.Diagnostic

/-!
# Errors

What a request can be refused for, and the one place where the wording of it is fixed.

Errors before a program runs (`invalidParameter`, `missingParameter`, `unusableInput`, `usage`)
say what is wrong with the request; `programNotFound` and `executionFailed` say what came of
running it.
-/

namespace Montage

inductive Error where
  /-- A parameter is out of range, malformed or in conflict with another. -/
  | invalidParameter (parameter details : String)
  /-- A parameter that is needed was never set. -/
  | missingParameter (parameter : String)
  /-- An input file is missing or unusable. -/
  | unusableInput (path details : String)
  /-- The program could not be started; the name is empty if none was given. -/
  | programNotFound (program : String)
  /-- The program ran and reported failure. -/
  | executionFailed (command errorOutput : String)
  /-- The command line cannot be read. -/
  | usage (details : String)
  /-- The machine refused something that the request needs. -/
  | refused (details : String)
  deriving DecidableEq

namespace Error

/-- The wording of an error. -/
def wording : Error → String
  | invalidParameter parameter details => s!"Invalid parameter '{parameter}': {details}"
  | missingParameter parameter => s!"Missing required parameter: {parameter}"
  | unusableInput path details =>
    if details.isEmpty then s!"Error with input file at {path}"
    else s!"Error with input file at {path}: {details}"
  | programNotFound program =>
    if program.isEmpty then
      "FFmpeg executable not found. Make sure FFmpeg is installed and available in your PATH"
    else s!"FFmpeg executable not found at {program}"
  | executionFailed _ errorOutput =>
    let line := Diagnostic.errorLine errorOutput
    s!"FFmpeg command execution failed: {line}"
  | usage details => details
  | refused details => details

/-- The message shown for an error: its wording, up to the first NUL character in it. -/
def message (e : Error) : String :=
  String.ofList (e.wording.toList.takeWhile (· ≠ '\x00'))

end Error

end Montage

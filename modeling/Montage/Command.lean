import Montage.Error

/-!
# Commands

The command line of one run of the program: its arguments in order, the primary input and the
output.

* `Command.setInput`, `Command.addInput`: inputs are numbered from zero in the order given.
* `Command.close`, `Command.complete`: put the output behind all arguments, once.
* `Command.text`: the command in one line.
-/

namespace Montage

structure Command where
  program : String
  arguments : List String := []
  /-- The path of the primary input. -/
  input : Option String := none
  /-- The path of the output. -/
  output : Option String := none
  inputCount : Nat := 0
  /-- Whether the output stands behind the arguments. -/
  isClosed : Bool := false
  deriving DecidableEq

namespace Command

def append (c : Command) (arguments : List String) : Command :=
  { c with arguments := c.arguments ++ arguments }

/-- Adds a flag (`add_flag`). -/
def flag (c : Command) (name : String) : Command := c.append [name]

/-- Adds an option with its value (`add_argument`). -/
def argument (c : Command) (key value : String) : Command := c.append [key, value]

/-- Adds an input and gives its number (`add_input`). -/
def addInput (c : Command) (path : String) : Nat × Command :=
  (c.inputCount, { c.append ["-i", path] with inputCount := c.inputCount + 1 })

/-- Adds an input as the primary one and gives its number (`set_input`). -/
def setInput (c : Command) (path : String) : Nat × Command :=
  { c with input := some path }.addInput path

/-- Names the output (`set_output`). -/
def setOutput (c : Command) (path : String) : Command := { c with output := some path }

/-- A video filter with its parameters (`add_filter`). -/
def filter (c : Command) (name parameters : String) : Command :=
  c.argument "-filter:v" s!"{name}={parameters}"

/-- A chain of video filters; an empty one adds nothing (`add_filters`). -/
def filters (c : Command) (texts : List String) : Command :=
  if texts.isEmpty then c else c.argument "-vf" (Text.join "," texts)

/-- How often a word stands among the arguments (`count_argument`). -/
def count (c : Command) (word : String) : Nat := c.arguments.count word

/-- The arguments that select a video filter. -/
def videoFilterCount (c : Command) : Nat :=
  c.count "-filter:v" + c.count "-vf" + c.count "-filter_complex"

/-- A command needs an input and an output. -/
def checkEnds (c : Command) : Except Error Unit :=
  if c.input.isNone then .error (.missingParameter "input")
  else if c.output.isNone then .error (.missingParameter "output")
  else .ok ()

/-- The command with its output behind all arguments; once it stands there nothing is added. -/
def close (c : Command) : Command :=
  match c.output with
  | some path => if c.isClosed then c else { c.append [path] with isClosed := true }
  | none => c

/-- Checks that a command has both ends and closes it (`validate`). -/
def complete (c : Command) : Except Error Command := do
  c.checkEnds
  return c.close

/-- The program and its arguments in one line (`to_string`). -/
def text (c : Command) : String := Text.join " " (c.program :: c.arguments)

end Command

end Montage

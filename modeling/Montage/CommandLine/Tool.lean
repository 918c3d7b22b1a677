import Montage.CommandLine.Reading
import Montage.Session

/-!
# The tool

Runs what a command line asks for and gives an exit code. Errors are logged and decide the code.
A setting that cannot be read and a question that the machine does not answer are no such errors: they
end the program.

* `compile`: the session of a command line.
* `run` (`run_cli`): a dry run prints the command, any other executes it.
* `tool`: the whole program.
-/

namespace Montage.CommandLine

inductive ExitCode where
  | success
  /-- The request was refused before anything ran. -/
  | usage
  /-- The program could not be started, or it failed. -/
  | execution
  deriving DecidableEq

def ExitCode.number : ExitCode → Nat
  | success => 0
  | usage => 1
  | execution => 2

/-- Adds an operation, if it is asked for. -/
def addIf (op : Option Operation) : Action Session Unit :=
  match op with
  | some op => Session.add op
  | none => pure ()

/-- Puts all that is asked for into the session, in a fixed order. -/
def compile (o : Options) : Action Session Unit := do
  if let some path := o.input then Session.setInput path
  unless o.concat.inputs.isEmpty do Session.concat o.concat
  addIf (if o.trim.isEmpty then none else some (.trim o.trim))
  addIf (o.speed.map fun factor => .speed ⟨factor⟩)
  addIf (o.resize.map .resize)
  addIf (o.crop.map .crop)
  addIf (o.rotate.map fun degrees => .rotate ⟨degrees⟩)
  addIf (if o.color.isEmpty then none else some (.adjustColor o.color))
  addIf (o.overlay.map .overlay)
  addIf (o.caption.map .caption)
  addIf (if o.encoding.isEmpty then none else some (.encode o.encoding))
  Session.setOutput o.output

/-- Prints or executes the command that the options ask for. -/
def fulfil (o : Options) (e : Executor) : Action Session Unit := do
  compile o
  if o.dryRun then
    let command ← Session.build
    Session.onHost (Host.print (command.text ++ "\n"))
  else
    let result ← Session.execute e
    let path := result.outputPath
    Session.onHost (Log.info s!"Done: {path}")

/-- Logs an error and gives its exit code. -/
def report (error : Error) : Action Host ExitCode := do
  Log.error error.message
  match error with
  | .executionFailed command _ =>
    Log.debug s!"Command: {command}"
    return .execution
  | .programNotFound _ => return .execution
  | _ => return .usage

/-- Fulfils the options in a new session. -/
def run (o : Options) (e : Executor) : Action Session ExitCode := do
  match ← Action.attempt (fulfil o e) with
  | .ok _ => return .success
  | .error error => Session.onHost (report error)

/-- Fulfils the options on a host, with the options of the session from the settings (`run_cli`). -/
def runOnHost (o : Options) (e : Executor) : Action Host ExitCode := do
  let session ← Action.expect (Session.ofSettings (← get))
  Action.ofStep fun _ =>
    let (outcome, session) := (run o e).perform session
    (outcome, session.host)

/-- Fulfils the options if the program can be started, and shows the timings if asked to. -/
def fulfilOnHost (o : Options) (e : Executor) : Action Host ExitCode := do
  let program := Settings.program (← get)
  if !o.dryRun && !e.canExecute (← get) program then
    Log.error s!"ffmpeg not found: {program}"
    return .execution
  let code ← runOnHost o e
  if ← Action.requireSetting (Settings.printTiming (← get)) then
    Host.logText (Timing.summary (← get).timings)
  return code

/-- The whole program: reads the arguments and does what they ask for. -/
def tool (arguments : List String) (e : Executor) : Action Host ExitCode :=
  match parse arguments with
  | .error error => do
    Log.error error.message
    Host.logText usage
    return .usage
  | .ok o =>
    if o.help then do
      Host.print usage
      return .success
    else fulfilOnHost o e

end Montage.CommandLine

import Montage.Executor.Basic
import Montage.Executor.Program
import Montage.Host.Search
import Montage.Log

/-!
# Running commands as programs of the host

`Executor.process` (`ProcessExecutor`) starts the program of a command, without a shell in between,
and captures both its output streams. How programs are started is a parameter.
-/

namespace Montage

/-- Tells in the log how a program failed; nothing if it did not. -/
def Ending.complaint (program : String) : Ending → List String
  | exited status =>
    let shown := Decimal.ofInt status
    if status = 0 then [] else [s!"{program} exited with status {shown}"]
  | signalled signal =>
    let shown := Decimal.ofInt signal
    [s!"{program} terminated by signal {shown}"]

namespace Executor

variable (launch : Launcher)

/-- Starts a program and waits for its end. -/
def startAndWait (program : String) (arguments : List String) : Action Host Completion := do
  match launch (← get) program arguments with
  | .ok (completion, h) =>
    set h
    return completion
  | .error fault =>
    let reason := fault.message
    Log.error s!"Failed to start {program}: {reason}"
    Action.fail (.programNotFound program)

/-- Runs a command as a program (`execute`). -/
def runProcess (c : Command) : Action Host ExecutionResult := do
  let text := c.text
  Log.info s!"Executing: {text}"
  let started := (← get).clock
  let completion ← startAndWait launch c.program c.arguments
  Host.recordPhase "ffmpeg_process" started
  let milliseconds : Int := (← get).clock - started
  if completion.ending ≠ .exited 0 then
    (completion.ending.complaint c.program).forM Log.error
    Action.fail (.executionFailed text completion.err)
  let program := c.program
  let shown := Decimal.ofInt milliseconds
  Log.debug s!"{program} finished in {shown} ms"
  return ⟨c.output.getD "", text, milliseconds, completion.out, completion.err⟩

/-- The executor that runs programs. -/
def process : Executor where
  name := "process"
  canExecute := Host.findsProgram
  execute := runProcess launch

end Executor

end Montage

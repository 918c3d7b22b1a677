import Montage.Command
import Montage.Host.Basic

/-!
# Executors

An executor runs a command on a host and tells what came of it. It fails only with
`programNotFound` or `executionFailed`, or with a setting that it needs and cannot read.
-/

namespace Montage

/-- What came of a run that succeeded. -/
structure ExecutionResult where
  outputPath : String
  command : String
  milliseconds : Int := 0
  out : String := ""
  err : String := ""
  deriving DecidableEq

structure Executor where
  name : String
  /-- Whether a program can be started. -/
  canExecute : Host → String → Bool
  execute : Command → Action Host ExecutionResult

/-- A command that was handed to an executor, and the host at that moment. -/
structure Run where
  command : Command
  host : Host

/-- The content of the list file that a run reads, if it reads one. -/
def Run.listContent? (r : Run) : Option String :=
  if "concat" ∈ r.command.arguments then r.command.input.bind r.host.content? else none

/-- Records how long a phase took, from a moment on the clock to the present one. -/
def Host.recordPhase (phase : String) (started : Nat) : Action Host Unit :=
  modify fun h =>
    { h with timings := h.timings ++ [⟨phase, 1000 * ((h.clock : Int) - started)⟩] }

end Montage

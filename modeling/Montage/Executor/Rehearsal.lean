import Montage.Executor.Basic

/-!
# Rehearsals

An executor that runs nothing and plays a fixed outcome.
-/

namespace Montage

/-- The outcome that a rehearsal plays. -/
structure Rehearsal where
  /-- Whether the input is replaced by a folder that cannot be removed. -/
  spoilsInput : Bool := false
  notFound : Bool := false
  /-- The error output of a run that fails. -/
  failure : Option String := none
  milliseconds : Int := 0
  out : String := ""
  err : String := ""

namespace Rehearsal

/-- The host with the file at a path replaced by a folder that holds a folder. -/
def spoil (path : String) (h : Host) : Host :=
  let h := match h.remove path with
    | .ok h => h
    | .error _ => h
  (h.makeFolders (Path.joinText path "x")).1

def play (r : Rehearsal) (c : Command) : Action Host ExecutionResult := do
  if r.spoilsInput then
    if let some path := c.input then modify (spoil path)
  if r.notFound then Action.fail (.programNotFound c.program)
  if let some err := r.failure then Action.fail (.executionFailed c.text err)
  return ⟨c.output.getD "", c.text, r.milliseconds, r.out, r.err⟩

def executor (r : Rehearsal) : Executor where
  name := "recording"
  canExecute _ _ := true
  execute := r.play

end Rehearsal

end Montage

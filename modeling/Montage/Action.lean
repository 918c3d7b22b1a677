import Montage.Error
import Montage.Host.Fault
import Montage.Number.Integer

/-!
# Actions

An action changes a state and may fail. What it changed before it failed stays changed.

A failure is an error that the program reports, a setting that cannot be read, or a question that
the machine does not answer. Only errors are caught; the other kinds end the program.

* `Action.perform`: the outcome of an action and the state after it.
* `Action.attempt`: catches errors, and only them.
* `Action.within`: an action on a part of a state.
-/

namespace Montage

inductive Failure where
  /-- An error that is caught and reported. -/
  | reported (error : Error)
  /-- A setting of the environment that should be an integer and is none. -/
  | setting (fault : Integer.Fault)
  /-- The machine does not tell whether a file is there, or where the working directory is. -/
  | machine (fault : FileFault)
  deriving DecidableEq

/-- An action on a state `σ`. The state survives a failure. -/
abbrev Action (σ α : Type) : Type := ExceptT Failure (StateM σ) α

namespace Action

variable {σ τ α : Type}

/-- The outcome of an action and the state that it leaves. -/
def perform (a : Action σ α) (s : σ) : Except Failure α × σ := a.run s

/-- The action with a given outcome and effect. -/
def ofStep (step : σ → Except Failure α × σ) : Action σ α := step

/-- Fails with an error. -/
def fail (e : Error) : Action σ α := throw (.reported e)

/-- Goes on with a value or fails with the error in its place. -/
def require : Except Error α → Action σ α
  | .ok a => pure a
  | .error e => fail e

/-- Goes on with a value or fails as it did. -/
def expect : Except Failure α → Action σ α
  | .ok a => pure a
  | .error failure => throw failure

/-- Goes on with a setting or fails because it cannot be read. -/
def requireSetting : Except Integer.Fault α → Action σ α
  | .ok a => pure a
  | .error fault => throw (.setting fault)

/-- Catches an error and no other failure. -/
def attempt (a : Action σ α) : Action σ (Except Error α) :=
  ofStep fun s =>
    match a.perform s with
    | (.ok value, s') => (.ok (.ok value), s')
    | (.error (.reported e), s') => (.ok (.error e), s')
    | (.error (.setting fault), s') => (.error (.setting fault), s')
    | (.error (.machine fault), s') => (.error (.machine fault), s')

/-- An action on a part of the state, as an action on the whole. -/
def within (part : σ → τ) (put : σ → τ → σ) (a : Action τ α) : Action σ α :=
  ofStep fun s =>
    let (outcome, t) := a.perform (part s)
    (outcome, put s t)

end Action

end Montage

import Montage.Host.Basic

/-!
# Programs

What comes of a program that is started. Which programs a machine has and what they do is no part of
this: a launcher knows it.
-/

namespace Montage

/-- How a program ended. -/
inductive Ending where
  | exited (status : Nat)
  | signalled (signal : Nat)
  deriving DecidableEq

/-- What a program wrote and how it ended. -/
structure Completion where
  out : String
  err : String
  ending : Ending
  deriving DecidableEq

/-- Starts a program with arguments and waits for it: what came of it and the host that it left, or why
it could not be started. -/
abbrev Launcher : Type := Host → String → List String → Except FileFault (Completion × Host)

end Montage

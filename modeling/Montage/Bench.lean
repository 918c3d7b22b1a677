import Montage.Draft
import Montage.Log

/-!
# The bench

A draft together with the host on which it is made. Operations are applied here: they edit the
draft, may write a list file, and may log.

* `Bench.edit`: changes the draft.
* `Bench.onHost`: an action on the host alone.
* `Bench.build`: the command of the draft, built once.
-/

namespace Montage

structure Bench where
  host : Host
  draft : Draft
  /-- The list file that the operation at hand wrote and still owns. -/
  listFile : Option String := none

namespace Bench

variable {α : Type}

def onHost : Action Host α → Action Bench α :=
  Action.within Bench.host fun bench host => { bench with host }

def edit (change : Draft → Draft) : Action Bench Unit :=
  modify fun bench => { bench with draft := change bench.draft }

/-- Changes the draft and hands on what the change gives. -/
def editGet (change : Draft → α × Draft) : Action Bench α :=
  modifyGet fun bench =>
    let (value, draft) := change bench.draft
    (value, { bench with draft })

/-- Changes the draft, or fails and leaves it. -/
def editOrFail (change : Draft → Except Error Draft) : Action Bench Unit := do
  let draft ← Action.require (change (← get).draft)
  edit fun _ => draft

def warn (messages : List String) : Action Bench Unit :=
  onHost (messages.forM Log.warning)

/-- Builds the command of the draft; a draft that was built is not built again (`build`). -/
def build : Action Bench Command := do
  let draft := (← get).draft
  unless draft.isBuilt do
    Action.require draft.command.checkEnds
    warn draft.leftOutWarning
    warn draft.repeatedFilterWarning
    edit Draft.built
  return (← get).draft.command

end Bench

end Montage

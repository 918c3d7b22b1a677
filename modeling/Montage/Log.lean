import Montage.Settings

/-!
# Log messages

Messages go to standard error, a line each, with the level in front. A debugging message is
written only if the settings ask for it, and asking fails if that setting cannot be read.
-/

namespace Montage.Log

def debug (message : String) : Action Host Unit := do
  if ← Action.requireSetting (Settings.debugging (← get)) then
    Host.logText s!"[DEBUG] {message}\n"

def info (message : String) : Action Host Unit := Host.logText s!"[INFO] {message}\n"

def warning (message : String) : Action Host Unit := Host.logText s!"[WARN] {message}\n"

def error (message : String) : Action Host Unit := Host.logText s!"[ERROR] {message}\n"

/-- A success, told without a level. -/
def success (message : String) : Action Host Unit := Host.logText s!"{message}\n"

end Montage.Log

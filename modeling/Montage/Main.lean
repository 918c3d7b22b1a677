import Montage.CommandLine.Tool
import Montage.Executor.Process
import Montage.Host.Picture
import Montage.Script.Run

/-!
# The program

Takes a picture of what the arguments and the settings name on the machine, runs the tool on it,
and carries out on the machine what the tool did to the picture.
-/

namespace Montage.Machine

/-- The environment variables that the tool reads. -/
def variableNames : List String :=
  ["PATH", "FFMPEG_PATH", "CLIPFORGE_TEMP_DIR", "OVERWRITE_OUTPUT", "HIDE_BANNER",
    "DEBUG_LOGGING", "PRINT_TIMING", "OVERLAY_PADDING"]

def readVariables : IO (List (String × String)) := do
  let found ← variableNames.mapM fun name => do
    return (← IO.getEnv name).map fun value => (name, value)
  return found.filterMap id

/-- The most bytes read of a file. Scripts are shorter; of a longer file it only matters that it
is there. -/
def mostBytes : USize := 65536

/-- The file behind a handle; one that begins as a script can be executed. -/
def readFile (handle : IO.FS.Handle) : IO Entry := do
  let bytes ← handle.read mostBytes
  let content := if bytes.size < mostBytes.toNat then (String.fromUTF8? bytes).getD "" else ""
  return .file content ("#!".toList.isPrefixOf content.toList)

/-- What stands behind a handle. What can be opened but not read is a folder. -/
def readHandle (handle : IO.FS.Handle) : IO Entry := do
  try readFile handle
  catch _ => return .folder false

/-- What stands at a location, if it can be opened. -/
def readEntry (location : Location) : IO (Option (Location × Entry)) := do
  try
    let handle ← IO.FS.Handle.mk (Path.locationText location) .read
    return some (location, ← readHandle handle)
  catch _ => return none

/-- The picture of the machine that the tool needs for some arguments. -/
def picture (arguments : List String) : IO Host := do
  let directory := (Path.ofText (toString (← IO.currentDir))).parts
  let seed := (← IO.getRandomBytes 8).foldl (fun n byte => 256 * n + byte.toUInt64) 0
  let host : Host :=
    { environment := ← readVariables
      directory, seed
      process := seed.toNat % 100000
      clock := ← IO.monoMsNow }
  let entries ← (host.locationsFor arguments).mapM readEntry
  return { host with tree := { entries := entries.filterMap id } }

/-- Makes one change on the machine. -/
def carryOut : Change → IO Unit
  | .makeFolder location => IO.FS.createDirAll (Path.locationText location)
  | .write location content => IO.FS.writeFile (Path.locationText location) content
  | .removeFile location => IO.FS.removeFile (Path.locationText location)
  | .removeFolder location => IO.FS.removeDir (Path.locationText location)

/-- The exit status of a program that ended without an exit code. -/
def abortStatus : UInt32 := 134

end Montage.Machine

open Montage in
/-- Runs the tool. -/
def main (arguments : List String) : IO UInt32 := do
  let host ← Machine.picture arguments
  let (outcome, changed) := (CommandLine.tool arguments (Executor.process Host.launch)).perform host
  (host.tree.changes changed.tree).forM Machine.carryOut
  (← IO.getStdout).putStr changed.printed
  (← IO.getStderr).putStr changed.logged
  match outcome with
  | .ok code => return code.number.toUInt32
  | .error _ => return Machine.abortStatus

import Montage.Settings

/-!
# Finding programs

A program is named by a path, or by a name that is looked up in the folders of the search path.

* `Host.candidates`: the paths that a name may stand for.
* `Host.findsProgram`: whether a program can be found.
-/

namespace Montage.Host

/-- The folders searched when the environment names none. -/
def defaultSearchPath : String := "/usr/bin:/bin"

/-- The paths under which a program may stand: itself if it contains a slash, else its name in
each folder of the search path. An empty folder is the working directory, and an empty folder at
the end is not searched. -/
def candidates (h : Host) (program : String) : List String :=
  let searchPath := Settings.text h "PATH" defaultSearchPath
  (Text.endedBy ':' searchPath.toList).map fun folder =>
    Path.joinText (if folder.isEmpty then "." else String.ofList folder) program

/-- Whether a program can be found (`find_executable`). A path with a slash need only be executable,
so it may also be a folder. Names are those that the machine can be given: they hold no NUL. -/
def findsProgram (h : Host) (program : String) : Bool :=
  if program.isEmpty then false
  else if program.toList.contains '/' then h.mayExecute program
  else (h.candidates program).any fun path => h.mayExecute path && !h.isFolder path

end Montage.Host

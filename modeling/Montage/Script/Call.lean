import Montage.Host.Basic
import Montage.Text.Octet

/-!
# Programs that can be started

The programs of a host are the shell, a few others that every host has, and scripts. A script names
the program that runs it on its first line; that program may be a script again.

* `Host.callAt`: which of the basic programs is called when the file at a path is started.
* `Host.programCall`: which is called when a program is started. A name is tried in every folder of
  the search path; a file that may not be run is reported only if no other is found.
-/

namespace Montage.Host

/-- The shell. -/
def interpreter : String := "/bin/sh"

/-- The programs that every host has. -/
inductive BasicProgram where
  | shell
  /-- Runs another program with other variables. -/
  | env
  /-- Shows its arguments. -/
  | echo
  /-- Shows files. -/
  | cat
  | success
  | failure
  deriving DecidableEq

def basicPrograms : List (String × BasicProgram) :=
  [("sh", .shell), ("dash", .shell), ("env", .env), ("echo", .echo), ("cat", .cat),
    ("true", .success), ("false", .failure)]

/-- The program that every host has at a location. -/
def basicProgram? : Location → Option BasicProgram
  | ["bin", name] | ["usr", "bin", name] => basicPrograms.lookup name
  | _ => none

/-- How many octets of a file are looked at to find what runs it. -/
def lineLimit : Nat := 256

def isSpace (c : Char) : Bool := c = ' ' || c = '\t'

/-- The name of a program at the start of a line, and its argument, which is the rest of the line. -/
def nameAndArgument (line : List Char) : String × Option String :=
  let line := line.dropWhile isSpace
  let argument := (line.dropWhile fun c => !isSpace c).dropWhile isSpace
  (String.ofList (line.takeWhile fun c => !isSpace c),
    if argument.isEmpty then none else some (String.ofList argument))

/-- The program that runs a script, and its argument, as its first line names them. Blanks at the
end of the line do not count, unless the file ends there. A line that is cut off at the limit has
to go beyond the name of the program. -/
def scriptProgram? (content : String) : Option (String × Option String) :=
  match (Octet.ofText content).toList.take lineLimit with
  | '#' :: '!' :: rest =>
    let line := rest.takeWhile (· ≠ '\n')
    let trimmed := (line.reverse.dropWhile isSpace).reverse
    if line.length = rest.length then
      if rest.length + 2 < lineLimit then some (nameAndArgument line)
      else if (line.dropWhile isSpace).any isSpace then some (nameAndArgument trimmed)
      else none
    else if trimmed.isEmpty then none
    else some (nameAndArgument trimmed)
  | _ => none

/-- How one of these programs is called: under which name and with which arguments. -/
structure Call where
  program : BasicProgram
  name : String
  arguments : List String
  deriving DecidableEq

/-- How many scripts may run each other. -/
def scriptLevels : Nat := 5

/-- What is called when the file at a path is started under a name. `levels` bounds how many scripts
may run each other. -/
def callAt (h : Host) (levels : Nat) (name path : String) (arguments : List String) :
    Except FileFault Call :=
  match h.find path with
  | .error fault => .error fault
  | .ok (_, .folder _) => .error .accessDenied
  | .ok (_, .file _ false) => .error .accessDenied
  | .ok (location, .file content true) =>
    match basicProgram? location, scriptProgram? content, levels with
    | some program, _, _ => .ok ⟨program, name, arguments⟩
    | none, none, _ => .error .notAProgram
    | none, some _, 0 => .error .tooManyLinks
    | none, some (program, argument), levels + 1 =>
      let program := Octet.toText program
      if program.isEmpty then .error .accessDenied
      else
        h.callAt levels program program ((argument.map Octet.toText).toList ++ path :: arguments)

/-- The paths tried when a program is started: here every folder counts. -/
def startPaths (h : Host) (program : String) : List String :=
  let searchPath := (h.valueOf? "PATH").getD "/bin:/usr/bin"
  (Text.splitOn ':' searchPath.toList).map fun folder =>
    if folder.isEmpty then program else String.ofList folder ++ "/" ++ program

/-- What is called for the first of some paths that can be started. `fault` is what to
report if none can. -/
def firstCall (h : Host) (program : String) (arguments : List String) (fault : FileFault) :
    List String → Except FileFault Call
  | [] => .error fault
  | path :: rest =>
    match h.callAt scriptLevels program path arguments with
    | .ok call => .ok call
    | .error .accessDenied => h.firstCall program arguments .accessDenied rest
    | .error .noSuchFile | .error .notAFolder => h.firstCall program arguments fault rest
    | .error other => .error other

/-- What is called when a program is started. -/
def programCall (h : Host) (program : String) (arguments : List String) :
    Except FileFault Call :=
  if program.isEmpty then .error .noSuchFile
  else if program.toList.contains '/' then h.callAt scriptLevels program program arguments
  else h.firstCall program arguments .noSuchFile (h.startPaths program)

end Montage.Host

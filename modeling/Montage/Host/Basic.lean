import Montage.Action
import Montage.Host.Tree
import Montage.Timing

/-!
# The host

The part of a machine that the program sees: environment variables, the working directory, the
file tree, the two output streams and the sources of fresh names. All that the program does to
the machine is a change of this value.

* `Host.find`: what stands at a path.
* `Host.pathExists`, `Host.currentPath`: questions that the machine may leave unanswered.
* `Host.makeFolders`, `Host.write`, `Host.remove`: changes of the file tree.
* `Host.listName`, `Host.randomName`: fresh file names.
-/

namespace Montage

structure Host where
  environment : List (String × String) := []
  /-- The working directory. -/
  directory : Location := []
  tree : Tree := {}
  /-- What was written to standard output. -/
  printed : String := ""
  /-- What was written to standard error. -/
  logged : String := ""
  timings : List Timing.Entry := []
  /-- The number of the running process. -/
  process : Nat := 1
  /-- Milliseconds since the epoch. -/
  clock : Nat := 0
  /-- How many list names were handed out. -/
  listsNamed : Nat := 0
  /-- The state of the generator of random names. -/
  seed : UInt64 := 0

namespace Host

def valueOf? (h : Host) (name : String) : Option String := h.environment.lookup name

/-- The path of the working directory, whether or not it is still there. -/
def directoryText (h : Host) : String := Path.locationText h.directory

/-- The path of the working directory (`current_path`). It is not told once the folder is gone. -/
def currentPath (h : Host) : Except FileFault String :=
  match h.tree.find? h.directory with
  | some (.folder _) => .ok h.directoryText
  | some (.file ..) | none => .error .noSuchFile

/-! ## Looking at files -/

/-- Where the parts of a path are walked from. -/
def start (h : Host) (path : Path) : Location := if path.absolute then [] else h.directory

/-- What stands at a path. -/
def find (h : Host) (text : String) : Except FileFault (Location × Entry) :=
  let path := Path.ofText text
  if path.isEmpty then .error .noSuchFile
  else if Path.isTooLong text then .error .nameTooLong
  else h.tree.walk (h.start path) path.steps

/-- Whether something stands at a path (`exists`). The machine tells it, or why it cannot. -/
def pathExists (h : Host) (text : String) : Except FileFault Bool :=
  match h.find text with
  | .ok _ => .ok true
  | .error fault => if fault.isAbsence then .ok false else .error fault

/-- A file that has to be there. An answer that the machine does not give is no error of the
request, and nothing catches it. -/
def requireFile (h : Host) (path details : String) : Except Failure Unit :=
  match h.pathExists path with
  | .ok true => .ok ()
  | .ok false => .error (.reported (.unusableInput path details))
  | .error fault => .error (.machine fault)

/-- Whether a path may be executed; folders count. -/
def mayExecute (h : Host) (text : String) : Bool :=
  match h.find text with
  | .ok (_, .file _ executable) => executable
  | .ok (_, .folder _) => true
  | .error _ => false

def isFolder (h : Host) (text : String) : Bool :=
  match h.find text with
  | .ok (_, .folder _) => true
  | _ => false

/-- The content of what stands at a path; a folder reads as empty. -/
def content? (h : Host) (text : String) : Option String :=
  match h.find text with
  | .ok (_, .file content _) => some content
  | .ok (_, .folder _) => some ""
  | .error _ => none

/-! ## Changing files -/

def makeFolders (h : Host) (text : String) : Host × Option FileFault :=
  if Path.isTooLong text then (h, some .nameTooLong)
  else
    let path := Path.ofText text
    let (tree, fault) := h.tree.makeFolders (h.start path) path
    ({ h with tree }, fault)

def write (h : Host) (text content : String) : Except FileFault Host :=
  if Path.isTooLong text then .error .nameTooLong
  else do
    let path := Path.ofText text
    let tree ← h.tree.write (h.start path) path content
    return { h with tree }

def remove (h : Host) (text : String) : Except FileFault Host :=
  if Path.isTooLong text then .error .nameTooLong
  else do
    let path := Path.ofText text
    let tree ← h.tree.remove (h.start path) path
    return { h with tree }

/-! ## Fresh names -/

/-- A name for a list file (`unique_list_name`); no two calls give the same. -/
def listName (h : Host) : String × Host :=
  let process := Decimal.ofInt h.process
  let clock := Decimal.ofInt h.clock
  let serial := Decimal.ofInt h.listsNamed
  (s!"concat-{process}-{clock}-{serial}.txt", { h with listsNamed := h.listsNamed + 1 })

/-- Sixteen random hexadecimal digits. The source of random numbers always gives one. -/
def randomName (h : Host) : String × Host :=
  let seed := h.seed * 6364136223846793005 + 1442695040888963407
  (String.ofList (Text.padLeft '0' 16 (Nat.toDigits 16 seed.toNat)), { h with seed })

/-! ## Output

It is taken for granted that both streams can be written to as long as the program runs. -/

/-- Writes to standard output. -/
def print (text : String) : Action Host Unit :=
  modify fun h => { h with printed := h.printed ++ text }

/-- Writes to standard error. -/
def logText (text : String) : Action Host Unit :=
  modify fun h => { h with logged := h.logged ++ text }

end Host

end Montage

import Montage.Host.Fault
import Montage.Host.Path

/-!
# The file tree

Files and folders by location. The root is always there. A location may be barred: the machine does
not tell what stands there, nor does it do anything with it.

* `Tree.step`: the location that one part of a path leads to; it has to be entered from a folder.
* `Tree.walk`: follows the parts of a path.
* `Tree.makeFolders`: creates a folder and those it stands in.
* `Tree.write`, `Tree.remove`: files and empty folders.
-/

namespace Montage

inductive Entry where
  | file (content : String) (executable : Bool)
  /-- A folder; nothing can be created in one that is sealed. -/
  | folder (isSealed : Bool)
  deriving DecidableEq

/-- The most octets of a name. -/
def nameLimit : Nat := 255

/-- Names that are too long are looked up nowhere. -/
def Location.longName (location : Location) : Option FileFault :=
  match location.getLast? with
  | some name => if nameLimit < name.utf8ByteSize then some .nameTooLong else none
  | none => none

/-- The entries of a file system by location. -/
structure Tree where
  entries : List (Location × Entry) := []
  /-- Why the machine does not look up a location: its name is too long, the folder around it may
  not be searched, or a link there leads back to itself. -/
  barred : Location → Option FileFault := Location.longName

namespace Tree

def find? (t : Tree) (location : Location) : Option Entry :=
  if location = [] then some (.folder false) else t.entries.lookup location

/-- Puts an entry in place of what stood at its location. -/
def put (t : Tree) (location : Location) (entry : Entry) : Tree :=
  { t with entries := (location, entry) :: t.entries.filter (·.1 ≠ location) }

def erase (t : Tree) (location : Location) : Tree :=
  { t with entries := t.entries.filter (·.1 ≠ location) }

/-- Whether something stands in a folder. -/
def hasChildren (t : Tree) (location : Location) : Bool :=
  t.entries.any fun e => e.1 ≠ [] && e.1.dropLast == location

/-- The location that a part leads to. It has to be taken from a folder. -/
def step (t : Tree) (here : Location) (part : String) : Except FileFault Location :=
  match t.find? here with
  | some (.folder _) =>
    match t.barred (Path.follow here part) with
    | some fault => .error fault
    | none => .ok (Path.follow here part)
  | some (.file ..) => .error .notAFolder
  | none => .error .noSuchFile

/-- Follows parts from a location and looks at what stands at the end. -/
def walk (t : Tree) (here : Location) : List String → Except FileFault (Location × Entry)
  | [] =>
    match t.find? here with
    | some entry => .ok (here, entry)
    | none => .error .noSuchFile
  | part :: rest =>
    match t.step here part with
    | .ok next => t.walk next rest
    | .error fault => .error fault

/-- The location that a last part names in the folder that the other parts lead to. -/
def slot (t : Tree) (here : Location) (parts : List String) : Except FileFault Location :=
  match t.walk here parts.dropLast with
  | .ok (folder, .folder false) =>
    match parts.getLast? with
    | none | some "." | some ".." => .error .noSuchFile
    | some name => t.step folder name
  | .ok (_, .folder true) => .error .noSuchFile
  | .ok (_, .file ..) => .error .notAFolder
  | .error fault => .error fault

/-! ## Folders -/

/-- Creates one folder; one that is there already is left as it is. -/
def makeFolder (t : Tree) (here : Location) (parts : List String) : Except FileFault Tree :=
  match t.walk here parts with
  | .ok (_, .folder _) => .ok t
  | .ok (_, .file ..) => .error .alreadyThere
  | .error _ => do
    let location ← t.slot here parts
    return t.put location (.folder false)

/-- Creates folders in turn; the first that cannot be created ends it. -/
def makeEach (t : Tree) (here : Location) : List (List String) → Tree × Option FileFault
  | [] => (t, none)
  | parts :: rest =>
    match t.makeFolder here parts with
    | .ok t' => t'.makeEach here rest
    | .error fault => (t, some fault)

/-- The folders to create, the outermost first, for a missing path given by its parts from the
last to the first. The nearest part that is there has to be a folder. -/
def missing (t : Tree) (here : Location) : List String → Except FileFault (List (List String))
  | [] => .ok []
  | part :: outer =>
    let own := if part = "." ∨ part = ".." then [] else [(part :: outer).reverse]
    match outer with
    | [] => .ok own
    | _ :: _ =>
      match t.walk here outer.reverse with
      | .ok (_, .folder _) => .ok own
      | .ok (_, .file ..) => .error .notAFolder
      | .error _ => (· ++ own) <$> t.missing here outer

/-- Creates a folder together with those it stands in (`create_directories`). The tree keeps the
folders created before a fault. Where it is not told what stands at the path, none is created. -/
def makeFolders (t : Tree) (here : Location) (path : Path) : Tree × Option FileFault :=
  if path.isEmpty then (t, some .emptyPath)
  else
    match t.walk here path.steps with
    | .ok (_, .folder _) => (t, none)
    | .ok (_, .file ..) => (t, some .notAFolder)
    | .error fault =>
      if fault.isAbsence then
        match t.missing here path.parts.reverse with
        | .ok folders => t.makeEach here folders
        | .error fault => (t, some fault)
      else (t, some fault)

/-! ## Files -/

/-- Writes a file, a new one or over the content of one that is there. A file that can be opened is
written to its end: the disk is never full. -/
def write (t : Tree) (here : Location) (path : Path) (content : String) : Except FileFault Tree :=
  match t.walk here path.steps with
  | .ok (location, .file _ executable) => .ok (t.put location (.file content executable))
  | .ok (_, .folder _) => .error .accessDenied
  | .error _ => do
    let location ← t.slot here path.steps
    return t.put location (.file content false)

/-- Removes a file or an empty folder. What is not there needs no removing. -/
def remove (t : Tree) (here : Location) (path : Path) : Except FileFault Tree :=
  match t.walk here path.steps with
  | .ok (location, .file ..) => .ok (t.erase location)
  | .ok (location, .folder _) =>
    if t.hasChildren location then .error .notEmpty else .ok (t.erase location)
  | .error .noSuchFile => .ok t
  | .error fault => .error fault

end Tree

end Montage

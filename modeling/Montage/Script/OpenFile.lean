import Montage.Host.Basic
import Montage.Text.Octet

/-!
# Open files

The files that the processes of a script have open. Processes share them: what one writes moves
the place at which another goes on.

* `OpenFiles.openPath`: opens a file of a host.
* `OpenFiles.write`, `OpenFiles.readLine`: writing and reading at the present place.
-/

namespace Montage

/-- A file that is open. -/
inductive OpenFile where
  /-- Takes all that is written and gives nothing. -/
  | nowhere
  /-- A file of the host, read and written from a place on. -/
  | file (location : Location) (place : Nat) (appending : Bool)
  /-- What was written and not yet read, as in a pipe; `unread` comes first. -/
  | buffer (unread : List Char) (written : String)

structure OpenFiles where
  files : Array OpenFile := #[]

namespace OpenFiles

/-- Opens a file under the next number. -/
def add (o : OpenFiles) (file : OpenFile) : Nat × OpenFiles :=
  (o.files.size, ⟨o.files.push file⟩)

def get? (o : OpenFiles) (n : Nat) : Option OpenFile := o.files[n]?

def set (o : OpenFiles) (n : Nat) (file : OpenFile) : OpenFiles := ⟨o.files.setIfInBounds n file⟩

/-- What a buffer holds. -/
def bufferText (o : OpenFiles) (n : Nat) : String :=
  match o.get? n with
  | some (.buffer unread written) => String.ofList unread ++ written
  | _ => ""

/-- A text with octets put in at a place. -/
def overwrite (old : List Char) (place : Nat) (text : List Char) : List Char :=
  old.take place ++ text ++ old.drop (place + text.length)

/-- The octets of the file at a location. -/
def contentAt (tree : Tree) (location : Location) : List Char :=
  match tree.find? location with
  | some (.file content _) => (Octet.ofText content).toList
  | _ => []

/-- Puts octets into the file at a location. -/
def putContent (tree : Tree) (location : Location) (octets : List Char) : Tree :=
  let executable :=
    match tree.find? location with
    | some (.file _ executable) => executable
    | _ => false
  tree.put location (.file (Octet.toText (String.ofList octets)) executable)

/-- Writes octets. -/
def write (o : OpenFiles) (tree : Tree) (n : Nat) (text : String) : OpenFiles × Tree :=
  match o.get? n with
  | some (.buffer ..) =>
    (⟨o.files.modify n fun
      | .buffer unread written => .buffer unread (written ++ text)
      | other => other⟩, tree)
  | some (.file location place appending) =>
    let old := contentAt tree location
    let place := if appending then old.length else place
    (o.set n (.file location (place + text.length) appending),
      putContent tree location (overwrite old place text.toList))
  | _ => (o, tree)

/-- The octets up to a line end, that included, and the rest. -/
def splitLine (cs : List Char) : List Char × List Char :=
  let line := cs.takeWhile (· ≠ '\n')
  (line ++ (cs.drop line.length).take 1, cs.drop (line.length + 1))

/-- Reads up to a line end, that included, or to the end of the file. -/
def readLine (o : OpenFiles) (tree : Tree) (n : Nat) : List Char × OpenFiles :=
  match o.get? n with
  | some (.buffer unread written) =>
    let (line, rest) := splitLine (if written.isEmpty then unread else unread ++ written.toList)
    (line, o.set n (.buffer rest ""))
  | some (.file location place appending) =>
    let (line, _) := splitLine ((contentAt tree location).drop place)
    (line, o.set n (.file location (place + line.length) appending))
  | _ => ([], o)

end OpenFiles

end Montage

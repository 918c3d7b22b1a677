import Montage.Host.Search
import Montage.Script.Call

/-!
# Pictures of a machine

The tool works on a host, which is a picture of a machine. Taking it needs the locations that the
tool may look at; carrying out what the tool did needs the differences between two pictures.

* `Host.locationsFor`: the locations that arguments and settings name.
* `Tree.changes`: what turns one tree into another, in an order in which it can be done.
-/

namespace Montage

namespace Path

/-- The locations on the way along a path, from the root to its end. -/
def locations (directory : Location) (text : String) : List Location :=
  let path := ofText text
  let start := if path.absolute then [] else directory
  (List.range start.length).map start.take
    ++ (List.range (path.parts.length + 1)).map fun n => (path.parts.take n).foldl follow start

end Path

namespace Host

/-- The locations that the tool may look at when it is given these arguments. -/
def locationsFor (h : Host) (arguments : List String) : List Location :=
  let program := Settings.program h
  let texts := arguments ++ [Settings.tempName h, interpreter, program]
    ++ h.candidates program ++ h.startPaths program
  (texts.flatMap (Path.locations h.directory)).eraseDups

end Host

/-- One change of a file tree. -/
inductive Change where
  | makeFolder (location : Location)
  | write (location : Location) (content : String)
  | removeFile (location : Location)
  | removeFolder (location : Location)
  deriving DecidableEq

namespace Change

/-- The change that puts an entry at a location. -/
def putting (location : Location) : Entry → Change
  | .file content _ => write location content
  | .folder _ => makeFolder location

/-- The change that takes an entry from a location. -/
def taking (location : Location) : Entry → Change
  | .file .. => removeFile location
  | .folder _ => removeFolder location

end Change

namespace Tree

/-- What turns one tree into another: first what is gone, then what is new or different. An entry
put in later stands in front, so entries are put in from the last to the first. -/
def changes (old new : Tree) : List Change :=
  let gone := old.entries.filter fun e => (new.find? e.1).isNone
  let fresh := new.entries.filter fun e => old.find? e.1 ≠ some e.2
  gone.map (fun e => .taking e.1 e.2) ++ fresh.reverse.map fun e => .putting e.1 e.2

end Tree

end Montage

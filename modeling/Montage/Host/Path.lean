import Montage.Text

/-!
# Paths

A path is read as a list of parts between slashes. Empty parts count for nothing, but a slash at
the end says that the path is a folder.

* `Path.ofText`: the parts of a path.
* `Path.normalText`: the absolute path without `.` and `..`, found on the text alone.
* `Path.joinText`: the path of a file in a folder.
* `Path.extension`: the last dot of the file name and what follows it.
-/

namespace Montage

/-- The names on the way from the root. -/
abbrev Location := List String

structure Path where
  absolute : Bool
  parts : List String
  /-- Whether a slash follows the last part. -/
  asFolder : Bool
  deriving DecidableEq

namespace Path

def ofText (text : String) : Path :=
  let pieces := (Text.splitOn '/' text.toList).map String.ofList
  { absolute := text.toList.head? = some '/'
    parts := pieces.filter (· ≠ "")
    asFolder := pieces.getLast? = some "" && pieces.any (· ≠ "") }

/-- The parts to walk; a slash at the end asks for one more step in place. -/
def steps (p : Path) : List String := if p.asFolder then p.parts ++ ["."] else p.parts

def isEmpty (p : Path) : Bool := !p.absolute && p.parts.isEmpty

/-- The number of octets from which on the machine takes no path. -/
def lengthLimit : Nat := 4096

def isTooLong (text : String) : Bool := lengthLimit ≤ text.utf8ByteSize

/-- One part of a path taken from a location; above the root is the root. -/
def follow (here : Location) (part : String) : Location :=
  if part = "." then here else if part = ".." then here.dropLast else here ++ [part]

/-- The text of a location. -/
def locationText (location : Location) : String := "/" ++ Text.join "/" location

/-- The absolute path of a text, seen from a folder, without `.` and `..`. A slash ends it if the
text ends in a slash, in `.` or in `..`. -/
def normalText (directory : Location) (text : String) : String :=
  let path := ofText text
  let location := path.parts.foldl follow (if path.absolute then [] else directory)
  let asFolder := path.asFolder || path.parts.getLast? = some "." || path.parts.getLast? = some ".."
  if asFolder && !location.isEmpty then locationText location ++ "/" else locationText location

/-- The path of a name in a folder. -/
def joinText (folder name : String) : String :=
  if folder.isEmpty || folder.toList.getLast? = some '/' then folder ++ name
  else folder ++ "/" ++ name

/-- The part of a path after its last slash. -/
def fileName (text : String) : List Char := (Text.splitOn '/' text.toList).getLastD []

/-- The last dot of the file name and what follows it. A dot that begins the name does not count,
and `.` and `..` have no extension. -/
def extension (text : String) : String :=
  match fileName text with
  | [] => ""
  | ['.', '.'] => ""
  | _ :: rest =>
    if '.' ∈ rest then String.ofList ('.' :: (Text.splitOn '.' rest).getLastD []) else ""

end Path

end Montage

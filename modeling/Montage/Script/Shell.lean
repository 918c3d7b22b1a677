import Montage.Executor.Program
import Montage.Script.OpenFile
import Montage.Script.Signal

/-!
# The state of a running script

* `Shell`: a process that runs a script, and what it shares with all others.
* `Running`: a step of a script; it may leave the command that it is in.
* `Shell.value?`, `Running.assign`: variables.
* `Running.write`, `Running.complain`: output and messages.
-/

namespace Montage

/-- A variable; it may be marked before it has a value. -/
structure Variable where
  value : Option String := none
  exported : Bool := false
  readOnly : Bool := false
  deriving DecidableEq

/-- A process that runs a script. -/
structure Shell where
  /-- The machine. Its tree is shared by all processes, its working directory is not. -/
  host : Host
  /-- All open files, shared by all processes. -/
  files : OpenFiles := {}
  /-- The number of the next process, shared by all. -/
  nextProcess : Nat
  /-- Signals that were sent to processes and not yet received, shared by all. -/
  sent : List (Nat × Nat) := []
  /-- The path under which the script runs. -/
  name : String
  arguments : List String := []
  values : List (String × Variable) := []
  functions : List (String × Script) := []
  aliases : List (String × String) := []
  /-- The programs that were found in the search path, the last one first. -/
  tracked : List String := []
  /-- The open file behind each descriptor. -/
  descriptors : List (Nat × Nat) := []
  /-- The letters of the options that are on. -/
  switches : List Char := []
  /-- What is done about signals; an empty text passes a signal over. -/
  traps : List (Nat × String) := []
  /-- Signals received whose action has not yet run. -/
  pending : List Nat := []
  status : Nat := 0
  /-- The status of the last expansion that ran a script, if the command at hand had one. -/
  substituted : Option Nat := none
  /-- The status with which an end without a status of its own ends, while an action runs. -/
  heldStatus : Option Nat := none
  line : Nat := 0
  /-- The line up to which the text at hand was read. -/
  reached : Nat := 0
  /-- The built-in command at hand. -/
  builtin : Option String := none
  /-- How many loops are running in the function at hand. -/
  loops : Nat := 0
  /-- What the functions at hand have to restore, the innermost first. -/
  scopes : List (List (String × Option Variable)) := []
  /-- The number of the process that the script was started as. -/
  process : Nat
  /-- The number of this process. -/
  own : Nat
  /-- The processes that wait for this one. -/
  waiting : List Nat := []
  /-- The background processes that have not been waited for. -/
  jobs : List (Nat × Ending) := []
  lastJob : Option Nat := none
  /-- How many functions are running. -/
  calls : Nat := 0
  /-- The number of the argument at which the reading of options goes on. -/
  optionNumber : Nat := 1
  /-- Where the next option letter stands within an argument. -/
  optionPlace : Nat := 0
  /-- The permissions that new files do not get. -/
  mask : Nat := 18

/-- Why a script leaves the command that it is in. -/
inductive Departure where
  /-- Leaves loops. -/
  | leaving (loops : Nat)
  /-- Goes on with the next round of a loop. -/
  | continuing (loops : Nat)
  /-- Leaves a function or a script read by another. -/
  | returning
  /-- Ends the process. -/
  | ending
  /-- An error that ends the process unless a built-in command has it. -/
  | failing
  | killed (signal : Nat)
  deriving DecidableEq

abbrev Running := ExceptT Departure (StateM Shell)

namespace Shell

def isOn (s : Shell) (switch : Char) : Bool := s.switches.contains switch

def value? (s : Shell) (name : String) : Option String :=
  (s.values.lookup name).bind Variable.value

/-- The value of a variable, empty if it has none. -/
def valueOr (s : Shell) (name : String) : String := (s.value? name).getD ""

def setVariable (s : Shell) (name : String) (v : Variable) : Shell :=
  { s with values := (name, v) :: s.values.filter (·.1 ≠ name) }

def eraseVariable (s : Shell) (name : String) : Shell :=
  { s with values := s.values.filter (·.1 ≠ name) }

/-- The characters at which values are split. -/
def separators (s : Shell) : List Char :=
  match s.value? "IFS" with
  | some text => text.toList
  | none => [' ', '\t', '\n']

/-- The variables that the programs started here have. -/
def exported (s : Shell) : List (String × String) :=
  s.values.filterMap fun (name, v) =>
    if v.exported then v.value.map fun value => (name, value) else none

/-- The folders in which programs are searched. -/
def searchPath (s : Shell) : String := s.valueOr "PATH"

/-- The action for a signal; none if the signal has its usual effect. -/
def trap? (s : Shell) (signal : Nat) : Option String := s.traps.lookup signal

def sortByName {α : Type} (xs : List (String × α)) : List (String × α) :=
  xs.mergeSort fun x y => !decide (y.1 < x.1)

end Shell

namespace Running

variable {α : Type}

def ofStep (step : Shell → Except Departure α × Shell) : Running α := step

/-- What a step gives, and the state after it. -/
def perform (r : Running α) (s : Shell) : Except Departure α × Shell := r.run s

def depart (why : Departure) : Running α := throw why

def setStatus (status : Nat) : Running Unit := modify fun s => { s with status }

/-! ## Output -/

/-- Writes to an open file. -/
def writeTo (file : Nat) (text : String) : Running Unit :=
  modify fun s =>
    -- the state gives up the files while they are written, so that they are changed in place
    let files := s.files
    let s := { s with files := {} }
    let (files, tree) := files.write s.host.tree file text
    { s with files, host := { s.host with tree } }

/-- Writes to a descriptor; false if it is closed. -/
def write (descriptor : Nat) (text : String) : Running Bool := do
  match (← get).descriptors.lookup descriptor with
  | none => return false
  | some file =>
    writeTo file text
    return true

/-- All that can be read from the standard input. -/
def readAll : Running String :=
  modifyGet fun s =>
    match s.descriptors.lookup 0 with
    | none => ("", s)
    | some file =>
      match s.files.get? file with
      | some (.buffer unread written) =>
        (String.ofList unread ++ written, { s with files := s.files.set file (.buffer [] "") })
      | some (.file location place _) =>
        (String.ofList ((OpenFiles.contentAt s.host.tree location).drop place), s)
      | _ => ("", s)

/-- The prefix of a message: the script, the line and the built-in command at hand. -/
def messageStart (s : Shell) : String :=
  let line := Decimal.ofInt s.line
  match s.builtin with
  | some builtin => s.name ++ ": " ++ line ++ ": " ++ builtin ++ ": "
  | none => s.name ++ ": " ++ line ++ ": "

/-- Writes a message to the error output. -/
def complain (message : String) : Running Unit := do
  let start := messageStart (← get)
  discard (write 2 (start ++ message ++ "\n"))

/-- Ends in an error with a message. -/
def fail (message : String) : Running α := do
  complain message
  setStatus 2
  depart .failing

/-- The result of a step; none, behind its message, if it ends in an error. -/
def attempt (r : Running α) : Running (Option α) :=
  ofStep fun s =>
    match r.perform s with
    | (.ok a, s') => (.ok (some a), s')
    | (.error .failing, s') => (.ok none, s')
    | (.error why, s') => (.error why, s')

/-! ## Variables -/

/-- Forgets where programs were found if the search path changes. -/
def forgetPrograms (name : String) : Running Unit :=
  if name = "PATH" then modify fun s => { s with tracked := [] } else pure ()

/-- Gives a variable a value. -/
def put (name value : String) : Running Unit := do
  let v := ((← get).values.lookup name).getD {}
  if v.readOnly then fail s!"{name}: is read only"
  forgetPrograms name
  modify fun s => s.setVariable name { v with value := some value, exported := v.exported || s.isOn 'a' }

/-- Assigns to a variable. The reading of options goes on where `OPTIND` says. -/
def assign (name value : String) : Running Unit := do
  if name = "OPTIND" then
    match (Arithmetic.number? true value).filter fun n => 0 ≤ n && n ≤ 2147483647 with
    | some n => modify fun s => { s with optionNumber := max 1 n.toNat, optionPlace := 0 }
    | none => fail s!"Illegal number: {value}"
  put name value

def unset (name : String) : Running Unit := do
  if ((← get).values.lookup name).any Variable.readOnly then fail s!"{name}: is read only"
  forgetPrograms name
  modify fun s => s.eraseVariable name

/-- Keeps the value that a variable has in the function at hand, to restore it behind it. -/
def keepValue (name : String) : Running Unit :=
  modify fun s =>
    match s.scopes with
    | scope :: rest =>
      if scope.any (·.1 = name) then s
      else { s with scopes := ((name, s.values.lookup name) :: scope) :: rest }
    | [] => s

/-- Restores the values that were kept. -/
def restore (scope : List (String × Option Variable)) (s : Shell) : Shell :=
  scope.foldl
    (fun s (name, v) =>
      match v with
      | some v => s.setVariable name v
      | none => s.eraseVariable name)
    s

/-- Runs a step whose variables may be kept, and restores them behind it, however it ends. -/
def withScope (r : Running α) : Running α :=
  ofStep fun s =>
    let (outcome, s') := r.perform { s with scopes := [] :: s.scopes }
    match s'.scopes with
    | scope :: scopes => (outcome, restore scope { s' with scopes })
    | [] => (outcome, s')

end Running

end Montage

import Montage.Script.Builtin
import Montage.Script.Redirecting

/-!
# Simple commands

The words of a simple command are expanded first. Then its redirections are carried out, then its
assignments, which last only as long as the command unless it has no words or is a special built-in
command. The first word names a built-in command, a function of the script or a program.

* `Invocation.run`: runs a simple command.
* `Invocation.eval`, `Invocation.readScript`: the built-in commands that run other commands.
-/

namespace Montage.Invocation

open Running (setStatus fail)

section

variable (again : Bool → Script → Running Unit)

/-! ## Words -/

/-- Whether words that look like assignments are expanded like assignments, behind these words. -/
def isAssigning (words : List String) : Bool :=
  let isOption (word : String) : Bool := word.toList.head? = some '-'
  let words := match words with
    | "command" :: rest => rest.dropWhile fun word => word = "command" || isOption word
    | words => words
  words.head?.any ["export", "local", "readonly"].contains

/-- Expands words behind those that are expanded already. -/
def expandWords (done : List String) : List Word → Running (List String)
  | [] => pure done
  | word :: rest => do
    match Script.assignment? word, isAssigning done with
    | some (name, value), true =>
      let text ← Expansion.assignedText (Process.capture again) value
      expandWords (done ++ [name ++ "=" ++ text]) rest
    | _, _ =>
      let fields ← Expansion.wordFields (Process.capture again) word
      expandWords (done ++ fields) rest

/-- The words that `command` runs, given those behind it; none if it runs nothing. -/
def behindCommand : List String → Option (List String)
  | [] => none
  | word :: rest =>
    match word.toList with
    | ['-', '-'] => if rest.isEmpty then none else some rest
    | '-' :: c :: letters => if (c :: letters).all (· = 'p') then behindCommand rest else none
    | _ => some (word :: rest)

/-- The words without `command` in front of them, and whether it was there. -/
def withoutCommand : Nat → Bool → List String → Bool × List String
  | fuel + 1, found, "command" :: rest =>
    match behindCommand rest with
    | some words => withoutCommand fuel true words
    | none => (found, "command" :: rest)
  | _, found, words => (found, words)

/-! ## Assignments -/

def markExported (name : String) : Running Unit :=
  modify fun s => s.setVariable name { (s.values.lookup name).getD {} with exported := true }

/-- Carries out assignments: their texts. With `kept` the values from before are kept, to be
restored behind the command, and the new ones are exported to it. -/
def assignAll (kept : Bool) : List (String × Word) → Running (List String)
  | [] => pure []
  | (name, word) :: rest => do
    let value ← Expansion.assignedText (Process.capture again) word
    if kept then Running.keepValue name
    Running.assign name value
    if kept then markExported name
    let texts ← assignAll kept rest
    return (name ++ "=" ++ value) :: texts

/-- Shows a command before it is run, behind the text of `PS4`, if the option `x` is on. -/
def trace (file : Option Nat) (texts : List String) : Running Unit := do
  let s ← get
  if s.isOn 'x' then
    let start ← match Script.quotedText (s.valueOr "PS4") with
      | .ok word => do
        modify fun s => { s with switches := s.switches.filter (· ≠ 'x') }
        let start ← Expansion.text (Process.capture again) word
        modify fun s' => { s' with switches := s.switches }
        pure start
      | .error _ => pure ""
    if let some file := file then Running.writeTo file (start ++ Text.join " " texts ++ "\n")

/-! ## Commands that run others -/

/-- Runs a built-in command, whose name then stands in messages. -/
def named (name : String) (step : Running Unit) : Running Unit :=
  Running.ofStep fun s =>
    let (outcome, s') := step.perform { s with builtin := some name }
    (outcome, { s' with builtin := s.builtin })

/-- A step behind which the script goes on in any case. -/
def passing (departure : Departure) (step : Running Unit) : Running Unit :=
  Running.ofStep fun s =>
    match step.perform s with
    | (.error why, s') => (if why = departure then .ok () else .error why, s')
    | done => done

/-- Runs the command that the arguments make up. -/
def eval (tested : Bool) (arguments : List String) : Running Unit :=
  Process.runText again false tested (Text.join " " arguments)

/-- The path of a script that is named without a slash. -/
def scriptPath? (s : Shell) (name : String) : Option String :=
  if name.toList.contains '/' then some name
  else (Process.programPaths s name).find? fun path => (Process.mayRun? s path).isSome
    && !s.host.isFolder (Octet.toText path)

/-- Runs the commands of a file in the script itself. -/
def readScript (arguments : List String) : Running Unit := do
  match (← Builtin.options "" arguments).2 with
  | [] => setStatus 0
  | name :: _ =>
    match scriptPath? (← get) name with
    | none => fail s!"{name}: not found"
    | some path =>
      match (← get).host.content? (Octet.toText path) with
      | none => fail s!"cannot open {path}: No such file"
      | some content =>
        named path (passing .returning (Process.runText again true false (Octet.ofText content)))

/-- Tells what a command means, as `command` is asked to. -/
def describe (arguments : List String) : Running Unit := do
  let (given, names) ← Builtin.options "pvV" arguments
  match (given.filter (· ≠ 'p')).getLast?, names with
  | some 'V', name :: _ => Builtin.tellMeanings [name]
  | some _, name :: _ => Builtin.showMeaning name
  | _, _ => setStatus 0

/-- The built-in command of a name. -/
def builtin? (tested : Bool) (name : String) : Option (List String → Running Unit) :=
  match name with
  | "eval" => some (eval again tested)
  | "." => some (readScript again)
  | "command" => some describe
  | "exec" => some fun
    | [] => setStatus 0
    | name :: arguments => Process.becomeProgram again name arguments
  | name => Builtin.run? name

/-- How many functions may run within each other. -/
def callLimit : Nat := 1000

/-- Runs the body of a function with its arguments. -/
def callFunction (tested : Bool) (body : Script) (arguments : List String) : Running Unit := do
  let s ← get
  if s.calls = callLimit then
    let limit := Decimal.ofInt callLimit
    fail s!"Maximum function recursion depth ({limit}) reached"
  Running.ofStep fun s =>
    let inner :=
      { s with arguments, optionNumber := 1, optionPlace := 0, loops := 0, calls := s.calls + 1 }
    let (outcome, s') := (passing .returning (again tested body)).perform inner
    (outcome, { s' with
      arguments := s.arguments
      optionNumber := s.optionNumber
      optionPlace := s.optionPlace
      loops := s.loops
      calls := s.calls })

/-! ## Running -/

/-- Runs the command that a name stands for. Behind the word `command` no function is run, and no
built-in command is special. -/
def runNamed (tested indirect : Bool) (name : String) (arguments : List String) : Running Unit := do
  let functions := (← get).functions
  let function? := if indirect then none else functions.lookup name
  match function?, builtin? again tested name with
  | some body, _ => callFunction again tested body arguments
  | none, some command =>
    let step := named name (command arguments)
    if !indirect && Script.specialBuiltins.contains name then step else passing .failing step
  | none, none => Process.runProgram again name arguments

/-- Runs a simple command. -/
def run (tested : Bool) (line : Nat) (assignments : List (String × Word)) (words : List Word)
    (redirections : List Redirection) : Running Unit := do
  modify fun s => { s with line, substituted := none }
  let shown ← expandWords again [] words
  let s ← get
  let (indirect, words) :=
    if s.functions.any (·.1 = "command") then (false, shown)
    else withoutCommand shown.length false shown
  let resolved ← redirections.mapM (Redirecting.resolve (Process.capture again))
  let stays := words = ["exec"]
  let assign (kept : Bool) : Running Unit := do
    let texts ← assignAll again kept assignments
    trace again (s.descriptors.lookup 2) (texts ++ shown)
  match words with
  | [] =>
    Redirecting.withRedirections (Process.capture again) false resolved
      (do
        assign false
        modify fun s => { s with status := s.substituted.getD 0 })
      (setStatus 2)
  | name :: arguments =>
    let step := runNamed again tested indirect name arguments
    if !indirect && Script.specialBuiltins.contains name then
      Redirecting.withRedirections (Process.capture again) stays resolved
        (do
          assign false
          if name = "exec" then assignments.forM fun (name, _) => markExported name
          step)
        (do
          setStatus 2
          Running.depart .failing)
    else
      Running.withScope
        (Redirecting.withRedirections (Process.capture again) stays resolved
          (do
            assign true
            step)
          (setStatus 2))

end

end Montage.Invocation

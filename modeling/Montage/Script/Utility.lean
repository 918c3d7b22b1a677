import Montage.Script.Call
import Montage.Script.Format
import Montage.Script.Shell

/-!
# Utilities

The basic programs of a host other than the shell. Each runs in a process of its own, whose name
stands in its messages, and leaves its status in the state.

* `Utility.run`: runs one of them.
* `Utility.env`: the variables and the program that the arguments of `env` name.
-/

namespace Montage.Utility

open Running (setStatus)

def print (text : String) : Running Unit := discard (Running.write 1 text)

/-- Writes a message to the error output. -/
def complain (message : String) : Running Unit := do
  let name := (← get).name
  discard (Running.write 2 (name ++ ": " ++ message ++ "\n"))

/-- Refuses the arguments. -/
def refuse (status : Nat) (message : String) : Running Unit := do
  complain message
  let name := (← get).name
  discard (Running.write 2 (s!"Try '{name} --help' for more information.\n"))
  setStatus status

/-- What to say of an option that is not known. -/
def unknownOption (option : List Char) : String :=
  match option with
  | '-' :: '-' :: _ =>
    let shown := String.ofList (option.takeWhile (· ≠ '='))
    s!"unrecognized option '{shown}'"
  | _ =>
    let shown := String.ofList ((option.drop 1).take 1)
    s!"invalid option -- '{shown}'"

/-! ## Texts -/

/-- Shows its arguments. Backslashes are special only with the option `e`. -/
def echo (arguments : List String) : Running Unit := do
  let isOption (argument : String) : Bool :=
    match argument.toList with
    | '-' :: c :: letters => (c :: letters).all "neE".toList.contains
    | _ => false
  let letters := (arguments.takeWhile isOption).flatMap String.toList
  let text := Text.join " " (arguments.dropWhile isOption)
  let isEscaped := (letters.filter fun c => c = 'e' || c = 'E').getLast? = some 'e'
  let (text, stopped) := if isEscaped then Format.unescaped text else (text, false)
  print (if stopped || letters.contains 'n' then text else text ++ "\n")
  setStatus 0

/-- Shows a file; a hyphen stands for the standard input. -/
def showFile (path : String) : Running Unit := do
  if path = "-" then print (← Running.readAll)
  else
    match (← get).host.find (Octet.toText path) with
    | .ok (_, .file content _) => print (Octet.ofText content)
    | .ok (_, .folder _) =>
      complain s!"{path}: Is a directory"
      setStatus 1
    | .error fault =>
      let reason := fault.message
      complain s!"{path}: {reason}"
      setStatus 1

def isOption (argument : String) : Bool :=
  argument.toList.head? = some '-' && argument ≠ "-"

/-- Shows files. -/
def cat (arguments : List String) : Running Unit := do
  let before := arguments.takeWhile (· ≠ "--")
  match before.find? fun argument => isOption argument && argument ≠ "-u" with
  | some option => refuse 1 (unknownOption option.toList)
  | none =>
    let paths := before.filter (fun argument => !isOption argument)
      ++ (arguments.drop before.length).drop 1
    setStatus 0
    (if paths.isEmpty then ["-"] else paths).forM showFile

/-! ## Variables -/

/-- Gives a variable a value that programs see. -/
def exportAs (name value : String) : Running Unit :=
  modify fun s => s.setVariable name { value := some value, exported := true }

/-- Takes assignments, up to the name of a program. Without one the variables are shown. -/
def envWords : List String → Running (List String)
  | [] => do
    print (String.join ((← get).exported.map fun (name, value) => name ++ "=" ++ value ++ "\n"))
    setStatus 0
    return []
  | word :: rest => do
    match word.toList.dropWhile (· ≠ '=') with
    | [] => return word :: rest
    | _ :: value =>
      exportAs (String.ofList (word.toList.takeWhile (· ≠ '='))) (String.ofList value)
      envWords rest

/-- Takes options and assignments, up to the name of a program. `fuel` bounds their number. -/
def envOptions : Nat → List String → Running (List String)
  | 0, _ => pure []
  | fuel + 1, arguments => do
    let refuse (message : String) : Running (List String) := do
      refuse 125 message
      return []
    let split (text : List Char) (rest : List String) : Running (List String) :=
      envOptions fuel (((Text.splitOn ' ' text).filter (!·.isEmpty)).map String.ofList ++ rest)
    let erase (name : String) (rest : List String) : Running (List String) := do
      modify fun s => s.eraseVariable name
      envOptions fuel rest
    match arguments.map String.toList, arguments with
    | ['-', '-'] :: _, _ :: rest => envWords rest
    | ['-'] :: _, _ :: rest | ['-', 'i'] :: _, _ :: rest => do
      modify fun s => { s with values := s.values.filter fun e => !e.2.exported }
      envOptions fuel rest
    | [['-', 'S']], _ => refuse "option requires an argument -- 'S'"
    | [['-', 'u']], _ => refuse "option requires an argument -- 'u'"
    | ['-', 'S'] :: text :: _, _ :: _ :: rest | ('-' :: 'S' :: text) :: _, _ :: rest =>
      split text rest
    | ['-', 'u'] :: _, _ :: name :: rest => erase name rest
    | ('-' :: 'u' :: name) :: _, _ :: rest => erase (String.ofList name) rest
    | ('-' :: option) :: _, _ => refuse (unknownOption ('-' :: option))
    | _, _ => envWords arguments

/-- The program and its arguments that the arguments of `env` name, whose variables are set. With
none the status is that of `env` itself. -/
def env (arguments : List String) : Running (List String) :=
  envOptions (1 + (arguments.map String.length).foldl (· + ·) 0) arguments

/-! ## Programs -/

/-- Runs a basic program other than the shell and `env`. -/
def run (program : Host.BasicProgram) (arguments : List String) : Running Unit :=
  match program with
  | .echo => echo arguments
  | .cat => cat arguments
  | .failure => setStatus 1
  | _ => setStatus 0

end Montage.Utility

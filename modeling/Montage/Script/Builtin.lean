import Montage.Script.Condition
import Montage.Script.Format
import Montage.Script.Process

/-!
# Built-in commands

The built-in commands that run no other command. Each gets its arguments, and leaves its status in
the state. An error of one of `Script.specialBuiltins` ends the script.

* `Builtin.run?`: the built-in command of a name.
-/

namespace Montage.Builtin

open Running (setStatus fail)

/-! ## Output -/

/-- Writes the output of a built-in command. -/
def print (text : String) : Running Unit := do
  setStatus 0
  unless text.isEmpty do
    unless ← Running.write 1 text do
      let name := (← get).builtin.getD ""
      Running.complain s!"{name}: I/O error"
      setStatus 1

/-- A text in quotes, as the shell reads it back. -/
def quoted (text : String) : String :=
  String.ofList (text.toList.flatMap fun c => if c = '\'' then "'\"'\"'".toList else [c])

def quote (text : String) : String := "'" ++ quoted text ++ "'"

/-! ## Arguments -/

/-- The greatest number that an argument can be. -/
def greatestNumber : Int := 2147483647

/-- A natural number. -/
def natural (argument : String) : Running Nat := do
  match Arithmetic.number? true argument with
  | some n =>
    if 0 ≤ n && n ≤ greatestNumber then return n.toNat else fail s!"Illegal number: {argument}"
  | none => fail s!"Illegal number: {argument}"

/-- Reads options: those given, each with its argument if it takes one, and what is left. -/
def readOptions (plain valued : List Char) :
    Nat → List String → Running (List (Char × String) × List String)
  | 0, arguments => pure ([], arguments)
  | fuel + 1, arguments => do
    match arguments.map String.toList, arguments with
    | ['-', '-'] :: _, _ :: rest => return ([], rest)
    | ('-' :: letter :: letters) :: _, _ :: rest =>
      let more (options : List (Char × String)) (rest : List String) :
          Running (List (Char × String) × List String) := do
        let (others, rest) ← readOptions plain valued fuel rest
        return (options ++ others, rest)
      let shown := String.ofList [letter]
      if plain.contains letter then
        let next := String.ofList ('-' :: letters)
        if letters.isEmpty then more [(letter, "")] rest
        else more [(letter, "")] (next :: rest)
      else if valued.contains letter then
        match letters, rest with
        | [], value :: rest => more [(letter, value)] rest
        | [], [] => fail s!"No arg for -{shown} option"
        | _, _ => more [(letter, String.ofList letters)] rest
      else fail s!"Illegal option -{shown}"
    | _, _ => return ([], arguments)

/-- Reads options that take no arguments. -/
def options (letters : String) (arguments : List String) : Running (List Char × List String) := do
  let fuel := 1 + (arguments.map String.length).foldl (· + ·) 0
  let (given, rest) ← readOptions letters.toList [] fuel arguments
  return (given.map Prod.fst, rest)

/-! ## Texts -/

def echo (arguments : List String) : Running Unit := print (Format.echoText arguments)

def printf (arguments : List String) : Running Unit := do
  match (← options "" arguments).2 with
  | [] => fail "usage: printf format [arg ...]"
  | format :: rest =>
    let printed := Format.printf format rest
    printed.complaints.forM Running.complain
    if let some message := printed.error then Running.complain message
    print printed.text
    if printed.error.isSome then setStatus 2
    else unless printed.complaints.isEmpty do setStatus 1

def test (arguments : List String) : Running Unit := do
  match Condition.evaluate (← get).host false arguments with
  | .ok holds => setStatus (if holds then 0 else 1)
  | .error message => fail message

def testInBrackets (arguments : List String) : Running Unit := do
  if arguments.getLast? = some "]" then test arguments.dropLast else fail "missing ]"

/-! ## Folders -/

/-- Where a path leads, found on its text alone. -/
def locationOf (h : Host) (text : String) : Location :=
  let path := Path.ofText text
  path.parts.foldl Path.follow (h.start path)

/-- The paths of a folder that is named, those in the folders of `CDPATH` first, and whether the
folder is shown when it is found there. -/
def folderPaths (s : Shell) (folder : String) : List (Bool × String) :=
  let first := (Path.ofText folder).parts.head?
  if folder.toList.head? = some '/' || first = some "." || first = some ".." then [(false, folder)]
  else
    let folder := if folder.isEmpty then "." else folder
    let searched := ((s.value? "CDPATH").map fun text => Text.splitOn ':' text.toList).getD []
    let found := searched.filterMap fun above =>
      let path := if above.isEmpty then folder else String.ofList above ++ "/" ++ folder
      if s.host.isFolder (Octet.toText path) then some (!above.isEmpty, path) else none
    found ++ [(false, folder)]

/-- Goes to another folder. Unless the option `P` is given, `..` takes back what stands before it,
whether that exists or not. -/
def changeFolder (arguments : List String) : Running Unit := do
  let (given, rest) ← options "LP" arguments
  let s ← get
  let folder :=
    match rest with
    | [] => s.valueOr "HOME"
    | "-" :: _ => s.valueOr "OLDPWD"
    | folder :: _ => folder
  let (shown, path) := (folderPaths s folder).headD (false, folder)
  let path := Octet.toText path
  let location? :=
    if given.getLast? = some 'P' then
      match s.host.find path with
      | .ok (location, .folder _) => some location
      | _ => none
    else
      let location := locationOf s.host path
      match s.host.tree.find? location with
      | some (.folder _) => some location
      | _ => none
  match location? with
  | none => fail s!"can't cd to {folder}"
  | some location =>
    let old := Octet.ofText s.host.directoryText
    modify fun s => { s with host := { s.host with directory := location } }
    let new := Octet.ofText (← get).host.directoryText
    let keep (name value : String) : Running Unit := modify fun s =>
      s.setVariable name { (s.values.lookup name).getD {} with value := some value, exported := true }
    keep "OLDPWD" old
    keep "PWD" new
    print (if shown || rest.head? = some "-" then new ++ "\n" else "")

def printFolder (arguments : List String) : Running Unit := do
  discard (options "LP" arguments)
  let folder := (← get).host.directoryText
  print (Octet.ofText folder ++ "\n")

/-- The octal digits of the permissions that new files do not get. -/
def maskText (mask : Nat) : String := String.ofList (Text.padLeft '0' 4 (Nat.toDigits 8 mask))

/-- The permissions that new files get, in letters. -/
def allowedText (mask : Nat) : String :=
  let letters (bits : Nat) : String :=
    (if bits / 4 % 2 = 0 then "r" else "") ++ (if bits / 2 % 2 = 0 then "w" else "")
      ++ if bits % 2 = 0 then "x" else ""
  "u=" ++ letters (mask / 64) ++ ",g=" ++ letters (mask / 8) ++ ",o=" ++ letters mask

def umask (arguments : List String) : Running Unit := do
  let (given, rest) ← options "S" arguments
  let mask := (← get).mask
  match rest with
  | [] => print ((if given.contains 'S' then allowedText mask else maskText mask) ++ "\n")
  | text :: _ =>
    if text.toList.all (Arithmetic.isDigit 8) then
      modify fun s => { s with mask := Arithmetic.ofDigits 8 text.toList % 512 }
    else if text.toList.head?.any Char.isDigit then fail s!"Illegal number: {text}"
    setStatus 0

/-! ## Reading lines -/

/-- Reads a line: its characters, of which those behind a backslash are quoted, and whether it was
ended. A backslash at its end joins the next line unless `raw`. -/
def readLine (raw : Bool) (file : Nat) : Nat → Running (List Glyph × Bool)
  | 0 => pure ([], false)
  | fuel + 1 => do
    let line ← modifyGet fun s =>
      let (line, files) := s.files.readLine s.host.tree file
      (line, { s with files })
    let ended := line.getLast? = some '\n'
    let line := (if ended then line.dropLast else line).filter (· ≠ '\x00')
    if raw then return (line.map fun c => ⟨c, false⟩, ended)
    else
      let (glyphs, joins) := unescape line
      if joins && ended then
        let (more, ended) ← readLine raw file fuel
        return (glyphs ++ more, ended)
      else return (glyphs, ended)
where
  /-- Takes the backslashes off a line; true if the last one hides the end of the line. -/
  unescape : List Char → List Glyph × Bool
    | [] => ([], false)
    | ['\\'] => ([], true)
    | '\\' :: c :: rest => (⟨c, true⟩ :: (unescape rest).1, (unescape rest).2)
    | c :: rest => (⟨c, false⟩ :: (unescape rest).1, (unescape rest).2)

def separates (separators : List Char) (g : Glyph) : Bool := !g.quoted && separators.contains g.char

def isBlankSeparator (separators : List Char) (g : Glyph) : Bool :=
  separates separators g && Fields.isBlank g.char

/-- What remains of the last field, read from its first separator on: how many characters, if some
at the end do not count. A single separator at the end does not, nor do blanks, nor quoted
characters behind those. -/
def lastLength (separators : List Char) : Nat → Option Nat → Bool → Bool → List Glyph → Option Nat
  | _, cut, _, _, [] => cut
  | n, cut, seen, blank, g :: rest =>
    let isSeparator := separates separators g
    let isBlank := isBlankSeparator separators g
    if g.quoted then lastLength separators (n + 1) cut seen false rest
    else if !seen then
      if isSeparator then lastLength separators (n + 1) (some n) true isBlank rest
      else lastLength separators (n + 1) none false false rest
    else if isBlank then lastLength separators (n + 1) (cut.or (some n)) true blank rest
    else if isSeparator && blank then lastLength separators (n + 1) cut true false rest
    else lastLength separators (n + 1) none true false rest

/-- The fields of a line for a number of variables, of which the last one gets what is left. -/
def lineFields (separators : List Char) : Nat → List Glyph → List String
  | 0, _ => []
  | count + 1, line =>
    let line := line.dropWhile (isBlankSeparator separators)
    if count = 0 then
      match lastLength separators 0 none false false line with
      | some n => [Glyph.text (line.take n)]
      | none => [Glyph.text line]
    else
      let field := line.takeWhile fun g => !separates separators g
      let rest := line.drop field.length
      let afterBlanks := rest.dropWhile (isBlankSeparator separators)
      let rest := if afterBlanks.head?.any (separates separators) then afterBlanks.tail else afterBlanks
      Glyph.text field :: lineFields separators count rest

def read (arguments : List String) : Running Unit := do
  let fuel := 1 + (arguments.map String.length).foldl (· + ·) 0
  let (given, names) ← readOptions ['r'] ['p'] fuel arguments
  if names.isEmpty then fail "arg count"
  let raw := given.any (·.1 = 'r')
  let file? := (← get).descriptors.lookup 0
  let (line, ended) ← match file? with
    | some file => readLine raw file 1000000
    | none => pure ([], false)
  let fields := lineFields (← get).separators names.length line
  (names.zipIdx).forM fun (name, i) =>
    if Script.isName name then Running.assign name (fields.getD i "")
    else fail s!"{name}: bad variable name"
  setStatus (if ended then 0 else 1)

/-! ## Variables -/

/-- The variables that satisfy a test, as commands that set them. -/
def listVariables (command : String) (shown : Variable → Bool) : Running Unit := do
  let values := Shell.sortByName ((← get).values.filter fun e => shown e.2)
  print (String.join (values.map fun (name, v) =>
    command ++ name ++ (match v.value with
      | some value => "=" ++ quote value
      | none => "") ++ "\n"))

/-- The name and the value that an argument assigns. -/
def splitAssignment (argument : String) : String × Option String :=
  let cs := argument.toList
  match cs.dropWhile (· ≠ '=') with
  | _ :: value => (String.ofList (cs.takeWhile (· ≠ '=')), some (String.ofList value))
  | [] => (argument, none)

def requireName (name : String) : Running Unit := do
  unless Script.isName name do fail s!"{name}: bad variable name"

/-- Marks variables, after assigning to those that are given a value. -/
def markVariables (command : String) (shown : Variable → Bool) (mark : Variable → Variable)
    (arguments : List String) : Running Unit := do
  let (given, rest) ← options "p" arguments
  if given.isEmpty && !rest.isEmpty then
    rest.forM fun argument => do
      let (name, value) := splitAssignment argument
      requireName name
      if let some value := value then Running.assign name value
      modify fun s => s.setVariable name (mark ((s.values.lookup name).getD {}))
    setStatus 0
  else listVariables (command ++ " ") shown

def exportVariables : List String → Running Unit :=
  markVariables "export" Variable.exported fun v => { v with exported := true }

def protectVariables : List String → Running Unit :=
  markVariables "readonly" Variable.readOnly fun v => { v with readOnly := true }

/-- Makes variables local to the function at hand. -/
def localVariables (arguments : List String) : Running Unit := do
  if (← get).scopes.isEmpty then fail "not in a function"
  arguments.forM fun argument => do
    let (name, value) := splitAssignment argument
    unless name = "-" do
      requireName name
      Running.keepValue name
      if let some value := value then Running.assign name value
  setStatus 0

def unset (arguments : List String) : Running Unit := do
  let (given, names) ← options "fv" arguments
  names.forM fun name => do
    if given.getLast? = some 'f' then
      modify fun s => { s with functions := s.functions.filter (·.1 ≠ name) }
    else
      requireName name
      Running.unset name
  setStatus 0

/-! ## Options and arguments -/

/-- The options and whether they are on, as a table or as commands that set them. -/
def listOptions (asCommands : Bool) : Running Unit := do
  let s ← get
  let isOn (letter : Option Char) : Bool := letter.any s.isOn
  let line (name : String) (letter : Option Char) : String :=
    if asCommands then "set " ++ (if isOn letter then "-o " else "+o ") ++ name ++ "\n"
    else
      let name := name.toList
      String.ofList (name ++ List.replicate (16 - name.length) ' ')
        ++ (if isOn letter then "on" else "off") ++ "\n"
  let lines := String.join (Process.optionNames.map fun (name, letter) => line name letter)
  print (if asCommands then lines else "Current option settings\n" ++ lines)

def setArguments (arguments : List String) : Running Unit :=
  modify fun s => { s with arguments, optionNumber := 1, optionPlace := 0 }

/-- Sets options, and the arguments if any are given behind them. -/
def setFrom : Nat → List String → Running Unit
  | 0, _ => pure ()
  | fuel + 1, arguments => do
    match arguments.map String.toList, arguments with
    | ['-', '-'] :: _, _ :: rest => setArguments rest
    | ['-'] :: _, _ :: rest =>
      modify fun s => { s with switches := s.switches.filter fun c => c ≠ 'x' && c ≠ 'v' }
      unless rest.isEmpty do setArguments rest
    | [['-', 'o']], _ => listOptions false
    | [['+', 'o']], _ => listOptions true
    | ('-' :: letters) :: _, _ :: rest =>
      if letters.contains 'c' then fail "Illegal option -c"
      let (_, rest) ← Process.switchAll true rest letters
      setFrom fuel rest
    | ('+' :: letters) :: _, _ :: rest =>
      let (_, rest) ← Process.switchAll false rest letters
      setFrom fuel rest
    | [], _ => pure ()
    | _, _ => setArguments arguments

def set (arguments : List String) : Running Unit := do
  if arguments.isEmpty then listVariables "" fun v => v.value.isSome
  else
    setStatus 0
    setFrom (arguments.length + 1) arguments

def shift (arguments : List String) : Running Unit := do
  let count ← match arguments with
    | [] => pure 1
    | text :: _ => natural text
  let given := (← get).arguments
  if given.length < count then fail "can't shift that many"
  setArguments (given.drop count)
  setStatus 0

/-- Whether an option is known, and whether it takes an argument. -/
def optionKind? (letter : Char) : List Char → Option Bool
  | [] => none
  | c :: rest =>
    if c = letter then some (rest.head? = some ':')
    else
      match rest with
      | ':' :: rest => optionKind? letter rest
      | rest => optionKind? letter rest

/-- The next options letter of arguments: the letters from it on, and the number of the argument
behind those; none if the options end, with the number of the next argument. -/
def nextLetters (arguments : List String) (number place : Nat) : Option (Char × List Char) × Nat :=
  let open? :=
    if number ≤ 1 || place = 0 then [] else ((arguments.getD (number - 2) "").toList.drop place)
  match open?, (arguments.getD (number - 1) "").toList with
  | letter :: rest, _ => (some (letter, rest), number)
  | [], ['-', '-'] => (none, number + 1)
  | [], '-' :: letter :: rest => (some (letter, rest), number + 1)
  | [], _ => (none, number)

/-- Ends a step of `getopts`. -/
def keepLetter (target letter : String) (number place : Nat) (found : Bool) : Running Unit := do
  Running.put "OPTIND" (Decimal.ofInt number)
  requireName target
  Running.assign target letter
  modify fun s => { s with optionNumber := number, optionPlace := place }
  setStatus (if found then 0 else 1)

def getopts (arguments : List String) : Running Unit := do
  let letters :: target :: given := arguments | fail "Usage: getopts optstring var [arg...]"
  let s ← get
  let given := if given.isEmpty then s.arguments else given
  let (number, place) :=
    if given.length + 1 < s.optionNumber then (1, 0) else (s.optionNumber, s.optionPlace)
  let isQuiet := letters.toList.head? = some ':'
  let refuse (message shown : String) (letter : Char) (number place : Nat) : Running Unit := do
    let text := String.ofList [letter]
    if isQuiet then Running.assign "OPTARG" text
    else
      discard (Running.write 2 (message ++ "\n"))
      Running.unset "OPTARG"
    keepLetter target (if isQuiet then shown else "?") number place true
  match nextLetters given number place with
  | (none, number) => keepLetter target "?" number 0 false
  | (some (letter, rest), number) =>
    let text := String.ofList [letter]
    let place := (given.getD (number - 2) "").length - rest.length
    match optionKind? letter letters.toList with
    | none => refuse s!"Illegal option -{text}" "?" letter number place
    | some false =>
      Running.assign "OPTARG" ""
      keepLetter target text number place true
    | some true =>
      match rest, given[number - 1]? with
      | [], none => refuse s!"No arg for -{text} option" ":" letter number 0
      | [], some value =>
        Running.assign "OPTARG" value
        keepLetter target text (number + 1) 0 true
      | value, _ =>
        Running.assign "OPTARG" (String.ofList value)
        keepLetter target text number 0 true

/-! ## Leaving -/

def exit (arguments : List String) : Running Unit := do
  match arguments with
  | [] => modify fun s => { s with status := s.heldStatus.getD s.status }
  | text :: _ => setStatus (← natural text)
  Running.depart .ending

def return? (arguments : List String) : Running Unit := do
  if let text :: _ := arguments then setStatus (← natural text)
  Running.depart .returning

/-- Leaves loops, or goes on with the next round of one. Outside of loops nothing is done. -/
def leaveLoops (departure : Nat → Departure) (arguments : List String) : Running Unit := do
  let count ← match arguments with
    | [] => pure 1
    | text :: _ =>
      let count ← natural text
      if count = 0 then fail s!"Illegal number: {text}"
      pure count
  setStatus 0
  let count := min count (← get).loops
  if 0 < count then Running.depart (departure count)

/-! ## Signals and jobs -/

def listTraps : Running Unit := do
  let traps := (← get).traps.mergeSort fun x y => x.1 ≤ y.1
  print (String.join (traps.map fun (signal, action) =>
    "trap -- " ++ quote action ++ " " ++ Signal.name signal ++ "\n"))

def isNumber (text : String) : Bool := !text.isEmpty && text.toList.all Char.isDigit

/-- Sets what is done about signals. -/
def setTraps (action : Option String) : List String → Running Unit
  | [] => setStatus 0
  | name :: rest => do
    match Signal.number? name with
    | none =>
      discard (Running.write 2 ("trap: " ++ name ++ ": bad trap\n"))
      setStatus 1
    | some signal =>
      modify fun s =>
        let others := s.traps.filter (·.1 ≠ signal)
        { s with traps := (action.map fun action => (signal, action)).toList ++ others }
      setTraps action rest

def trap (arguments : List String) : Running Unit := do
  match (← options "" arguments).2 with
  | [] => listTraps
  | [name] => setTraps none [name]
  | first :: rest =>
    if isNumber first && (Signal.number? first).isSome then setTraps none (first :: rest)
    else setTraps (if first = "-" then none else some first) rest

def killUsage : String :=
  "Usage: kill [-s sigspec | -signum | -sigspec] [pid | job]... or\nkill -l [exitstatus]"

/-- The signal that an argument of `kill` names. -/
def killSignal? (text : String) : Option Nat :=
  (Signal.number? text).filter fun signal => signal ≠ Signal.atExit || isNumber text

/-- Sends a signal to a process; false if there is none. -/
def send (signal process : Nat) : Running Bool := do
  let s ← get
  if process = s.own || s.waiting.contains process then
    if signal ≠ 0 then modify fun s => { s with sent := s.sent ++ [(process, signal)] }
    Process.receive
    return true
  else return s.jobs.any (·.1 = process)

/-- Sends a signal to processes. -/
def sendAll (signal : Nat) : Bool → List String → Running Bool
  | failed, [] => pure failed
  | failed, text :: rest => do
    if text.toList.head? = some '%' then fail s!"No such job: {text}"
    let process ← natural text
    let sent ← send signal process
    unless sent do Running.complain "No such process\n"
    sendAll signal (failed || !sent) rest

/-- Shows the name of a signal, given by its number or by the status of what it ended. -/
def showSignal (text : String) : Running Unit := do
  let n ← natural text
  let signal := if 128 < n then n - 128 else n
  if 0 < signal && signal ≤ Signal.last then print (Signal.name signal ++ "\n")
  else fail s!"invalid signal number or exit status: {text}"

def kill (arguments : List String) : Running Unit := do
  let named? :=
    match arguments with
    | first :: rest =>
      match first.toList with
      | '-' :: name => (killSignal? (String.ofList name)).map fun signal => (signal, rest)
      | _ => none
    | [] => none
  let (signal, lists, targets) ← match named? with
    | some (signal, rest) => pure (signal, false, rest)
    | none => do
      let fuel := 1 + (arguments.map String.length).foldl (· + ·) 0
      let (given, rest) ← readOptions ['l'] ['s'] fuel arguments
      match given.lookup 's' with
      | none => pure (Signal.termination, given.any (·.1 = 'l'), rest)
      | some name =>
        match killSignal? name with
        | some signal => pure (signal, false, rest)
        | none => fail s!"invalid signal number or name: {name}"
  match lists, targets with
  | true, [] =>
    print ("0\n" ++ String.join ((List.range Signal.last).map fun n => Signal.name (n + 1) ++ "\n"))
  | true, text :: _ => showSignal text
  | false, [] => fail killUsage
  | false, _ =>
    let failed ← sendAll signal false targets
    setStatus (if failed then 1 else 0)

/-- Waits for background processes; all of them have ended. -/
def wait (arguments : List String) : Running Unit := do
  let (_, targets) ← options "" arguments
  setStatus 0
  targets.forM fun text => do
    let jobs := (← get).jobs
    match text.toList with
    | '%' :: digits =>
      match jobs[Decimal.ofDigits digits - 1]? with
      | some (_, ending) => setStatus (Process.statusOf ending)
      | none => fail s!"No such job: {text}"
    | _ =>
      let process ← natural text
      setStatus (((jobs.lookup process).map Process.statusOf).getD 127)

/-! ## Names of commands -/

/-- The built-in commands that are not special. -/
def names : List String :=
  ["[", "alias", "bg", "cd", "chdir", "command", "echo", "false", "fg", "getopts", "hash", "jobs", "kill", "printf",
    "pwd", "read", "test", "true", "type", "ulimit", "umask",
    "unalias", "wait"]

/-- An alias as it is shown. -/
def aliasText (name value : String) : String := name ++ "=" ++ quote value

/-- What a name of a command means, in words, and what is run for it. -/
def meaning? (s : Shell) (name : String) : Option (String × String) :=
  if Script.reservedWords.contains name then some (" is a shell keyword", name)
  else if let some value := s.aliases.lookup name then
    some (" is an alias for " ++ value, "alias " ++ aliasText name value)
  else if Script.specialBuiltins.contains name then some (" is a special shell builtin", name)
  else if s.functions.any (·.1 = name) then some (" is a shell function", name)
  else if names.contains name then some (" is a shell builtin", name)
  else if name.toList.contains '/' then
    if Process.mayRun? s name = some true then some (" is " ++ name, name) else none
  else
    let kind := if s.tracked.contains name then " is a tracked alias for " else " is "
    (Process.findProgram? s name).map fun path => (kind ++ path, path)

/-- Tells what names of commands mean. -/
def tellMeanings (arguments : List String) : Running Unit := do
  let results ← arguments.mapM fun name => do
    let meaning := meaning? (← get) name
    Process.track name
    match meaning with
    | some (words, _) => print (name ++ words ++ "\n")
    | none => print (name ++ ": not found\n")
    return meaning.isSome
  setStatus (if results.all id then 0 else 127)

/-- Shows what is run for the name of a command. -/
def showMeaning (name : String) : Running Unit := do
  let meaning := meaning? (← get) name
  Process.track name
  match meaning with
  | some (_, shown) => print (shown ++ "\n")
  | none => setStatus 127

def hash (arguments : List String) : Running Unit := do
  let (given, targets) ← options "rv" arguments
  setStatus 0
  if given.contains 'r' then modify fun s => { s with tracked := [] }
  else if targets.isEmpty then
    let s ← get
    print (String.join (s.tracked.reverse.filterMap fun name =>
      (Process.findProgram? s name).map (· ++ "\n")))
  targets.forM fun name => do
    if (meaning? (← get) name).isNone then
      Running.complain s!"{name}: not found"
      setStatus 1
    Process.track name

/-! ## Aliases -/

/-- Tells that a name is not that of an alias. -/
def missAlias (command name : String) : Running Unit := do
  discard (Running.write 2 (command ++ ": " ++ name ++ " not found\n"))
  setStatus 1

/-- Shows aliases, or defines those that are given a value. -/
def aliases (arguments : List String) : Running Unit := do
  setStatus 0
  let shown (entries : List (String × String)) : String :=
    String.join (entries.map fun (name, value) => aliasText name value ++ "\n")
  if arguments.isEmpty then print (shown (← get).aliases.reverse)
  arguments.forM fun argument => do
    let status := (← get).status
    let cs := argument.toList
    let name := String.ofList (cs.take 1 ++ (cs.drop 1).takeWhile (· ≠ '='))
    match cs.drop name.length, (← get).aliases.lookup name with
    | _ :: value, _ =>
      modify fun s => { s with
        aliases := (name, String.ofList value) :: s.aliases.filter (·.1 ≠ name) }
    | [], some value =>
      print (shown [(name, value)])
      setStatus status
    | [], none => missAlias "alias" name

def unalias (arguments : List String) : Running Unit := do
  let (given, names) ← options "a" arguments
  setStatus 0
  if !given.isEmpty then modify fun s => { s with aliases := [] }
  else
    names.forM fun name => do
      if (← get).aliases.any (·.1 = name) then
        modify fun s => { s with aliases := s.aliases.filter (·.1 ≠ name) }
      else missAlias "unalias" name

/-- The built-in command of a name. -/
def run? (name : String) : Option (List String → Running Unit) :=
  match name with
  | ":" | "true" | "jobs" => some fun _ => setStatus 0
  | "false" => some fun _ => setStatus 1
  | "echo" => some echo
  | "printf" => some printf
  | "test" => some test
  | "[" => some testInBrackets
  | "cd" | "chdir" => some changeFolder
  | "pwd" => some printFolder
  | "umask" => some umask
  | "read" => some read
  | "export" => some exportVariables
  | "readonly" => some protectVariables
  | "local" => some localVariables
  | "unset" => some unset
  | "set" => some set
  | "shift" => some shift
  | "getopts" => some getopts
  | "exit" => some exit
  | "return" => some return?
  | "break" => some (leaveLoops .leaving)
  | "continue" => some (leaveLoops .continuing)
  | "trap" => some trap
  | "kill" => some kill
  | "wait" => some wait
  | "type" => some tellMeanings
  | "hash" => some hash
  | "alias" => some aliases
  | "unalias" => some unalias
  | "fg" | "bg" => some fun _ => fail "No current job"
  | "ulimit" => some fun _ => print "unlimited\n"
  | "times" => some fun _ => print "0m0.000000s 0m0.000000s\n0m0.000000s 0m0.000000s\n"
  | _ => none

end Montage.Builtin

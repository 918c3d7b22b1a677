import Montage.Script.Expansion
import Montage.Script.Grammar
import Montage.Script.Utility

/-!
# Processes

Commands that run beside the script that starts them: parts of the script itself, and programs.
They run to their end at once, one after the other. How a command is run is handed in as `again`.

* `Process.runText`: runs the commands of a text.
* `Process.forked`: runs a step in a process of its own.
* `Process.capture`: the output of a script.
* `Process.runShell`, `Process.runProgram`: the shell as it is called, and programs.
-/

namespace Montage.Process

/-! ## Signals -/

/-- Receives the signals that were sent to this process. One with an action is kept until the
command at hand is over. -/
def receive : Running Unit := do
  let s ← get
  let own := s.sent.filter (·.1 = s.own)
  unless own.isEmpty do
    modify fun s => { s with sent := s.sent.filter (·.1 ≠ s.own) }
    own.forM fun (_, signal) => do
      match (← get).trap? signal with
      | some action =>
        if Signal.isFinal signal then Running.depart (.killed signal)
        unless action.isEmpty do modify fun s => { s with pending := s.pending ++ [signal] }
      | none => unless Signal.isHarmless signal do Running.depart (.killed signal)

/-- The status of a command that ended. -/
def statusOf : Ending → Nat
  | .exited status => status
  | .signalled signal => 128 + signal

/-- Tells that a signal ended a command that was waited for. -/
def announce (ending : Ending) : Running Unit := do
  match ending with
  | .signalled signal =>
    unless signal = Signal.interrupt || signal = Signal.pipe do
      discard (Running.write 2 (Signal.description signal ++ "\n"))
  | .exited _ => pure ()

/-! ## Texts -/

section

variable (again : Bool → Script → Running Unit)

/-- Ends in an error because a text breaks the grammar. -/
def misread (misreading : Script.Misreading) : Running Unit := do
  modify fun s => { s with line := misreading.line }
  Running.fail ("Syntax error: " ++ misreading.fault.message)

/-- Shows what is read of a file, if the option `v` is on. -/
def showRead (source rest : Script.Source) : Running Unit := do
  if (← get).isOn 'v' then
    let count := source.rest.length - rest.rest.length
    discard (Running.write 2 (String.ofList (source.rest.take count)))

/-- Runs the commands of a source, which `fuel` bounds in number. `ran` tells whether any command
was run; if none is the status is zero. -/
def runSource (fromFile tested : Bool) : Nat → Bool → Script.Source → Running Unit
  | 0, _, _ => pure ()
  | fuel + 1, ran, source => do
    match Script.next { source with aliases := (← get).aliases } with
    | .error misreading => misread misreading
    | .ok (found, rest) =>
      if fromFile then showRead source rest
      modify fun s => { s with reached := rest.line }
      match found with
      | none => unless ran do Running.setStatus 0
      | some (.block []) => runSource fromFile tested fuel ran rest
      | some script =>
        again tested script
        runSource fromFile tested fuel true rest

/-- Runs the commands of a text, which may be that of a file. -/
def runText (fromFile tested : Bool) (text : String) : Running Unit :=
  let cs := text.toList.filter (· ≠ '\x00')
  runSource again fromFile tested (cs.length + 2) false { rest := cs }

/-! ## Actions for signals -/

/-- Runs the action for a signal. The status is the same behind it. -/
def runAction (action : String) : Running Unit := do
  let s ← get
  modify fun s => { s with heldStatus := some s.status }
  runText again false false action
  modify fun s' => { s' with status := s.status, heldStatus := s.heldStatus, line := s.line }

/-- Runs the actions for the signals that were received. -/
def runPending : Running Unit := do
  let pending := (← get).pending
  unless pending.isEmpty do
    modify fun s => { s with pending := [] }
    pending.forM fun signal => do
      if let some action := (← get).trap? signal then runAction again action

/-- How a process ends that has left its script. The action for the end runs first. -/
def finish (outcome : Except Departure Unit) (s : Shell) : Ending × Shell :=
  let ended (s : Shell) : Ending := .exited (s.status % 256)
  match outcome with
  | .error (.killed signal) => (.signalled signal, s)
  | _ =>
    match s.trap? Signal.atExit with
    | none => (ended s, s)
    | some action =>
      let traps := s.traps.filter (·.1 ≠ Signal.atExit)
      match (runAction again action).perform { s with traps } with
      | (.error (.killed signal), s) => (.signalled signal, s)
      | (_, s) => (ended s, s)

/-! ## Processes of the script -/

/-- A process that has what another one has, but takes no action on signals. -/
def child (s : Shell) : Shell :=
  { s with
    nextProcess := s.nextProcess + 1
    own := s.nextProcess
    waiting := s.own :: s.waiting
    traps := s.traps.filter (·.2.isEmpty)
    pending := []
    heldStatus := none
    jobs := [] }

/-- A process goes on behind one that it started, of which only what all processes share remains. -/
def resume (s ended : Shell) : Shell :=
  { s with
    host := { ended.host with directory := s.host.directory, environment := s.host.environment }
    files := ended.files
    nextProcess := ended.nextProcess
    sent := ended.sent }

/-- Runs a step in a process of its own: the number of the process, and how it ended. -/
def forked (step : Running Unit) : Running (Nat × Ending) :=
  Running.ofStep fun s =>
    -- the state gives up the files while the process has them, so that they are changed in place
    let kept := { s with files := {} }
    let (outcome, ended) := step.perform (child s)
    let (ending, ended) := finish again outcome ended
    (.ok (kept.nextProcess, ending), resume kept ended)

/-- Runs a step in a process of its own and waits for it. -/
def waitFor (step : Running Unit) : Running Unit := do
  let (_, ending) ← forked again step
  announce ending
  Running.setStatus (statusOf ending)
  receive

/-- Lets a descriptor lead to an open file, or nowhere. -/
def connect (descriptor : Nat) (file : Option Nat) : Running Unit :=
  modify fun s =>
    let others := s.descriptors.filter (·.1 ≠ descriptor)
    { s with descriptors := (file.map fun f => (descriptor, f)).toList ++ others }

/-- Opens a file for all processes. -/
def openFile (file : OpenFile) : Running Nat :=
  modifyGet fun s =>
    let (n, files) := s.files.add file
    (n, { s with files })

/-- The output of a script, run in a process of its own. -/
def capture (script : Script) : Running String := do
  let buffer ← openFile (.buffer [] "")
  let (_, ending) ← forked again do
    connect 1 (some buffer)
    again false script
  announce ending
  modify fun s => { s with substituted := some (statusOf ending) }
  receive
  let text := (← get).files.bufferText buffer
  modify fun s => { s with files := s.files.set buffer .nowhere }
  return text

/-! ## The shell -/

/-- The names of the options and the letters of those that have one. -/
def optionNames : List (String × Option Char) :=
  [("errexit", some 'e'), ("noglob", some 'f'), ("ignoreeof", some 'I'), ("interactive", some 'i'),
    ("monitor", some 'm'), ("noexec", some 'n'), ("stdin", some 's'), ("xtrace", some 'x'),
    ("verbose", some 'v'), ("vi", some 'V'), ("emacs", some 'E'), ("noclobber", some 'C'),
    ("allexport", some 'a'), ("notify", some 'b'), ("nounset", some 'u'), ("privileged", some 'p'),
    ("nolog", none), ("debug", none)]

/-- Turns an option on or off. -/
def switch (on : Bool) (letter : Char) : Running Unit := do
  if optionNames.any (·.2 = some letter) then
    modify fun s =>
      let others := s.switches.filter (· ≠ letter)
      { s with switches := if on then letter :: others else others }
  else
    let shown := String.ofList [letter]
    Running.fail s!"Illegal option -{shown}"

/-- Turns an option on or off by its name. -/
def switchNamed (on : Bool) (name : String) : Running Unit := do
  match optionNames.lookup name with
  | some (some letter) => switch on letter
  | some none => pure ()
  | none => Running.fail s!"Illegal option -o {name}"

/-- Turns options on and off as the letters of an argument say: whether a command is given as an
argument, and the arguments that are left. -/
def switchAll (on : Bool) (arguments : List String) : List Char → Running (Bool × List String)
  | [] => pure (false, arguments)
  | 'c' :: rest => do
    let (_, arguments) ← switchAll on arguments rest
    return (true, arguments)
  | 'o' :: rest => do
    match arguments with
    | name :: arguments => do
      switchNamed on name
      switchAll on arguments rest
    | [] => switchAll on [] rest
  | letter :: rest => do
    switch on letter
    switchAll on arguments rest

/-- Reads the options of the shell: whether a command is given as an argument, and the arguments
that are left. -/
def readOptions : Nat → Bool → List String → Running (Bool × List String)
  | 0, given, arguments => pure (given, arguments)
  | fuel + 1, given, arguments => do
    match arguments.map String.toList, arguments with
    | ['-', '-'] :: _, _ :: rest | ['-'] :: _, _ :: rest => return (given, rest)
    | ('-' :: letters) :: _, _ :: rest => do
      let (more, rest) ← switchAll true rest letters
      readOptions fuel (given || more) rest
    | ('+' :: letters) :: _, _ :: rest => do
      let (more, rest) ← switchAll false rest letters
      readOptions fuel (given || more) rest
    | _, _ => return (given, arguments)

/-- The shell, as it is called. -/
def runShell (arguments : List String) : Running Unit := do
  let (given, arguments) ← readOptions (arguments.length + 1) false arguments
  if given then
    match arguments with
    | [] => Running.fail "-c requires an argument"
    | text :: rest =>
      modify fun s => { s with name := rest.headD s.name, arguments := rest.tail }
      runText again false false text
  else
    match arguments with
    | path :: rest =>
      if (← get).isOn 's' then
        modify fun s => { s with arguments }
        runText again true false (← Running.readAll)
      else
        match (← get).host.content? (Octet.toText path) with
        | none => Running.fail s!"cannot open {path}: No such file"
        | some content =>
          modify fun s => { s with name := path, arguments := rest }
          runText again true false (Octet.ofText content)
    | [] => runText again true false (← Running.readAll)

/-- The folders in which programs are searched when the environment names none. -/
def firstSearchPath : String := "/usr/local/sbin:/usr/local/bin:/usr/sbin:/usr/bin:/sbin:/bin"

/-- The variables with which a shell starts. Those of the environment are exported. -/
def firstValues (s : Shell) : List (String × Variable) :=
  let given := s.exported.filter fun e => Script.isName e.1 && e.1 ≠ "PWD"
  let own : List (String × String) :=
    [("IFS", " \t\n"), ("OPTIND", "1"), ("PATH", firstSearchPath),
      ("PPID", Decimal.ofInt (s.waiting.headD 1)), ("PS1", "# "), ("PS2", "> "), ("PS4", "+ ")]
  let own := own.filter fun e => !given.any (·.1 = e.1)
  let directory := Octet.ofText s.host.directoryText
  ("PWD", { value := some directory, exported := true })
    :: given.map (fun (name, value) => (name, { value := some value, exported := true }))
    ++ own.map fun (name, value) => (name, { value := some value })

/-- A program that a process starts. -/
def newProcess (s : Shell) (name : String) : Shell :=
  let environment := s.exported
  { host := { s.host with
      environment := environment.map fun e => (Octet.toText e.1, Octet.toText e.2) }
    files := s.files
    nextProcess := s.nextProcess + 1
    sent := s.sent
    name
    values := environment.map fun (name, value) => (name, { value := some value, exported := true })
    descriptors := s.descriptors
    traps := s.traps.filter (·.2.isEmpty)
    process := s.nextProcess
    own := s.nextProcess
    waiting := s.own :: s.waiting }

/-! ## Programs -/

/-- The paths under which a program may stand. -/
def programPaths (s : Shell) (name : String) : List String :=
  if name.toList.contains '/' then [name]
  else
    (Text.splitOn ':' s.searchPath.toList).map fun folder =>
      if folder.isEmpty then name else String.ofList folder ++ "/" ++ name

/-- Whether the file at a path may be run; none if nothing is there. -/
def mayRun? (s : Shell) (path : String) : Option Bool :=
  match s.host.find (Octet.toText path) with
  | .ok (_, .file _ executable) => some executable
  | .ok (_, .folder _) => some false
  | .error _ => none

/-- Where a program stands that is named without a slash. -/
def findProgram? (s : Shell) (name : String) : Option String :=
  (programPaths s name).find? fun path => mayRun? s path = some true

/-- Notes where a program was found, if it is named without a slash. -/
def track (name : String) : Running Unit :=
  modify fun s =>
    if name.toList.contains '/' || s.tracked.contains name || (findProgram? s name).isNone then s
    else { s with tracked := name :: s.tracked }

/-- What is called to run the file at a path. If it names no program to run it, the shell is. -/
def callOf (s : Shell) (name path : String) (arguments : List String) :
    Except FileFault Host.Call :=
  let arguments := arguments.map Octet.toText
  let text := Octet.toText path
  match s.host.callAt Host.scriptLevels (Octet.toText name) text arguments with
  | .error .notAProgram => .ok ⟨.shell, Host.interpreter, text :: arguments⟩
  | other => other

/-- What is called to run a program. -/
def findCall (s : Shell) (name : String) (arguments : List String) :
    Except FileFault Host.Call :=
  if name.toList.contains '/' then callOf s name name arguments
  else
    match findProgram? s name with
    | some path => callOf s name path arguments
    | none =>
      .error (if (programPaths s name).any fun path => (mayRun? s path).isSome then .accessDenied
        else .noSuchFile)

/-- What to say of a program that cannot be run. -/
def faultText : FileFault → String
  | .noSuchFile | .notAFolder => "not found"
  | other => other.message

/-- The status of a program that was found and cannot be run. -/
def faultStatus : FileFault → Nat
  | .accessDenied => 126
  | _ => 127

/-- Runs a program with other variables, as `env` is called. How a process is run is handed in. -/
def runEnv (next : Host.Call → Shell → Ending × Shell) (arguments : List String) :
    Running Ending := do
  match ← Utility.env arguments with
  | [] => return .exited (← get).status
  | name :: rest =>
    let s ← get
    let s := if (s.value? "PATH").isSome then s else s.setVariable "PATH" { value := some "/bin:/usr/bin" }
    match findCall s name rest with
    | .error fault =>
      let reason := fault.message
      Utility.complain s!"'{name}': {reason}"
      if fault = .noSuchFile && name.toList.contains ' ' then
        Utility.complain "use -[v]S to pass options in shebang lines"
      return .exited (faultStatus fault)
    | .ok found => Running.ofStep fun s =>
      let (ending, s) := next found s
      (.ok ending, s)

/-- How a program ends that a process starts, and that process after it. `levels` bounds how many
programs may replace each other. -/
def call : Nat → Host.Call → Shell → Ending × Shell
  | 0, _, s => (.signalled Signal.segmentation, s)
  | levels + 1, called, s =>
    let kept := { s with files := {} }
    let start := newProcess s (Octet.ofText called.name)
    let arguments := called.arguments.map Octet.ofText
    let (ending, ended) :=
      match called.program with
      | .shell =>
        let start := { start with values := firstValues start }
        let (outcome, ended) := (runShell again arguments).perform start
        finish again outcome ended
      | .env =>
        match (runEnv (call levels) arguments).perform start with
        | (.ok ending, ended) => (ending, ended)
        | (.error _, ended) => (.exited 125, ended)
      | program =>
        let (_, ended) := (Utility.run program arguments).perform start
        (.exited ended.status, ended)
    (ending, resume kept ended)

/-- How many programs may replace each other. -/
def callLevels : Nat := 100

def runCall (called : Host.Call) : Running Ending :=
  Running.ofStep fun s =>
    let (ending, s) := call again callLevels called s
    (.ok ending, s)

/-- Runs a program and waits for it. -/
def runProgram (name : String) (arguments : List String) : Running Unit := do
  track name
  let s ← get
  match findCall s name arguments with
  | .error fault =>
    let reason := faultText fault
    Running.complain s!"{name}: {reason}"
    let isFound := name.toList.contains '/' || (findProgram? s name).isSome
    Running.setStatus (if isFound then faultStatus fault else 127)
  | .ok call =>
    let ending ← runCall again call
    announce ending
    Running.setStatus (statusOf ending)
    receive

/-- Runs a program in the place of the script. -/
def becomeProgram (name : String) (arguments : List String) : Running Unit := do
  match findCall (← get) name arguments with
  | .error fault =>
    let reason := faultText fault
    Running.complain s!"{name}: {reason}"
    Running.setStatus (faultStatus fault)
    Running.depart .ending
  | .ok call =>
    let ending ← runCall again call
    modify fun s => { s with traps := [] }
    Running.setStatus (statusOf ending)
    match ending with
    | .exited _ => Running.depart .ending
    | .signalled signal => Running.depart (.killed signal)

end

end Montage.Process

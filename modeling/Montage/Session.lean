import Montage.Executor.Basic
import Montage.Operation

/-!
# Sessions

A session takes an input, operations and an output, builds the command and runs it. It keeps the
operations until the run is over, so that files they wrote can be removed.

* `Session.setInput`, `Session.concat`: where the video comes from.
* `Session.add`: an operation; it needs an input.
* `Session.setOutput`, `Session.build`: the output and the command.
* `Session.execute`: runs the command and then removes the list files.
-/

namespace Montage

structure SessionOptions where
  program : String
  /-- The folder for list files and for outputs that were given no name. -/
  tempFolder : String
  overwrite : Bool
  hideBanner : Bool
  deriving DecidableEq

namespace SessionOptions

/-- The options that the settings give, read in this order (`ProcessorOptions`). -/
def ofSettings (h : Host) : Except Failure SessionOptions := do
  let tempFolder ← (Settings.tempFolder h).mapError .machine
  let overwrite ← (Settings.overwrite h).mapError .setting
  let hideBanner ← (Settings.hideBanner h).mapError .setting
  return ⟨Settings.program h, tempFolder, overwrite, hideBanner⟩

end SessionOptions

/-- An operation that was added, with the list file that it still owns. -/
structure KeptOperation where
  operation : Operation
  listFile : Option String
  deriving DecidableEq

namespace KeptOperation

/-- Removes the list file, if there is one (`cleanup`). After it the operation owns none. -/
def cleanUp (k : KeptOperation) : Action Host KeptOperation := do
  if let some path := k.listFile then Concatenation.removeList path
  return { k with listFile := none }

end KeptOperation

structure Session where
  host : Host
  options : SessionOptions
  draft : Draft
  kept : List KeptOperation := []
  input : Option String := none
  output : Option String := none
  /-- The commands that were handed to an executor. -/
  runs : List Run := []

namespace Session

variable {α : Type}

/-- The flags that a command starts with. -/
def openingFlags (o : SessionOptions) : List String :=
  (if o.hideBanner then ["-hide_banner"] else []) ++ if o.overwrite then ["-y"] else []

/-- A new session. -/
def start (o : SessionOptions) (host : Host) : Session :=
  { host, options := o, draft := (Draft.ofProgram o.program).append (openingFlags o) }

/-- A new session with the options that the settings give. -/
def ofSettings (host : Host) : Except Failure Session := do
  return start (← SessionOptions.ofSettings host) host

/-! ## Parts of a session -/

def onHost : Action Host α → Action Session α :=
  Action.within Session.host fun session host => { session with host }

/-- An action on the draft and the host. No list file is owned before it. -/
def onBench : Action Bench α → Action Session α :=
  Action.within (fun session => ⟨session.host, session.draft, none⟩) fun session bench =>
    { session with host := bench.host, draft := bench.draft }

def edit (change : Draft → Draft) : Action Session Unit :=
  modify fun session => { session with draft := change session.draft }

/-- There is an input (`require_input`). -/
def requireInput : Action Session Unit := do
  if (← get).input.isNone then Action.fail (.missingParameter "input")

/-- Checks and applies an operation that was made, and keeps it (`apply`). -/
def keep (op : Operation) : Action Session Unit := do
  onHost (Log.debug op.describe)
  let listFile ← onBench do
    Bench.add op
    return (← get).listFile
  modify fun session => { session with kept := session.kept ++ [⟨op, listFile⟩] }

/-! ## Input -/

/-- Sets the input, once (`input`). -/
def setInput (path : String) : Action Session Unit := do
  if (← get).input.isSome then
    Action.fail (.invalidParameter "input" "Input has already been set")
  onHost (Log.debug s!"Setting input: {path}")
  edit fun d => d.withInput path
  modify fun session => { session with input := some path }

/-- Joins files (`concat`). Without an input the first of them counts as the input. -/
def concat (r : ConcatRequest) : Action Session Unit := do
  let session ← get
  let c ← Action.expect (Concatenation.ofRequest r session.options.tempFolder session.host)
  keep (.concat c)
  modify fun session => { session with input := session.input <|> r.inputs.head? }

/-! ## Operations -/

/-- The warning for an operation that asks for nothing and is skipped. -/
def skipWarning : Operation → Option String
  | .adjustColor a => if a.isEmpty then some "No color adjustment given, skipping" else none
  | .encode e => if e.isEmpty then some "No encoding option given, skipping" else none
  | _ => none

/-- Adds an operation (`trim`, `resize` and so on, up to `encoding`). -/
def add (op : Operation) : Action Session Unit := do
  requireInput
  match skipWarning op with
  | some warning => onHost (Log.warning warning)
  | none =>
    let op ← Action.expect (op.checked (← get).host)
    keep op

/-! ## Output -/

/-- Names the output and adds its options (`output`). -/
def setOutput (path : String) (options : OutputOptions := {}) : Action Session Unit := do
  onHost (Log.debug s!"Setting output: {path}")
  edit fun d => d.withOutput path options
  modify fun session => { session with output := some path }

/-- A path for an output that was given no name (`synthesize_output_path`): random, with the extension
of the input. -/
def freshOutput : Action Session String := do
  let session ← get
  let (name, host) := session.host.randomName
  set { session with host }
  let extension := Path.extension (session.input.getD "")
  let extension := if extension.isEmpty then ".mp4" else extension
  return Path.joinText session.options.tempFolder (name ++ extension)

/-- Gives the session an output in the folder for such outputs, if it has none. -/
def ensureOutput (cleanUp : Action Session Unit) : Action Session Unit := do
  let session ← get
  if session.output.isNone then
    let folder := session.options.tempFolder
    let (host, fault) := session.host.makeFolders folder
    set { session with host }
    if let some fault := fault then
      cleanUp
      let reason := fault.message
      Action.fail (.refused s!"Failed to create temp directory {folder}: {reason}")
    setOutput (← freshOutput)

/-! ## Building and running -/

/-- Builds the command (`build_command`). -/
def build : Action Session Command := do
  requireInput
  let started := (← get).host.clock
  let command ← onBench Bench.build
  onHost (Host.recordPhase "compile_command" started)
  return command

/-- Removes the list files of all operations (`cleanup_operations`). -/
def cleanUp : Action Session Unit := do
  let kept ← onHost ((← get).kept.mapM KeptOperation.cleanUp)
  modify fun session => { session with kept }

/-- Hands a command to an executor. -/
def hand (e : Executor) (c : Command) : Action Session ExecutionResult := do
  modify fun session => { session with runs := session.runs ++ [⟨c, session.host⟩] }
  onHost (e.execute c)

def buildAndHand (e : Executor) : Action Session ExecutionResult := do
  let command ← build
  let name := e.name
  let count := Decimal.ofInt (← get).kept.length
  onHost (Log.info s!"Running {name} ({count} operations)")
  hand e command

/-- Builds the command and runs it (`execute`). The list files are removed however it ends, unless
the machine does not tell whether the input is there: then nothing is done. -/
def execute (e : Executor) : Action Session ExecutionResult := do
  requireInput
  let session ← get
  let path := session.input.getD ""
  let isThere ← Action.expect ((session.host.pathExists path).mapError .machine)
  unless isThere do
    cleanUp
    Action.fail (.unusableInput path "Input file does not exist")
  ensureOutput cleanUp
  match ← Action.attempt (buildAndHand e) with
  | .error error =>
    let message := error.message
    onHost (Log.error s!"Processing failed: {message}")
    cleanUp
    Action.fail error
  | .ok result =>
    cleanUp
    let path := result.outputPath
    let milliseconds := Decimal.ofInt result.milliseconds
    onHost (Log.success s!"Output written to {path} ({milliseconds} ms)")
    return result

end Session

end Montage

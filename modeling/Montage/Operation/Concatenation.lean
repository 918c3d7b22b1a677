import Montage.Bench

/-!
# Concatenation

Joins several files. The filter strategy makes every file an input and joins their streams in the
graph; the result is a source and becomes the main stream. The demuxer strategy writes a list
file that becomes the input, and copies the streams.

* `Concatenation.ofRequest`: checks a request.
* `Concatenation.listContent`: the list file, one quoted path a line.
* `Concatenation.apply`: adds the files to a draft.
* `Concatenation.removeList`: removes a list file that was written.
-/

namespace Montage

inductive ConcatStrategy where
  | filter | demuxer
  deriving DecidableEq

namespace ConcatStrategy

def name : ConcatStrategy → String
  | filter => "filter"
  | demuxer => "demuxer"

/-- The strategy with a name (`parse_concat_strategy`). -/
def ofName (text : String) : Except Error ConcatStrategy :=
  if text = "filter" then .ok filter
  else if text = "demuxer" then .ok demuxer
  else .error (.invalidParameter "strategy" "Strategy must be either 'demuxer' or 'filter'")

end ConcatStrategy

/-- What is asked of a concatenation. -/
structure ConcatRequest where
  inputs : List String := []
  /-- The name of the strategy; without one it is the filter strategy. -/
  strategy : Option String := none
  videoOnly : Bool := false
  deriving DecidableEq

/-- A concatenation with a known strategy. -/
structure Concatenation where
  inputs : List String
  strategy : ConcatStrategy
  videoOnly : Bool
  /-- The folder for the list file. -/
  tempFolder : String
  deriving DecidableEq

namespace Concatenation

/-! ## Checks -/

/-- There are inputs, and each is there. -/
def checkInputs (inputs : List String) (h : Host) : Except Failure Unit := do
  if inputs.isEmpty then
    throw (.reported
      (.invalidParameter "inputs" "ConcatOperation requires at least one input file"))
  inputs.forM fun path => h.requireFile path s!"File does not exist: {path}"

/-- What is asked of the inputs is asked again when they are added (`validate`). -/
def check (c : Concatenation) (h : Host) : Except Failure Unit := checkInputs c.inputs h

/-- The folder of a concatenation; the empty one stands for that of the settings. -/
def folderOf (tempFolder : String) (h : Host) : Except Failure String :=
  if tempFolder.isEmpty then (Settings.tempFolder h).mapError .machine else .ok tempFolder

/-- The strategy that is asked for. -/
def strategyOf : Option String → Except Failure ConcatStrategy
  | some name => (ConcatStrategy.ofName name).mapError .reported
  | none => .ok .filter

/-- The concatenation that a request asks for. The folder is settled first. -/
def ofRequest (r : ConcatRequest) (tempFolder : String) (h : Host) :
    Except Failure Concatenation := do
  let folder ← folderOf tempFolder h
  checkInputs r.inputs h
  let strategy ← strategyOf r.strategy
  return ⟨r.inputs, strategy, r.videoOnly, folder⟩

/-! ## The list file -/

/-- A character inside single quotes; a quote closes them, stands escaped and opens them again. -/
def quoteChar (c : Char) : List Char := if c = '\'' then ['\'', '\\', '\'', '\''] else [c]

/-- A path in single quotes (`quote_list_path`). -/
def quote (cs : List Char) : List Char := '\'' :: cs.flatMap quoteChar ++ ['\'']

/-- One line of the list: a quoted absolute path without `.` and `..`. -/
def listLine (h : Host) (path : String) : String :=
  "file " ++ String.ofList (quote (Path.normalText h.directory path).toList)

/-- The content of the list file, seen from the working directory (`list_content`). -/
def listContent (c : Concatenation) (h : Host) : String :=
  Text.join "\n" (c.inputs.map (listLine h))

/-- The content, if the machine tells where the relative ones of the paths start. -/
def listText (c : Concatenation) (h : Host) : Except FileFault String := do
  unless c.inputs.all fun path => (Path.ofText path).absolute do discard h.currentPath
  return c.listContent h

/-- Writes the list file and gives its path. The file is opened before its content is made up, so one
whose content cannot be made up is left empty. -/
def writeList (c : Concatenation) : Action Host String := do
  let h ← get
  let (h, fault) := h.makeFolders c.tempFolder
  set h
  if let some fault := fault then
    let folder := c.tempFolder
    let reason := fault.message
    Action.fail (.refused s!"Failed to create temp directory {folder}: {reason}")
  let (name, h) := h.listName
  set h
  let path := Path.joinText c.tempFolder name
  match c.listText h with
  | .ok content =>
    match h.write path content with
    | .ok h => set h
    | .error _ => Action.fail (.refused s!"Failed to write concat list file {path}")
  | .error fault =>
    match h.write path "" with
    | .ok h => set h
    | .error _ => pure ()
    Action.expect (.error (.machine fault))
  return path

/-- Removes a list file; if that fails, a warning says so (`cleanup`). -/
def removeList (path : String) : Action Host Unit := do
  match (← get).remove path with
  | .ok h => set h
  | .error fault =>
    let reason := fault.message
    Log.warning s!"Failed to remove concat list {path}: {reason}"

/-! ## Strategies -/

/-- Adds files as inputs, the first as the primary one if there is none yet, and gives their
numbers. -/
def addInputs : List String → Draft → List Nat × Draft
  | [], d => ([], d)
  | path :: rest, d =>
    let (number, d) :=
      if d.command.input.isNone then ((d.command.setInput path).1, d.withInput path)
      else d.addInput path
    let (numbers, d) := addInputs rest d
    (number :: numbers, d)

/-- The label of a stream of an input. -/
def streamLabel (stream : String) (number : Nat) : String :=
  let shown := Decimal.ofInt number
  s!"[{shown}:{stream}]"

/-- Joins the files in the graph (`apply_filter_strategy`). -/
def applyFilter (c : Concatenation) : Action Bench Unit := do
  let numbers ← Bench.editGet (addInputs c.inputs)
  let count := Decimal.ofInt numbers.length
  if c.videoOnly then
    let inputs := numbers.map (streamLabel "v")
    Bench.editOrFail fun d => d.addSource s!"concat=n={count}:v=1" inputs ["[outv]"]
    Bench.edit Draft.dropAudio
  else
    let inputs := numbers.flatMap fun n => [streamLabel "v" n, streamLabel "a" n]
    Bench.editOrFail fun d => d.addSource s!"concat=n={count}:v=1:a=1" inputs ["[outv]", "[outa]"]
    Bench.edit fun d => d.mapAudio "[outa]"

/-- Makes a list file the primary input (`apply_demuxer_strategy`). -/
def applyDemuxer (c : Concatenation) : Action Bench Unit := do
  if (← get).draft.command.input.isSome then
    Action.fail (.invalidParameter "strategy"
      "The demuxer strategy supplies the primary input itself; no other input may be set")
  let path ← Bench.onHost c.writeList
  modify fun bench => { bench with listFile := some path }
  let count := Decimal.ofInt c.inputs.length
  Bench.onHost (Log.debug s!"Wrote concat list {path} ({count} entries)")
  Bench.edit fun d => d.append ["-f", "concat", "-safe", "0"]
  Bench.edit fun d => d.withInput path
  Bench.edit fun d => d.append ["-c", "copy"]

def apply (c : Concatenation) : Action Bench Unit :=
  match c.strategy with
  | .filter => c.applyFilter
  | .demuxer => c.applyDemuxer

def describe (c : Concatenation) : String :=
  let count := Decimal.ofInt c.inputs.length
  let strategy := c.strategy.name
  s!"Concatenating {count} files using {strategy} strategy"

end Concatenation

end Montage

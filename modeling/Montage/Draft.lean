import Montage.Command
import Montage.FilterGraph

/-!
# Drafts

A command in the making: the command itself, the filter graph, and what will be done with audio.
Inputs and options go to the command at once; filters wait in the draft until it is built.

* `Draft.withInput`, `Draft.addInput`, `Draft.withOutput`: the files of the command.
* `Draft.addSimple`, `Draft.addComplex`, `Draft.addSource`: the filters.
* `Draft.rendered`: the command with its filters, its audio and its output.
-/

namespace Montage

/-- Options that are given together with the output. -/
structure OutputOptions where
  format : Option String := none
  quality : Option Int := none
  bitrate : Option String := none
  codec : Option String := none
  deriving DecidableEq

namespace OutputOptions

/-- An option with its value, if it is set. -/
def pair (key : String) : Option String → List String
  | some value => [key, value]
  | none => []

def arguments (o : OutputOptions) : List String :=
  pair "-f" o.format ++ pair "-c:v" o.codec ++ pair "-crf" (o.quality.map Decimal.ofInt)
    ++ pair "-b:v" o.bitrate

end OutputOptions

structure Draft where
  command : Command
  graph : FilterGraph := {}
  /-- The simple filters, in the order in which they were added. -/
  simple : List String := []
  /-- The inputs beside the primary one. -/
  extraInputs : List String := []
  /-- The audio stream to map, if it is not that of the first input. -/
  audio : Option String := none
  dropsAudio : Bool := false
  isBuilt : Bool := false
  deriving DecidableEq

namespace Draft

/-- A draft for a program. -/
def ofProgram (program : String) : Draft := { command := { program } }

/-! ## Files and options -/

/-- Sets the primary input (`with_input`). -/
def withInput (d : Draft) (path : String) : Draft :=
  { d with command := (d.command.setInput path).2 }

/-- Adds an input beside the primary one and gives its number (`add_input`). -/
def addInput (d : Draft) (path : String) : Nat × Draft :=
  let (number, command) := d.command.addInput path
  (number, { d with command, extraInputs := d.extraInputs ++ [path] })

/-- Sets the output and adds its options (`with_output`). -/
def withOutput (d : Draft) (path : String) (options : OutputOptions) : Draft :=
  { d with command := (d.command.setOutput path).append options.arguments }

/-- Adds arguments, such as flags (`add_global_flag`). -/
def append (d : Draft) (arguments : List String) : Draft :=
  { d with command := d.command.append arguments }

/-! ## Filters -/

/-- Adds a filter of either kind to the graph and to nothing else. A simple filter that is added
so takes a label but is not rendered. -/
def addToGraph (d : Draft) (text : String) (kind : FilterKind) (inputs outputs : List String := []) :
    Draft :=
  { d with graph := d.graph.add text kind inputs outputs }

/-- Adds a simple filter (`add_simple_filter`). It is part of the graph too and takes a label. -/
def addSimple (d : Draft) (text : String) : Draft :=
  { d.addToGraph text .simple with simple := d.simple ++ [text] }

/-- Adds a complex filter (`add_complex_filter`). -/
def addComplex (d : Draft) (text : String) (inputs outputs : List String := []) : Draft :=
  d.addToGraph text .complex inputs outputs

/-- Adds a source to the graph (`add_source_filter`). -/
def addSource (d : Draft) (text : String) (inputs outputs : List String) : Except Error Draft := do
  let graph ← d.graph.addSource text inputs outputs
  return { d with graph }

/-- A fresh label with the given stem (`allocate_label`). -/
def allocate (d : Draft) (stem : String) : String × Draft :=
  let (label, graph) := d.graph.allocate stem
  (label, { d with graph })

/-! ## Audio -/

/-- Takes the audio from the graph (`map_audio`). -/
def mapAudio (d : Draft) (label : String) : Draft :=
  { d with audio := some label, dropsAudio := false }

/-- Leaves the audio out (`drop_audio`). -/
def dropAudio (d : Draft) : Draft := { d with audio := none, dropsAudio := true }

/-! ## Building -/

/-- The arguments that a graph of complex filters adds: the graph, its last video stream and,
unless audio is dropped, an audio stream. -/
def graphArguments (d : Draft) (graph : String) : List String :=
  ["-filter_complex", graph, "-map", d.graph.mainLabel]
    ++ if d.dropsAudio then [] else ["-map", d.audio.getD "0:a?"]

/-- The arguments that the filters add: the graph, or else the chain of simple filters. -/
def filterArguments (d : Draft) : List String :=
  match d.graph.complexText with
  | some graph => d.graphArguments graph
  | none => if d.simple.isEmpty then [] else ["-vf", Text.join "," d.simple]

/-- The command with filters and audio, before the output. -/
def rendered (d : Draft) : Command :=
  d.command.append (d.filterArguments ++ if d.dropsAudio then ["-an"] else [])

/-- The warning that simple filters are left out beside complex ones. -/
def leftOutWarning (d : Draft) : List String :=
  if d.graph.hasComplex && !d.simple.isEmpty then
    let count := Decimal.ofInt d.simple.length
    let texts := d.graph.simpleText.getD ""
    [s!"Complex filters present, {count} simple filter(s) not rendered: {texts}"]
  else []

/-- The warning that the program applies only the last of several video filters. -/
def repeatedFilterWarning (d : Draft) : List String :=
  let count := d.rendered.videoFilterCount
  if 1 < count then
    let shown := Decimal.ofInt count
    [s!"{shown} video filter arguments in one command, ffmpeg applies only the last one"]
  else []

/-- The draft after its command was built. -/
def built (d : Draft) : Draft := { d with command := d.rendered.close, isBuilt := true }

end Draft

end Montage

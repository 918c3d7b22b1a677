import Montage.Error
import Montage.Number.Digits

/-!
# Filter graphs

The filters of a command. Simple filters form a chain of their own. Complex filters form a graph
in which each reads and writes labelled streams; the main video stream is threaded through those
that read it.

* `Filter.readsMain`: a filter that declares no inputs, names the main stream or is a source.
* `FilterGraph.segments`: the complex filters with the main stream put in.
* `FilterGraph.mainLabel`: the label of the main stream after all filters.
* `FilterGraph.complexText`: the segments as one text.
* `FilterGraph.allocate`: a label with the next number.
-/

namespace Montage

/-- The label of the video stream of the first input. -/
def mainVideo : String := "[0:v]"

inductive FilterKind where
  | simple | complex
  deriving DecidableEq

/-- One filter of a graph. A source takes its inputs literally and becomes the main stream. -/
structure Filter where
  text : String
  kind : FilterKind
  inputs : List String
  outputs : List String
  isSource : Bool := false
  deriving DecidableEq

namespace Filter

/-- Whether the first output of a complex filter becomes the main stream. -/
def readsMain (f : Filter) : Bool := f.isSource || f.inputs.isEmpty || f.inputs.contains mainVideo

/-- The labels that a filter reads when the main stream has the given label. -/
def resolvedInputs (f : Filter) (main : String) : List String :=
  if f.isSource then f.inputs
  else if f.inputs.isEmpty then [main]
  else f.inputs.map fun label => if label = mainVideo then main else label

/-- The label of the main stream after a complex filter. -/
def mainAfter (f : Filter) (main : String) : String :=
  if f.readsMain then f.outputs.headD main else main

end Filter

/-- A complex filter with the labels that it reads and writes. -/
structure Segment where
  inputs : List String
  text : String
  outputs : List String
  deriving DecidableEq

def Segment.render (s : Segment) : String := String.join s.inputs ++ s.text ++ String.join s.outputs

structure FilterGraph where
  filters : List Filter := []
  /-- The number in the next label. -/
  nextLabel : Nat := 0
  deriving DecidableEq

namespace FilterGraph

/-! ## Building -/

/-- A label with the given stem and the next number (`allocate_label`). -/
def allocate (g : FilterGraph) (stem : String) : String × FilterGraph :=
  let number := Decimal.ofInt g.nextLabel
  (s!"[{stem}{number}]", { g with nextLabel := g.nextLabel + 1 })

/-- The stem of the label that a filter without outputs is given. -/
def stem : FilterKind → String
  | .simple => "temp"
  | .complex => "out"

def append (g : FilterGraph) (f : Filter) : FilterGraph := { g with filters := g.filters ++ [f] }

/-- Adds a filter; one without outputs is given a fresh one (`add_filter`). -/
def add (g : FilterGraph) (text : String) (kind : FilterKind) (inputs outputs : List String := []) :
    FilterGraph :=
  if outputs.isEmpty then
    let (label, g) := g.allocate (stem kind)
    g.append ⟨text, kind, inputs, [label], false⟩
  else g.append ⟨text, kind, inputs, outputs, false⟩

/-- Adds a source, which needs an output (`add_source_filter`). -/
def addSource (g : FilterGraph) (text : String) (inputs outputs : List String) :
    Except Error FilterGraph :=
  if outputs.isEmpty then
    .error (.invalidParameter "outputs" "A source filter needs an output label")
  else .ok (g.append ⟨text, .complex, inputs, outputs, true⟩)

/-! ## Reading -/

def simpleFilters (g : FilterGraph) : List Filter := g.filters.filter (·.kind = .simple)

def complexFilters (g : FilterGraph) : List Filter := g.filters.filter (·.kind = .complex)

/-- Whether there is a simple filter (`has_simple_filters`). -/
def hasSimple (g : FilterGraph) : Bool := !g.simpleFilters.isEmpty

/-- Whether there is a complex filter (`has_complex_filters`). -/
def hasComplex (g : FilterGraph) : Bool := !g.complexFilters.isEmpty

/-- The simple filters as one text, none if there are none (`render_simple`). -/
def simpleText (g : FilterGraph) : Option String :=
  if g.hasSimple then some (Text.join "," (g.simpleFilters.map Filter.text)) else none

/-- Filters with their labels, the main stream having the given label before the first. -/
def thread (main : String) : List Filter → List Segment
  | [] => []
  | f :: rest => ⟨f.resolvedInputs main, f.text, f.outputs⟩ :: thread (f.mainAfter main) rest

/-- The complex filters with the main stream threaded through them. -/
def segments (g : FilterGraph) : List Segment := thread mainVideo g.complexFilters

/-- Puts a segment behind the text of a graph; a separator stands only behind text. -/
def joinSegment (graph segment : String) : String :=
  if graph.isEmpty then segment else graph ++ ";" ++ segment

/-- The complex filters as one text, none if there are none (`render_complex`). -/
def complexText (g : FilterGraph) : Option String :=
  if g.hasComplex then some ((g.segments.map Segment.render).foldl joinSegment "") else none

/-- The label of the main stream after all complex filters (`final_output_label`). -/
def mainLabel (g : FilterGraph) : String :=
  g.complexFilters.foldl (fun main f => f.mainAfter main) mainVideo

end FilterGraph

end Montage

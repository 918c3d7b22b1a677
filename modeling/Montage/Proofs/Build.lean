import Montage.Proofs.Edit

/-!
# Reading a built command

A command is built from the flags that it starts with, the words that the edits of its draft added,
and the words for filters and audio. All of them can be read back.

* `Edits.read_rendered`: the arguments of a draft, in these three parts.
* `Draft.read_ending`: what is read of the last part if there is a graph.
* `Draft.read_close`: the output is not among what is read.
-/

namespace Montage

open Argument

namespace Draft

/-- The words for filters and audio. -/
def ending (d : Draft) : List String :=
  d.filterArguments ++ if d.dropsAudio then ["-an"] else []

/-- The text of a graph, read off its segments. -/
def graphText (d : Draft) : String :=
  (d.graph.segments.map Segment.render).foldl FilterGraph.joinSegment ""

/-- The audio stream that is mapped beside the graph, unless audio is dropped. -/
def audioMaps (d : Draft) : List String := if d.dropsAudio then [] else [d.audio.getD "0:a?"]

/-- With a graph the command names it, maps its main stream, and maps or drops audio. -/
theorem read_ending {d : Draft} (h : d.graph.hasComplex = true) :
    read d.ending = option "-filter_complex" d.graphText :: option "-map" d.graph.mainLabel ::
      (d.audioMaps.map (option "-map") ++ if d.dropsAudio then [switch "-an"] else []) := by
  have hgraph : "-filter_complex" ∉ switches := by decide
  have hmap : "-map" ∉ switches := by decide
  have hfilters : d.filterArguments = d.graphArguments d.graphText := by
    simp only [filterArguments, FilterGraph.complexText, h, if_true]; rfl
  rw [ending, hfilters, graphArguments, audioMaps]
  cases d.dropsAudio with
  | true =>
    simp only [if_true, List.cons_append, List.nil_append, List.append_nil, List.map_nil]
    rw [read_option hgraph, read_option hmap]
    rfl
  | false =>
    simp only [Bool.false_eq_true, if_false, List.cons_append, List.nil_append, List.append_nil,
      List.map_cons, List.map_nil]
    rw [read_option hgraph, read_option hmap, read_option hmap]
    rfl

/-- Without a graph the command has the chain of simple filters, if there are any, and drops audio or
    leaves it. -/
theorem read_ending_of_simple {d : Draft} (h : d.graph.hasComplex = false) :
    read d.ending = (if d.simple.isEmpty then [] else [option "-vf" (Text.join "," d.simple)]) ++
      if d.dropsAudio then [switch "-an"] else [] := by
  have hfilters : d.filterArguments =
      if d.simple.isEmpty then [] else ["-vf", Text.join "," d.simple] := by
    simp only [filterArguments, FilterGraph.complexText, h, Bool.false_eq_true, if_false]
  rw [ending, hfilters]
  cases d.simple.isEmpty <;> cases d.dropsAudio <;> rfl

/-- Without a graph there is at most a chain of simple filters. -/
theorem read_ending_simple {d : Draft} (h : d.graph.hasComplex = false) {a : Argument}
    (ha : a ∈ read d.ending) : (∃ v, a = option "-vf" v) ∨ a = switch "-an" := by
  rw [read_ending_of_simple h, List.mem_append] at ha
  rcases ha with ha | ha
  · cases hs : d.simple.isEmpty <;> simp [hs] at ha
    exact .inl ⟨_, ha⟩
  · cases hd : d.dropsAudio <;> simp [hd] at ha
    exact .inr ha

/-- The names of the options among the words for filters and audio. -/
def endingNames : List String := ["-vf", "-filter_complex", "-map"]

/-- No other option stands among these words. -/
theorem values_ending (d : Draft) {name : String} (hname : name ∉ endingNames) :
    values name (read d.ending) = [] := by
  have free {key value : String} (hkey : key ∈ endingNames) :
      valueOf? name (option key value) = none := by
    rw [valueOf?, if_neg]
    rintro rfl
    exact hname hkey
  rw [values, List.filterMap_eq_nil_iff]
  intro a ha
  cases h : d.graph.hasComplex with
  | true =>
    rw [read_ending h] at ha
    simp only [List.mem_cons, List.mem_append, List.mem_map] at ha
    rcases ha with rfl | rfl | ⟨_, -, rfl⟩ | ha
    · exact free (by decide)
    · exact free (by decide)
    · exact free (by decide)
    · cases hd : d.dropsAudio <;> simp [hd] at ha; simp [ha, valueOf?]
  | false =>
    rcases read_ending_simple h ha with ⟨_, rfl⟩ | rfl
    · exact free (by decide)
    · rfl

end Draft

/-! ## The arguments of a built command -/

/-- The last word of a command that was closed is its output. -/
theorem Draft.arguments_close {d : Draft} {path : String} (hpath : d.command.output = some path)
    (hopen : d.command.isClosed = false) :
    d.rendered.close.arguments = d.rendered.arguments ++ [path] := by
  have ho : d.rendered.output = some path := hpath
  have hc : d.rendered.isClosed = false := hopen
  simp only [Command.close, ho, hc, Bool.false_eq_true, if_false]
  rfl

theorem Draft.read_close {d : Draft} (houtput : d.command.output.isSome = true)
    (hopen : d.command.isClosed = false) :
    d.rendered.close.read = Argument.read d.rendered.arguments := by
  obtain ⟨path, hpath⟩ := Option.isSome_iff_exists.mp houtput
  rw [Command.read, arguments_close hpath hopen, List.dropLast_concat]

theorem Command.program_close (c : Command) : c.close.program = c.program := by
  unfold close
  cases c.output with
  | none => rfl
  | some path => cases c.isClosed <;> rfl

theorem Command.input_close (c : Command) : c.close.input = c.input := by
  unfold close
  cases c.output with
  | none => rfl
  | some path => cases c.isClosed <;> rfl

theorem Command.output_of_checkEnds {c : Command} (h : c.checkEnds = .ok ()) :
    c.output.isSome = true := by
  simp only [checkEnds, refuse_eq_ok, Option.isNone_iff_eq_none] at h
  exact Option.isSome_iff_ne_none.mpr h.2.1

/-! ## The parts of the arguments -/

theorem Argument.read_switches {flags : List String} (h : flags ⊆ switches) (rest : List String) :
    read (flags ++ rest) = flags.map switch ++ read rest := by
  induction flags with
  | nil => rfl
  | cons flag flags ih =>
    obtain ⟨hflag, hflags⟩ := List.cons_subset.mp h
    rw [List.cons_append, read_switch hflag, ih hflags]
    rfl

/-- The flags that a session can start a command with. -/
def flagNames : List String := ["-hide_banner", "-y"]

theorem values_map_switch (name : String) (flags : List String) :
    values name (flags.map switch) = [] := by
  rw [values, List.filterMap_map, List.filterMap_eq_nil_iff]
  intro flag _
  rfl

namespace Edits

variable {d d' : Draft} {es : List Edit}

theorem read_rendered (h : Edits d es d') (hflags : d.command.arguments ⊆ flagNames) :
    read d'.rendered.arguments =
      d.command.arguments.map switch ++ read (es.flatMap Edit.arguments) ++ read d'.ending := by
  have hwords : d'.rendered.arguments =
      d.command.arguments ++ (es.flatMap Edit.arguments ++ d'.ending) := by
    rw [← List.append_assoc, ← h.command.1]; rfl
  have hswitches : d.command.arguments ⊆ switches :=
    List.Subset.trans hflags (by decide)
  rw [hwords, read_switches hswitches, read_append
    (.flatMap Edit.arguments_areOptions es) Edit.optionNames_notMem_switches, List.append_assoc]

/-- The inputs of a command are those of the edits. -/
theorem values_input_rendered (h : Edits d es d') (hflags : d.command.arguments ⊆ flagNames) :
    values "-i" (read d'.rendered.arguments) = es.flatMap Edit.inputs := by
  rw [h.read_rendered hflags, values_append, values_append, values_map_switch, values_inputs,
    d'.values_ending (by decide), List.nil_append, List.append_nil]

/-- An option that no edit adds stands at the end, if at all. -/
theorem values_rendered (h : Edits d es d') (hflags : d.command.arguments ⊆ flagNames)
    {name : String} (hname : name ∉ Edit.optionNames) :
    values name (read d'.rendered.arguments) = values name (read d'.ending) := by
  have hes : AreOptions Edit.optionNames (es.flatMap Edit.arguments) :=
    .flatMap Edit.arguments_areOptions es
  rw [h.read_rendered hflags, values_append, values_append, values_map_switch,
    hes.values_eq_nil Edit.optionNames_notMem_switches hname, List.nil_append, List.nil_append]

theorem count_noAudio_rendered (h : Edits d es d') (hflags : d.command.arguments ⊆ flagNames) :
    (read d'.rendered.arguments).count (switch "-an") = (read d'.ending).count (switch "-an") := by
  have hes : AreOptions Edit.optionNames (es.flatMap Edit.arguments) :=
    .flatMap Edit.arguments_areOptions es
  have hflag : switch "-an" ∉ d.command.arguments.map switch := by
    intro hmem
    obtain ⟨flag, hflag, heq⟩ := List.mem_map.mp hmem
    cases heq
    exact absurd (hflags hflag) (by decide)
  rw [h.read_rendered hflags, List.count_append, List.count_append,
    List.count_eq_zero.mpr hflag,
    List.count_eq_zero.mpr (hes.switch_notMem Edit.optionNames_notMem_switches "-an")]
  omega

end Edits

/-! ## Graphs -/

namespace Draft

variable {d : Draft}

/-- A command names a graph just if there are segments. -/
theorem values_graph (h : d.graph.hasComplex = true) :
    values "-filter_complex" (read d.ending) = [d.graphText] := by
  rw [read_ending h]
  cases hd : d.dropsAudio <;> simp [values, valueOf?, audioMaps, hd]

theorem hasComplex_of_values (h : values "-filter_complex" (read d.ending) ≠ []) :
    d.graph.hasComplex = true := by
  cases hc : d.graph.hasComplex with
  | true => rfl
  | false =>
    refine absurd (List.filterMap_eq_nil_iff.mpr fun a ha => ?_) h
    rcases read_ending_simple hc ha with ⟨_, rfl⟩ | rfl <;> rfl

theorem values_map (h : d.graph.hasComplex = true) :
    values "-map" (read d.ending) = d.graph.mainLabel :: d.audioMaps := by
  rw [read_ending h]
  cases hd : d.dropsAudio <;> simp [values, valueOf?, audioMaps, hd]

theorem count_noAudio (h : d.graph.hasComplex = true) :
    (read d.ending).count (switch "-an") = if d.dropsAudio then 1 else 0 := by
  rw [read_ending h]
  cases hd : d.dropsAudio <;> simp [audioMaps, hd]

end Draft

end Montage

import Montage.Proofs.SimpleFilter

/-!
# Filters that are left out

Filters come to a command in three ways: speed and colour set `-filter:v` at once, the filters of the
frame wait for `-vf`, and those of the graph for `-filter_complex`. The program applies only the last of
them, and beside a graph the filters of the frame are not even written. A build warns of both.

* `Operation.filterOptions`: the filters that an operation sets at once.
* `Session.Call.accepted`: the operation that a call applies, unless it is skipped.

Results:
* `Argument.length_values_read_le`: as many words as options have a name.
* `Edits.values_filter`, `Edits.registers`: what a row of edits sets at once, and what it leaves waiting.
* `Session.build_reports`: the filters of a command that is built, and the warnings of those that it
  does not apply.
-/

namespace Montage

open Argument

/-! ## Counting options -/

/-- The options with a name are no more than the words that are this name. -/
theorem Argument.length_values_read_le (name : String) (words : List String) :
    (values name (read words)).length ≤ words.count name := by
  induction words using read.induct with
  | case1 => exact Nat.zero_le _
  | case2 word => exact Nat.zero_le _
  | case3 word value rest hword ih =>
    have hvalues : values name (switch word :: read (value :: rest)) =
        values name (read (value :: rest)) := rfl
    rw [read, if_pos hword, hvalues]
    exact Nat.le_trans ih List.count_le_count_cons
  | case4 word value rest hword ih =>
    have hrest : rest.count name ≤ (value :: rest).count name := List.count_le_count_cons
    rw [read, if_neg hword, values, List.filterMap_cons, valueOf?]
    by_cases hname : word = name
    · subst hname
      rw [if_pos rfl, List.length_cons, List.count_cons_self]
      exact Nat.succ_le_succ (Nat.le_trans ih hrest)
    · rw [if_neg hname, List.count_cons_of_ne hname]
      exact Nat.le_trans ih hrest

/-- An option that may be set leaves the options with other names. -/
theorem Argument.values_read_pair {name key : String} (hkey : key ∉ switches) (hne : key ≠ name)
    (value : Option String) (rest : List String) :
    values name (read (OutputOptions.pair key value ++ rest)) = values name (read rest) := by
  cases value with
  | none => rfl
  | some value =>
    rw [OutputOptions.pair, List.cons_append, List.cons_append, List.nil_append, read_option hkey,
      values, List.filterMap_cons, valueOf?, if_neg hne]
    rfl

/-! ## Filters that are set at once -/

/-- The filters that an operation sets at once. -/
def Operation.filterOptions : Operation → List String
  | speed s => [s!"setpts={s.videoParameters}"]
  | adjustColor a => [s!"eq={a.parameters}"]
  | _ => []

namespace Edit

/-- The filters that an edit sets at once. -/
def filterOptions : Edit → List String
  | operation op .. => op.filterOptions
  | _ => []

/-- The simple filters that an edit registers. -/
def simpleFilters : Edit → List String
  | operation op .. => op.simpleFilters
  | _ => []

theorem values_settings (e : Edit) : values "-filter:v" (read e.settings) = e.filterOptions := by
  -- A last option that may be set.
  have last {key : String} (hkey : key ∉ switches) (hne : key ≠ "-filter:v") (value : Option String) :
      values "-filter:v" (read (OutputOptions.pair key value)) = [] := by
    rw [← List.append_nil (OutputOptions.pair key value), values_read_pair hkey hne]
    rfl
  cases e with
  | input path => rfl
  | output path options =>
    simp only [settings, OutputOptions.arguments, List.append_assoc]
    rw [values_read_pair (by decide) (by decide), values_read_pair (by decide) (by decide),
      values_read_pair (by decide) (by decide), last (by decide) (by decide)]
    rfl
  | operation op host list =>
    cases op with
    | trim t =>
      have hpairs : t.arguments = OutputOptions.pair "-ss" (t.start.map Time.token) ++
          (OutputOptions.pair "-to" (t.stop.map Time.token) ++
            OutputOptions.pair "-t" (if t.stop.isSome then none else t.duration.map Time.token)) := by
        unfold Trim.arguments
        cases t.start <;> cases t.stop <;> cases t.duration <;> rfl
      simp only [settings, Operation.settings, hpairs]
      rw [values_read_pair (by decide) (by decide), values_read_pair (by decide) (by decide),
        last (by decide) (by decide)]
      rfl
    | speed s =>
      have hswitch : "-filter:v" ∉ switches := by decide
      have hpair : (if s.audioFilter.isEmpty then [] else ["-filter:a", s.audioFilter]) =
          OutputOptions.pair "-filter:a" (if s.audioFilter.isEmpty then none else s.audioFilter) := by
        cases s.audioFilter.isEmpty <;> rfl
      simp only [settings, Operation.settings, hpair, List.cons_append, List.nil_append]
      rw [read_option hswitch, values, List.filterMap_cons, valueOf?, if_pos rfl]
      exact congrArg _ (last (by decide) (by decide) _)
    | adjustColor a => rfl
    | encode e =>
      simp only [settings, Operation.settings, Encoding.arguments, List.append_assoc]
      rw [values_read_pair (by decide) (by decide), values_read_pair (by decide) (by decide),
        values_read_pair (by decide) (by decide), last (by decide) (by decide)]
      rfl
    | concat c =>
      simp only [settings, Operation.settings]
      cases c.strategy <;> rfl
    | _ => rfl

theorem values_filter (e : Edit) : values "-filter:v" (read e.arguments) = e.filterOptions := by
  have hinputs : values "-filter:v" (e.inputs.map (option "-i")) = [] := by
    rw [values, List.filterMap_map, List.filterMap_eq_nil_iff]
    intro path _
    rfl
  rw [e.read_arguments, values_append, values_append,
    e.listing_areOptions.values_eq_nil (by decide) (by decide), hinputs, e.values_settings]
  rfl

/-- An edit leaves its simple filters waiting, in the list and in the graph. -/
theorem Makes.waits {e : Edit} {d d' : Draft} (h : e.Makes d d') :
    d.Registers e.simpleFilters [] d' := by
  cases e with
  | input path => cases h; exact .of_same rfl rfl rfl
  | output path options => cases h; exact .of_same rfl rfl rfl
  | operation op host list => exact h.registers

end Edit

namespace Edits

variable {d d' : Draft} {es : List Edit}

theorem values_filter (es : List Edit) :
    values "-filter:v" (read (es.flatMap Edit.arguments)) = es.flatMap Edit.filterOptions := by
  induction es with
  | nil => rfl
  | cons e es ih =>
    rw [List.flatMap_cons, List.flatMap_cons, e.read_arguments_append, values_append, ih,
      e.values_filter]

theorem waits (h : Edits d es d') : d.Registers (es.flatMap Edit.simpleFilters) [] d' := by
  induction es generalizing d with
  | nil => cases h; exact .refl _
  | cons e es ih =>
    obtain ⟨m, he, hes⟩ := h
    rw [List.flatMap_cons]
    exact he.waits.trans (ih hes)

end Edits

/-! ## Sessions -/

namespace Session

open Draft (leftOut repeated)

/-- The operation that a call applies, unless it is skipped. -/
def Call.accepted : Call → List Operation
  | add op => if skipWarning op = none then [op] else []
  | _ => []

/-- Calls that succeed set and leave waiting the filters of the operations that they apply. -/
theorem filters_of_stands {calls : List Call} {ess : List (List Edit)}
    (h : List.Forall₂ Call.Stands calls ess) :
    ess.flatten.flatMap Edit.filterOptions =
        (calls.flatMap Call.accepted).flatMap Operation.filterOptions ∧
      ess.flatten.flatMap Edit.simpleFilters =
        (calls.flatMap Call.accepted).flatMap Operation.simpleFilters := by
  have step {c : Call} {es : List Edit} (hc : c.Stands es) :
      es.flatMap Edit.filterOptions = c.accepted.flatMap Operation.filterOptions ∧
        es.flatMap Edit.simpleFilters = c.accepted.flatMap Operation.simpleFilters := by
    cases c with
    | input path => rw [hc]; exact ⟨rfl, rfl⟩
    | concat r => obtain ⟨c, host, list, rfl, -⟩ := hc; exact ⟨rfl, rfl⟩
    | add op =>
      rcases hc with ⟨hw, rfl⟩ | ⟨hw, host, list, rfl⟩
      · simp [Call.accepted, hw]
      · simp [Call.accepted, hw, Edit.filterOptions, Edit.simpleFilters]
    | output path options => rw [hc]; exact ⟨rfl, rfl⟩
  induction h with
  | nil => exact ⟨rfl, rfl⟩
  | cons hc _ ih =>
    simp only [List.flatten_cons, List.flatMap_append, List.flatMap_cons]
    rw [(step hc).1, (step hc).2, ih.1, ih.2]
    exact ⟨rfl, rfl⟩

/-- The draft of a session behind calls that succeed, with the filters of the operations that they
    apply. -/
structure Waiting (ops : List Operation) (d : Draft) : Prop where
  isBuilt : d.isBuilt = false
  isOpen : d.command.isClosed = false
  simple : d.simple = ops.flatMap Operation.simpleFilters
  graph : d.graph.simpleTexts = ops.flatMap Operation.simpleFilters
  values_filter : values "-filter:v" (read d.rendered.arguments) = ops.flatMap Operation.filterOptions
  values_rendered : ∀ name, name ∉ Edit.optionNames →
    values name (read d.rendered.arguments) = values name (read d.ending)

theorem waiting_of_sequence {o : SessionOptions} {host : Host} {calls : List Call} {s : Session}
    (h : (sequence calls).perform (start o host) = (.ok (), s)) :
    Waiting (calls.flatMap Call.accepted) s.draft := by
  obtain ⟨ess, hstand, hedits⟩ := sequence_ok h
  obtain ⟨hfilter, hsimple⟩ := filters_of_stands hstand
  obtain ⟨-, -, hclosed, -⟩ := hedits.command
  have hwaits := hedits.waits
  have hflags : (start o host).draft.command.arguments ⊆ flagNames := openingFlags_subset o
  refine ⟨hwaits.isBuilt, hclosed, hwaits.simple.trans hsimple, ?_, ?_, fun name hname => ?_⟩
  · rw [hwaits.graph, List.append_nil, hsimple]
    rfl
  · rw [hedits.read_rendered hflags, values_append, values_append, values_map_switch,
      Edits.values_filter, s.draft.values_ending (by decide), hfilter, List.nil_append,
      List.append_nil]
  · exact hedits.values_rendered hflags hname

namespace Waiting

variable {ops : List Operation} {d : Draft}

theorem values_graph_iff (h : Waiting ops d) :
    values "-filter_complex" (read d.rendered.arguments) ≠ [] ↔ d.graph.hasComplex = true := by
  rw [h.values_rendered _ (by decide)]
  refine ⟨Draft.hasComplex_of_values, fun hgraph => ?_⟩
  rw [Draft.values_graph hgraph]
  exact List.cons_ne_nil _ _

/-- The filters of the frame are one chain, unless there is a graph. -/
theorem values_chain (h : Waiting ops d) : values "-vf" (read d.rendered.arguments) =
    if d.graph.hasComplex = false ∧ ops.flatMap Operation.simpleFilters ≠ [] then
      [Text.join "," (ops.flatMap Operation.simpleFilters)] else [] := by
  rw [h.values_rendered _ (by decide), ← h.simple]
  rcases hgraph : d.graph.hasComplex with _ | _
  · rw [Draft.read_ending_of_simple hgraph]
    cases d.simple <;> cases d.dropsAudio <;> simp [values, valueOf?]
  · rw [Draft.read_ending hgraph]
    cases hd : d.dropsAudio <;> simp [values, valueOf?, Draft.audioMaps, hd]

/-- Beside a graph the build warns of all filters of the frame. -/
theorem leftOutWarning_eq (h : Waiting ops d) : d.leftOutWarning =
    if d.graph.hasComplex = true ∧ ops.flatMap Operation.simpleFilters ≠ [] then
      [leftOut (ops.flatMap Operation.simpleFilters).length
        (Text.join "," (ops.flatMap Operation.simpleFilters))] else [] := by
  unfold Draft.leftOutWarning
  rw [FilterGraph.simpleText_eq, h.graph, h.simple]
  rcases d.graph.hasComplex with _ | _
  · rfl
  · cases ops.flatMap Operation.simpleFilters <;> rfl

/-- The options for video filters are no more than the words that the build counts. -/
theorem length_options_le : (values "-filter:v" (read d.rendered.arguments) ++
    values "-vf" (read d.rendered.arguments) ++
      values "-filter_complex" (read d.rendered.arguments)).length ≤ d.rendered.videoFilterCount := by
  rw [List.length_append, List.length_append]
  exact Nat.add_le_add (Nat.add_le_add (length_values_read_le _ _) (length_values_read_le _ _))
    (length_values_read_le _ _)

end Waiting

/-- **Reported filters.** The first build behind calls that succeed gives a command that sets the
    filters of speed and colour at once. The filters of the frame are one chain, in the order of the
    calls, unless there is a graph; beside a graph none of them is in the command, and the build warns
    of all of them. If the command has more than one option for video filters, the build warns of at
    least as many. It logs nothing else. -/
theorem build_reports {o : SessionOptions} {host : Host} {calls : List Call} {s s' : Session}
    {c : Command} (hcalls : (sequence calls).perform (start o host) = (.ok (), s))
    (hbuild : build.perform s = (.ok c, s')) :
    let ops := calls.flatMap Call.accepted
    let frames := ops.flatMap Operation.simpleFilters
    let graph := values "-filter_complex" c.read
    values "-filter:v" c.read = ops.flatMap Operation.filterOptions ∧
    values "-vf" c.read = (if graph = [] ∧ frames ≠ [] then [Text.join "," frames] else []) ∧
    ∃ count, (values "-filter:v" c.read ++ values "-vf" c.read ++ graph).length ≤ count ∧
      s'.host.logged = s.host.logged ++ Log.warningLines
        ((if graph ≠ [] ∧ frames ≠ [] then [leftOut frames.length (Text.join "," frames)] else []) ++
          if 1 < count then [repeated count] else []) := by
  intro ops frames graph
  have h : Waiting ops s.draft := waiting_of_sequence hcalls
  obtain ⟨-, -, hread⟩ := build_ok hbuild h.isBuilt h.isOpen
  have hgraph : graph ≠ [] ↔ s.draft.graph.hasComplex = true := by
    rw [← h.values_graph_iff, ← hread]
  have hnone : graph = [] ↔ s.draft.graph.hasComplex = false := by
    rw [← Bool.not_eq_true, ← hgraph, not_not]
  refine ⟨hread ▸ h.values_filter, ?_, s.draft.rendered.videoFilterCount, ?_, ?_⟩
  · rw [hread, h.values_chain]
    simp only [hnone, frames]
  · rw [show graph = values "-filter_complex" c.read from rfl, hread]
    exact Waiting.length_options_le
  · rw [logged_of_build hbuild h.isBuilt, Draft.warnings, h.leftOutWarning_eq,
      Draft.repeatedFilterWarning_eq]
    simp only [hgraph, frames]

/-- A crop, a change of speed and a title: the crop is left out, and two filters override each
    other. -/
theorem build_reports_crop_speed_and_title :
    let o : SessionOptions := ⟨"ffmpeg", "/tmp", true, true⟩
    let calls : List Call := [.input "in.mp4", .add (.crop { width := 64, height := 32 }),
      .add (.speed ⟨2⟩), .add (.caption { text := "Title" }), .output "out.mp4" {}]
    ∃ s s' c, (sequence calls).perform (start o {}) = (.ok (), s) ∧ build.perform s = (.ok c, s') ∧
      values "-filter:v" c.read = ["setpts=PTS/2"] ∧ values "-vf" c.read = [] ∧
      ∃ count, 1 < count ∧ s'.host.logged = s.host.logged ++
        Log.warningLines [leftOut 1 "crop=64:32:0:0", repeated count] := by
  intro o calls
  have hcalls := Action.perform_of_isOk
    (show ((sequence calls).perform (start o {})).1.isOk = true by decide +kernel)
  obtain ⟨c, hbuild, hgraph⟩ := Action.perform_of_any
    (show ((build.perform ((sequence calls).perform (start o {})).2).1.toOption.any
      fun c => decide (values "-filter_complex" c.read ≠ [])) = true by decide +kernel)
  obtain ⟨hdirect, hchain, count, hcount, hlogged⟩ := build_reports hcalls hbuild
  have hframes : (calls.flatMap Call.accepted).flatMap Operation.simpleFilters =
      ["crop=64:32:0:0"] := by decide +kernel
  have hfilter : (calls.flatMap Call.accepted).flatMap Operation.filterOptions =
      ["setpts=PTS/2"] := by decide +kernel
  have htwo : 1 < count := by
    have hone := List.length_pos_iff.mpr hgraph
    rw [hdirect, hfilter, List.length_append, List.length_append] at hcount
    simp only [List.length_cons, List.length_nil] at hcount
    omega
  rw [hframes] at hlogged hchain
  rw [if_neg fun h => hgraph h.1] at hchain
  rw [if_pos ⟨hgraph, List.cons_ne_nil _ _⟩, if_pos htwo] at hlogged
  exact ⟨_, _, c, hcalls, hbuild, hdirect.trans hfilter, hchain, count, htwo, hlogged⟩

end Session

end Montage

import Mathlib.Data.List.Induction
import Montage.Proofs.Sketch

/-!
# The main stream of a graph

Two things follow the main stream through a graph: the text of the graph, which puts its label in
where a filter reads it, and the label that is mapped to the output. They agree for every graph
that calls can make, whatever texts, kinds and labels the calls give.

Results:
* `FilterGraph.Call.apply_eq`: a call appends one filter or none, and a filter always has an output.
* `FilterGraph.foldl_passStep`: one pass that puts labels in as it goes ends with the text of the
  graph and with the label that is mapped.
* `FilterGraph.followsMain_after`: what appending a filter does to both.
-/

namespace Montage.FilterGraph

/-! ## Calls -/

/-- A call that changes a graph. -/
inductive Call where
  | add (text : String) (kind : FilterKind) (inputs outputs : List String)
  | addSource (text : String) (inputs outputs : List String)
  | allocate (stem : String)
  | reset

namespace Call

/-- The graph after a call. A source that is refused leaves it as it was. -/
def apply (g : FilterGraph) : Call → FilterGraph
  | add text kind inputs outputs => g.add text kind inputs outputs
  | addSource text inputs outputs => (g.addSource text inputs outputs).toOption.getD g
  | allocate stem => (g.allocate stem).2
  | reset => {}

/-- The filter that a call appends, if it appends one. -/
def filter? (g : FilterGraph) : Call → Option Filter
  | add text kind inputs outputs =>
    some ⟨text, kind, inputs,
      if outputs.isEmpty then [label (stem kind) g.nextLabel] else outputs, false⟩
  | addSource text inputs outputs =>
    if outputs.isEmpty then none else some ⟨text, .complex, inputs, outputs, true⟩
  | allocate _ | reset => none

variable {g : FilterGraph} {c : Call} {f : Filter}

/-- Apart from the counter a call appends its filter and does nothing else, unless it clears the
    graph. -/
theorem apply_eq (g : FilterGraph) (c : Call) :
    c = reset ∨ ∃ n, c.apply g = ⟨g.filters ++ (c.filter? g).toList, n⟩ := by
  cases c with
  | add text kind inputs outputs =>
    right
    by_cases ho : outputs.isEmpty = true
    · exact ⟨g.nextLabel + 1, by simp only [apply, FilterGraph.add, filter?, ho, if_true]; rfl⟩
    · exact ⟨g.nextLabel, by
        simp only [apply, FilterGraph.add, filter?, ho, if_false, Bool.false_eq_true]; rfl⟩
  | addSource text inputs outputs =>
    right
    refine ⟨g.nextLabel, ?_⟩
    by_cases ho : outputs.isEmpty = true
    · simp [apply, FilterGraph.addSource, filter?, ho, Except.toOption]
    · simp [apply, FilterGraph.addSource, filter?, ho, Except.toOption, append]
  | allocate stem => exact .inr ⟨g.nextLabel + 1, by simp [apply, FilterGraph.allocate, filter?]⟩
  | reset => exact .inl rfl

theorem outputs_ne_nil_of_filter? (h : c.filter? g = some f) : f.outputs ≠ [] := by
  cases c with
  | add text kind inputs outputs =>
    cases h
    by_cases ho : outputs.isEmpty = true
    · simp [ho]
    · simp only [ho, if_false, Bool.false_eq_true]
      simpa using ho
  | addSource text inputs outputs =>
    by_cases ho : outputs.isEmpty = true
    · simp [filter?, ho] at h
    · simp only [filter?, ho, if_false, Bool.false_eq_true] at h
      cases h
      simpa using ho
  | allocate stem => cases h
  | reset => cases h

/-- The graph after a call that appends a filter, up to the counter. -/
theorem apply_of_filter? (h : c.filter? g = some f) : ∃ n, c.apply g = ⟨g.filters ++ [f], n⟩ := by
  rcases c.apply_eq g with rfl | ⟨n, hn⟩
  · cases h
  · exact ⟨n, by rw [hn, h]; rfl⟩

end Call

/-- The graph that calls make, one after the other. -/
def after (calls : List Call) : FilterGraph := calls.foldl Call.apply {}

/-- Every filter of a graph that calls made has an output. -/
theorem outputs_ne_nil_after (calls : List Call) : ∀ f ∈ (after calls).filters, f.outputs ≠ [] := by
  induction calls using List.reverseRecOn with
  | nil => rintro f ⟨⟩
  | append_singleton calls c ih =>
    intro f hf
    rw [after, List.foldl_append, List.foldl_cons, List.foldl_nil] at hf
    rcases c.apply_eq (after calls) with rfl | ⟨n, hn⟩
    · cases hf
    · change f ∈ (c.apply (after calls)).filters at hf
      rw [hn] at hf
      rcases List.mem_append.mp hf with hf | hf
      · exact ih f hf
      · exact Call.outputs_ne_nil_of_filter? (Option.mem_toList.mp hf)

/-! ## One pass -/

/-- A pass over the filters of a graph: the text so far, and the label of the main stream. -/
structure Pass where
  text : String := ""
  main : String := mainVideo

namespace Pass

/-- Puts one more label behind labels that were read, the main stream in place of its name, and
    notes whether the main stream was read. -/
def putLabel (main : String) (read : String × Bool) (label : String) : String × Bool :=
  if label = mainVideo then (read.1 ++ main, true) else (read.1 ++ label, read.2)

/-- The labels that a filter reads, as one text, and whether it moves the main stream. -/
def readLabels (main : String) (f : Filter) : String × Bool :=
  if f.isSource then (String.join f.inputs, true)
  else if f.inputs.isEmpty then (main, true)
  else f.inputs.foldl (putLabel main) ("", false)

/-- Passes over one complex filter. -/
def step (p : Pass) (f : Filter) : Pass :=
  let (labels, moves) := readLabels p.main f
  { text := joinSegment p.text (labels ++ f.text ++ String.join f.outputs)
    main := if moves then f.outputs.headD p.main else p.main }

theorem foldl_putLabel (main : String) (labels : List String) (read : String × Bool) :
    labels.foldl (putLabel main) read =
      (read.1 ++ String.join (labels.map fun l => if l = mainVideo then main else l),
        read.2 || labels.contains mainVideo) := by
  induction labels generalizing read with
  | nil => simp
  | cons l labels ih =>
    rw [List.foldl_cons, ih, putLabel]
    by_cases hl : l = mainVideo
    · subst hl
      simp [String.join_cons, String.append_assoc]
    · have hne : ¬ mainVideo = l := fun h => hl h.symm
      simp [hl, hne, String.join_cons, String.append_assoc]

/-- The flag that the pass carries says the same as a look through the inputs. -/
theorem readLabels_eq (main : String) (f : Filter) :
    readLabels main f = (String.join (f.resolvedInputs main), f.readsMain) := by
  unfold readLabels Filter.resolvedInputs Filter.readsMain
  cases hs : f.isSource with
  | true => simp
  | false =>
    by_cases hi : f.inputs.isEmpty = true
    · simp [hi, String.join]
    · simp [hi, foldl_putLabel]

theorem step_eq (p : Pass) (f : Filter) :
    p.step f = ⟨joinSegment p.text (Segment.render ⟨f.resolvedInputs p.main, f.text, f.outputs⟩),
      f.mainAfter p.main⟩ := by
  rw [step, readLabels_eq]
  rfl

end Pass

/-- A pass does what threading does, and ends with the label of the main stream. -/
theorem foldl_passStep (fs : List Filter) (p : Pass) :
    fs.foldl Pass.step p =
      ⟨((thread p.main fs).map Segment.render).foldl joinSegment p.text, mainOf p.main fs⟩ := by
  induction fs generalizing p with
  | nil => rfl
  | cons f fs ih =>
    rw [List.foldl_cons, ih, Pass.step_eq]
    rfl

/-! ## Appending a filter -/

variable {g : FilterGraph} {f : Filter}

/-- The text of a graph, empty if there is none, is that of its segments. -/
theorem getD_complexText (g : FilterGraph) :
    g.complexText.getD "" = (g.segments.map Segment.render).foldl joinSegment "" := by
  unfold complexText
  by_cases h : g.hasComplex = true
  · simp [h]
  · have hnil : g.segments = [] := by
      by_contra hne
      exact h (hasComplex_iff.mpr hne)
    simp [h, hnil]

theorem complexText_append_simple (h : f.kind = .simple) :
    (g.append f).complexText = g.complexText := by
  unfold complexText hasComplex segments
  rw [complexFilters_append_simple h]

theorem mainLabel_append_simple (h : f.kind = .simple) : (g.append f).mainLabel = g.mainLabel := by
  rw [mainLabel, complexFilters_append_simple h, mainLabel]

/-- A complex filter puts its segment behind the text. -/
theorem complexText_append_complex (h : f.kind = .complex) :
    (g.append f).complexText = some (joinSegment (g.complexText.getD "")
      (Segment.render ⟨f.resolvedInputs g.mainLabel, f.text, f.outputs⟩)) := by
  have hhas : (g.append f).hasComplex = true := by
    rw [hasComplex_iff, segments_append_complex h]
    simp
  rw [complexText, if_pos hhas, segments_append_complex h, List.map_append, List.foldl_append,
    ← getD_complexText]
  rfl

theorem joinSegment_eq (text segment : String) :
    joinSegment text segment = text ++ (if text = "" then "" else ";") ++ segment := by
  unfold joinSegment
  by_cases h : text = ""
  · simp [h]
  · simp [h]

/-- How the text of a graph and its main stream go together, and what calls do to both. -/
structure FollowsMain (g : FilterGraph) : Prop where
  /-- Every filter writes a stream. -/
  writes : ∀ f ∈ g.filters, f.outputs ≠ []
  /-- One pass over the filters ends with the text and with the label that is mapped. -/
  pass : g.complexFilters.foldl Pass.step {} = ⟨g.complexText.getD "", g.mainLabel⟩
  /-- A call appends its filter, and only a reset takes filters away. -/
  appends : ∀ c : Call, c ≠ .reset → (c.apply g).filters = g.filters ++ (c.filter? g).toList
  /-- A complex filter without inputs reads the main stream. -/
  reads : ∀ text outputs, outputs ≠ [] →
    (g.add text .complex [] outputs).complexText = some (g.complexText.getD "" ++
      (if g.complexText.getD "" = "" then "" else ";") ++
      (g.mainLabel ++ text ++ String.join outputs))
  /-- A simple filter changes neither. -/
  simple : ∀ text inputs outputs,
    (g.add text .simple inputs outputs).complexText = g.complexText ∧
      (g.add text .simple inputs outputs).mainLabel = g.mainLabel
  /-- A label that is taken changes neither. -/
  allocate : ∀ stem, (g.allocate stem).2.complexText = g.complexText ∧
    (g.allocate stem).2.mainLabel = g.mainLabel
  /-- A complex filter moves the main stream to its first output just if it is a source, has no
      inputs or names the main stream. -/
  moves : ∀ (c : Call) (f : Filter), c.filter? g = some f → f.kind = .complex →
    some (c.apply g).mainLabel =
      if f.isSource = true ∨ f.inputs = [] ∨ mainVideo ∈ f.inputs then f.outputs.head?
      else some g.mainLabel
  /-- So the label that is mapped changes just then, unless the first output is that label. -/
  changes : ∀ (c : Call) (f : Filter), c.filter? g = some f → f.kind = .complex →
    ((c.apply g).mainLabel ≠ g.mainLabel ↔
      (f.isSource = true ∨ f.inputs = [] ∨ mainVideo ∈ f.inputs) ∧
        f.outputs.head? ≠ some g.mainLabel)

theorem readsMain_iff : f.readsMain = true ↔
    f.isSource = true ∨ f.inputs = [] ∨ mainVideo ∈ f.inputs := by
  simp [Filter.readsMain, or_assoc]

/-- A complex filter that a call appends moves the main stream as it says. -/
theorem mainLabel_apply {c : Call} (hc : c.filter? g = some f) (hf : f.kind = .complex) :
    some (c.apply g).mainLabel =
      if f.isSource = true ∨ f.inputs = [] ∨ mainVideo ∈ f.inputs then f.outputs.head?
      else some g.mainLabel := by
  obtain ⟨n, hn⟩ := Call.apply_of_filter? hc
  obtain ⟨first, rest, ho⟩ := List.exists_cons_of_ne_nil (Call.outputs_ne_nil_of_filter? hc)
  have hmain : (c.apply g).mainLabel = f.mainAfter g.mainLabel := by
    rw [hn, ← mainLabel_append_complex hf]
    rfl
  rw [hmain, Filter.mainAfter]
  simp only [readsMain_iff, ho, List.headD_cons, List.head?_cons]
  split <;> rfl

/-- **Rendering and mapping.** In every graph that calls make, the text and the mapped label follow
    one main stream: what is appended reads the label that would be mapped before it. -/
theorem followsMain_after (calls : List Call) : FollowsMain (after calls) := by
  generalize hg : after calls = g
  constructor
  case writes => rw [← hg]; exact outputs_ne_nil_after calls
  case pass =>
    rw [foldl_passStep, getD_complexText]
    rfl
  case appends =>
    intro c hc
    rcases c.apply_eq g with rfl | ⟨n, hn⟩
    · exact absurd rfl hc
    · rw [hn]
  case reads =>
    intro text outputs ho
    have hadd : g.add text .complex [] outputs = g.append ⟨text, .complex, [], outputs, false⟩ := by
      simp [add, ho]
    rw [hadd, complexText_append_complex rfl, joinSegment_eq]
    simp [Segment.render, Filter.resolvedInputs]
  case simple =>
    intro text inputs outputs
    let c : Call := .add text .simple inputs outputs
    obtain ⟨n, hn⟩ := Call.apply_of_filter? (show c.filter? g = some _ from rfl)
    change (c.apply g).complexText = _ ∧ (c.apply g).mainLabel = _
    rw [hn]
    exact ⟨complexText_append_simple rfl, mainLabel_append_simple rfl⟩
  case allocate => exact fun stem => ⟨rfl, rfl⟩
  case moves => exact fun c f hc hf => mainLabel_apply hc hf
  case changes =>
    intro c f hc hf
    have hmain := mainLabel_apply hc hf
    rw [ne_eq, ← Option.some_inj, hmain]
    split <;> simp_all

end Montage.FilterGraph

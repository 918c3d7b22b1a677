import Montage.Proofs.Edit
import Montage.Proofs.Label

/-!
# Sketches of a graph

Of the graph in a draft only its segments, its main stream, its counter and the audio decide how
streams are wired. A sketch is just that, and each edit changes it in a simple way. Whatever is
proved about the wiring of a graph is proved on sketches.

* `Draft.sketch`: the sketch of a draft.
* `Edit.draw`: the sketch that an edit makes of another.
* `Edit.Makes.sketch_eq`: an edit of a draft changes its sketch in this way.
* `Edit.draw_segments`: it leaves the segments that are there.
-/

namespace Montage

open FilterGraph (label)
open Concatenation (streamLabel)

/-! ## Threading -/

namespace FilterGraph

/-- The label of the main stream after a row of filters. -/
def mainOf (main : String) (fs : List Filter) : String :=
  fs.foldl (fun m f => f.mainAfter m) main

theorem thread_append (main : String) (fs gs : List Filter) :
    thread main (fs ++ gs) = thread main fs ++ thread (mainOf main fs) gs := by
  induction fs generalizing main with
  | nil => rfl
  | cons f fs ih => simp only [List.cons_append, thread, ih]; rfl

variable {g : FilterGraph} {f : Filter}

theorem complexFilters_append_simple (h : f.kind = .simple) :
    (g.append f).complexFilters = g.complexFilters := by
  simp [append, complexFilters, h]

theorem complexFilters_append_complex (h : f.kind = .complex) :
    (g.append f).complexFilters = g.complexFilters ++ [f] := by
  simp [append, complexFilters, h]

theorem segments_append_complex (h : f.kind = .complex) :
    (g.append f).segments = g.segments ++ [⟨f.resolvedInputs g.mainLabel, f.text, f.outputs⟩] := by
  rw [segments, complexFilters_append_complex h, thread_append]
  rfl

theorem mainLabel_append_complex (h : f.kind = .complex) :
    (g.append f).mainLabel = f.mainAfter g.mainLabel := by
  rw [mainLabel, complexFilters_append_complex h, List.foldl_append]
  rfl

theorem length_thread (main : String) (fs : List Filter) : (thread main fs).length = fs.length := by
  induction fs generalizing main with
  | nil => rfl
  | cons f fs ih => simp only [thread, List.length_cons, ih]

/-- There are segments just if there are complex filters. -/
theorem hasComplex_iff : g.hasComplex = true ↔ g.segments ≠ [] := by
  have := length_thread mainVideo g.complexFilters
  rw [hasComplex, segments, ← List.length_pos_iff, this]
  simp [List.length_pos_iff]

end FilterGraph

/-! ## Sketches -/

structure Sketch where
  segments : List Segment := []
  main : String := mainVideo
  counter : Nat := 0
  audio : Option String := none
  dropsAudio : Bool := false

namespace Sketch

/-- A complex filter with the labels that it reads and writes. -/
def put (s : Sketch) (f : Filter) : Sketch :=
  { s with
    segments := s.segments ++ [⟨f.resolvedInputs s.main, f.text, f.outputs⟩]
    main := f.mainAfter s.main }

/-- A label is taken. -/
def skipLabel (s : Sketch) : Sketch := { s with counter := s.counter + 1 }

/-- A segment that writes a fresh label, which becomes the main stream. -/
def lay (s : Sketch) (inputs : List String) (text : String) : Sketch :=
  { s with
    segments := s.segments ++ [⟨inputs, text, [label "out" s.counter]⟩]
    main := label "out" s.counter
    counter := s.counter + 1 }

/-- What a filter reads that asks for the video of an input. The video of the first input is the
    name of the main stream. -/
def videoOf (s : Sketch) (n : Nat) : String := if n = 0 then s.main else streamLabel "v" n

/-- A segment that prepares the source of an overlay. The first input is taken for the main
    stream, so the prepared source replaces it. -/
def prepare (s : Sketch) (n : Nat) (text : String) : Sketch :=
  { s with
    segments := s.segments ++ [⟨[s.videoOf n], text, [label "ovl" s.counter]⟩]
    main := if n = 0 then label "ovl" s.counter else s.main
    counter := s.counter + 1 }

/-- An overlay whose source is the input with number `n`. -/
def overlay (s : Sketch) (o : Overlay) (text : String) (n : Nat) : Sketch :=
  if o.sourceFilter.isEmpty then s.lay [s.main, s.videoOf n] text
  else
    let p := s.prepare n o.sourceFilter
    p.lay [p.main, label "ovl" s.counter] text

/-- A concatenation of the inputs from number `n` on. -/
def join (s : Sketch) (c : Concatenation) (n : Nat) : Sketch :=
  let f := c.joinFilter (List.range' n c.inputs.length)
  { s with
    segments := s.segments ++ [⟨f.inputs, f.text, f.outputs⟩]
    main := "[outv]"
    audio := if c.videoOnly then none else some "[outa]"
    dropsAudio := c.videoOnly }

end Sketch

def Draft.sketch (d : Draft) : Sketch :=
  { segments := d.graph.segments
    main := d.graph.mainLabel
    counter := d.graph.nextLabel
    audio := d.audio
    dropsAudio := d.dropsAudio }

/-- The text that was rendered, empty if it could not be. -/
def textOf (rendered : Except Failure String) : String := rendered.toOption.getD ""

/-- The sketch after an operation on a host; `n` is the number of the next input. -/
def Operation.draw (h : Host) (n : Nat) (s : Sketch) : Operation → Sketch
  | resize _ | crop _ | rotate _ => s.skipLabel
  | caption c => s.lay [s.main] (textOf (c.filterText h))
  | overlay o => s.overlay o (textOf (o.overlayFilter h)) n
  | concat c =>
    match c.strategy with
    | .filter => s.join c n
    | .demuxer => s
  | trim _ | speed _ | adjustColor _ | encode _ => s

/-- The sketch after an edit. -/
def Edit.draw (n : Nat) (s : Sketch) : Edit → Sketch
  | input _ | output .. => s
  | operation op host _ => op.draw host n s

/-! ## Filters on sketches -/

namespace Sketch

variable (s : Sketch)

/-- A filter that reads the main stream and writes the next label. -/
theorem put_out {text : String} {inputs : List String}
    (h : inputs.isEmpty = true ∨ mainVideo ∈ inputs) :
    s.skipLabel.put ⟨text, .complex, inputs, [label "out" s.counter], false⟩ =
      s.lay (Filter.resolvedInputs ⟨text, .complex, inputs, [], false⟩ s.main) text := by
  have hmain :
      Filter.readsMain ⟨text, .complex, inputs, [label "out" s.counter], false⟩ = true := by
    simpa [Filter.readsMain] using h
  simp only [put, Filter.mainAfter, hmain, if_true]
  rfl

theorem put_caption (text : String) :
    s.skipLabel.put ⟨text, .complex, [], [label "out" s.counter], false⟩ = s.lay [s.main] text :=
  s.put_out (.inl rfl)

theorem map_resolve_streamLabel (n : Nat) :
    (if streamLabel "v" n = mainVideo then s.main else streamLabel "v" n) = s.videoOf n := by
  simp only [streamLabel_eq_mainVideo_iff, videoOf]

theorem put_overlay_raw (text : String) (n : Nat) :
    s.skipLabel.put ⟨text, .complex, [mainVideo, streamLabel "v" n], [label "out" s.counter],
      false⟩ = s.lay [s.main, s.videoOf n] text := by
  rw [put_out s (.inr List.mem_cons_self)]
  simp [Filter.resolvedInputs, map_resolve_streamLabel]

/-- The label of a prepared source is not the name of the main stream. -/
theorem put_overlay_prepared (text : String) (k : Nat) :
    s.skipLabel.put ⟨text, .complex, [mainVideo, label "ovl" k], [label "out" s.counter],
      false⟩ = s.lay [s.main, label "ovl" k] text := by
  rw [put_out s (.inr List.mem_cons_self)]
  have hne : label "ovl" k ≠ mainVideo := (Written.ovl (Nat.lt_succ_self k)).ne_mainVideo
  simp [Filter.resolvedInputs, hne]

/-- The video of the first input is taken for the main stream. -/
theorem put_prepare (text : String) (n : Nat) :
    s.skipLabel.put ⟨text, .complex, [streamLabel "v" n], [label "ovl" s.counter], false⟩ =
      s.prepare n text := by
  have hreads : Filter.readsMain
      ⟨text, .complex, [streamLabel "v" n], [label "ovl" s.counter], false⟩ = true ↔ n = 0 := by
    rw [← streamLabel_eq_mainVideo_iff]
    simp [Filter.readsMain, eq_comm]
  simp only [put, Filter.mainAfter, hreads, prepare]
  simp [Filter.resolvedInputs, skipLabel, map_resolve_streamLabel]

/-- A source reads its inputs literally and becomes the main stream. -/
theorem put_joinFilter (c : Concatenation) (n : Nat) :
    { s.put (c.joinFilter (List.range' n c.inputs.length)) with
      audio := if c.videoOnly then none else some "[outa]", dropsAudio := c.videoOnly } =
      s.join c n := by
  cases hv : c.videoOnly <;>
    simp [put, join, Concatenation.joinFilter, hv, Filter.resolvedInputs, Filter.mainAfter,
      Filter.readsMain]

end Sketch

/-! ## The sketch of an edited draft -/

namespace Draft

variable (d : Draft)

theorem sketch_append {f : Filter} (h : f.kind = .complex) :
    { d with graph := d.graph.append f }.sketch = d.sketch.put f := by
  simp only [sketch, FilterGraph.segments_append_complex h, FilterGraph.mainLabel_append_complex h]
  rfl

theorem sketch_addSimple (text : String) : (d.addSimple text).sketch = d.sketch.skipLabel := by
  have h : ((d.graph.allocate "temp").2.append
      ⟨text, .simple, [], [(d.graph.allocate "temp").1], false⟩).complexFilters =
        d.graph.complexFilters := FilterGraph.complexFilters_append_simple rfl
  simp only [addSimple, addToGraph, FilterGraph.add, List.isEmpty_nil, if_true, FilterGraph.stem,
    sketch, FilterGraph.segments, FilterGraph.mainLabel, h]
  rfl

/-- A complex filter without an output takes the next label. -/
theorem sketch_addComplex (text : String) (inputs : List String) :
    (d.addComplex text inputs).sketch =
      d.sketch.skipLabel.put ⟨text, .complex, inputs, [label "out" d.graph.nextLabel], false⟩ :=
  sketch_append { d with graph := { d.graph with nextLabel := d.graph.nextLabel + 1 } } rfl

end Draft

/-- The source of an overlay is prepared under the next label. -/
theorem Overlay.sketch_takeSource {o : Overlay} {d : Draft}
    (h : ¬ o.sourceFilter.isEmpty = true) :
    (o.takeSource d).1 = label "ovl" d.sketch.counter ∧
      (o.takeSource d).2.sketch = d.sketch.prepare d.command.inputCount o.sourceFilter := by
  unfold takeSource
  simp only [h, if_false, Bool.false_eq_true]
  refine ⟨rfl, ?_⟩
  rw [← Sketch.put_prepare]
  exact Draft.sketch_append ((d.addInput o.source).2.allocate "ovl").2 rfl

theorem Overlay.sketch_laidOver (o : Overlay) (text : String) (d : Draft) :
    (o.laidOver text d).sketch = d.sketch.overlay o text d.command.inputCount := by
  unfold laidOver Sketch.overlay
  rw [Draft.sketch_addComplex]
  by_cases h : o.sourceFilter.isEmpty = true
  · simp only [takeSource, h, if_true]
    exact d.sketch.put_overlay_raw text d.command.inputCount
  · obtain ⟨hlabel, hsketch⟩ := sketch_takeSource (d := d) h
    simp only [h, if_false, Bool.false_eq_true]
    rw [hlabel, hsketch, ← Sketch.put_overlay_prepared, ← hsketch]
    rfl

theorem Concatenation.sketch_joined (c : Concatenation) (d : Draft) :
    (c.joined d).sketch = d.sketch.join c d.command.inputCount := by
  obtain ⟨extra, hd⟩ := addInputs_draft c.inputs d
  have hgraph : (addInputs c.inputs d).2.sketch = d.sketch := by rw [hd]; rfl
  rw [← Sketch.put_joinFilter, ← addInputs_numbers c.inputs d, ← hgraph,
    ← Draft.sketch_append _ (f := c.joinFilter (addInputs c.inputs d).1) (by
      unfold joinFilter; cases c.videoOnly <;> rfl)]
  unfold joined
  cases hv : c.videoOnly <;> rfl

/-- An edit changes the sketch of a draft by what it draws. -/
theorem Edit.Makes.sketch_eq {e : Edit} {d d' : Draft} (h : e.Makes d d') :
    d'.sketch = e.draw d.command.inputCount d.sketch := by
  cases e with
  | input path => cases h; rfl
  | output path options => cases h; rfl
  | operation op host list =>
    obtain ⟨-, h⟩ := h
    cases op with
    | resize r => obtain ⟨text, -, rfl⟩ := h; exact d.sketch_addSimple text
    | crop c => cases h; exact d.sketch_addSimple _
    | rotate r => cases h; exact d.sketch_addSimple _
    | caption c =>
      obtain ⟨text, ht, rfl⟩ := h
      simp only [draw, Operation.draw, ht, textOf]
      rw [Draft.sketch_addComplex]
      exact d.sketch.put_caption text
    | overlay o =>
      obtain ⟨text, ht, rfl⟩ := h
      simp only [draw, Operation.draw, ht, textOf]
      exact o.sketch_laidOver text d
    | concat c =>
      simp only [Operation.Edits] at h
      simp only [draw, Operation.draw]
      rcases hs : c.strategy with _ | _
      · simp only [hs] at h
        rw [h]; exact c.sketch_joined d
      · simp only [hs] at h
        obtain ⟨-, path, -, rfl⟩ := h; rfl
    | trim t => cases h; rfl
    | speed s => cases h; rfl
    | adjustColor a => cases h; rfl
    | encode e => cases h; rfl

/-! ## What an edit appends -/

/-- An edit leaves the segments that are there and appends its own. -/
theorem Edit.draw_segments (e : Edit) (n : Nat) (s : Sketch) :
    ∃ rest, (e.draw n s).segments = s.segments ++ rest := by
  have same : ∃ rest, s.segments = s.segments ++ rest := ⟨[], by simp⟩
  cases e with
  | operation op host list =>
    cases op with
    | caption c => exact ⟨_, rfl⟩
    | overlay o =>
      simp only [Edit.draw, Operation.draw, Sketch.overlay]
      by_cases ho : o.sourceFilter.isEmpty = true
      · simp only [ho, if_true]; exact ⟨_, rfl⟩
      · simp only [ho, if_false, Bool.false_eq_true]
        exact ⟨_, List.append_assoc ..⟩
    | concat c =>
      simp only [Edit.draw, Operation.draw]
      cases c.strategy with
      | filter => exact ⟨_, rfl⟩
      | demuxer => exact same
    | _ => exact same
  | _ => exact same

theorem Edits.segments {d d' : Draft} {es : List Edit} (h : Edits d es d') :
    ∃ rest, d'.graph.segments = d.graph.segments ++ rest := by
  induction es generalizing d with
  | nil => cases h; exact ⟨[], by simp⟩
  | cons e es ih =>
    obtain ⟨m, he, hes⟩ := h
    obtain ⟨last, hlast⟩ := ih hes
    obtain ⟨first, hfirst⟩ := e.draw_segments d.command.inputCount d.sketch
    have hm : m.graph.segments = d.graph.segments ++ first := by
      rw [← he.sketch_eq] at hfirst; exact hfirst
    exact ⟨first ++ last, by rw [hlast, hm, List.append_assoc]⟩

end Montage

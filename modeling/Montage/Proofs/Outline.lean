import Montage.Proofs.Build
import Montage.Proofs.ListFile
import Montage.Proofs.MainStream

/-!
# Outlines

Of a draft only its words, its number of inputs, the sketch of its graph and its simple filters decide
the arguments of the command that is built of it. Each operation changes this outline in a way that
depends on the settings of the host and on the next name for a list file, and on nothing else.

* `Draft.outline`: the outline of a draft.
* `Operation.outline`: the outline that an operation makes of another.
* `Operation.Renders`: the texts that an operation needs can be rendered.

Results:
* `Operation.foldl_outline_of_isPlain`: operations that add nothing but options and simple filters.
* `Draft.ending_of_segments`, `Draft.ending_of_no_segments`: the words for filters and audio.
* `Edit.Makes.outline_eq`: an edit of a draft changes its outline as the operation says.
* `Session.takes_of_keep`, `Session.takesAll_of_sequence`: so do the calls of a session that succeed.
-/

namespace Montage

open FilterGraph (label)

/-! ## Texts on a host -/

theorem Placement.distance_congr (p : Placement) {h h' : Host}
    (he : h'.environment = h.environment) : p.distance h' = p.distance h := by
  rw [distance, Settings.overlayPadding_congr he, distance]

theorem Caption.filterText_congr (c : Caption) {h h' : Host} (he : h'.environment = h.environment) :
    c.filterText h' = c.filterText h := by
  simp only [filterText, coordinates, Placement.distance_congr _ he]

theorem Overlay.overlayFilter_congr (o : Overlay) {h h' : Host}
    (he : h'.environment = h.environment) : o.overlayFilter h' = o.overlayFilter h := by
  simp only [overlayFilter, coordinates, Placement.distance_congr _ he]

/-! ## Outlines -/

/-- What of a draft decides the arguments of its command. -/
structure Outline where
  arguments : List String := []
  inputCount : Nat := 0
  sketch : Sketch := {}
  simple : List String := []

def Draft.outline (d : Draft) : Outline :=
  ⟨d.command.arguments, d.command.inputCount, d.sketch, d.simple⟩

/-- An output without options of its own is no part of the outline. -/
theorem Draft.outline_withOutput (d : Draft) (path : String) :
    (d.withOutput path {}).outline = d.outline := by
  have hoptions : OutputOptions.arguments {} = [] := rfl
  simp [outline, withOutput, Command.append, Command.setOutput, sketch, hoptions]

/-- The list file that a concatenation writes. -/
def Concatenation.listPath (h : Host) (c : Concatenation) : String :=
  Path.joinText c.tempFolder h.listName.1

namespace Operation

/-- The list file that an operation writes, if it writes one. -/
def listFile (h : Host) (op : Operation) : Option String :=
  op.list?.map (Concatenation.listPath h)

/-- The simple filters that an operation adds. -/
def simpleFilters : Operation → List String
  | resize r => r.filter?.toOption.join.toList
  | crop c => [c.filterText]
  | rotate r => [r.filterText]
  | _ => []

/-- The outline after an operation on a host. -/
def outline (h : Host) (op : Operation) (x : Outline) : Outline :=
  let inputs := op.inputs (op.listFile h)
  { arguments :=
      x.arguments ++ (op.listing ++ inputs.flatMap (fun path => ["-i", path]) ++ op.settings)
    inputCount := x.inputCount + inputs.length
    sketch := op.draw h x.inputCount x.sketch
    simple := x.simple ++ op.simpleFilters }

/-- The texts of the filters can be rendered on the host. -/
def Renders (h : Host) : Operation → Prop
  | resize r => ∃ text, r.filter? = .ok (some text)
  | caption c => ∃ text, c.filterText h = .ok text
  | overlay o => ∃ text, o.overlayFilter h = .ok text
  | _ => True

variable {h h' : Host} {op : Operation}

theorem draw_congr (he : h'.environment = h.environment) (op : Operation) (n : Nat) (s : Sketch) :
    op.draw h' n s = op.draw h n s := by
  cases op with
  | caption c => simp only [draw, c.filterText_congr he]
  | overlay o => simp only [draw, o.overlayFilter_congr he]
  | _ => rfl

/-- The outline depends on the settings, and on the next name for lists if one is written. -/
theorem outline_congr (he : h'.environment = h.environment) (hl : op.listFile h' = op.listFile h)
    (x : Outline) : op.outline h' x = op.outline h x := by
  simp only [outline, hl, op.draw_congr he]

theorem Renders.congr (he : h'.environment = h.environment) (hr : op.Renders h') : op.Renders h := by
  cases op with
  | caption c => simpa only [Renders, c.filterText_congr he] using hr
  | overlay o => simpa only [Renders, o.overlayFilter_congr he] using hr
  | _ => exact hr

theorem simpleFilters_resize {r : Resize} {text : String} (ht : r.filter? = .ok (some text)) :
    (resize r).simpleFilters = [text] := by
  simp only [simpleFilters, ht]
  rfl

end Operation

/-! ## Plain operations -/

/-- An outline with more options and simple filters. Each of the filters takes a label. -/
def Outline.extend (x : Outline) (settings filters : List String) : Outline :=
  { x with
    arguments := x.arguments ++ settings
    sketch := { x.sketch with counter := x.sketch.counter + filters.length }
    simple := x.simple ++ filters }

namespace Operation

variable {h : Host}

theorem list?_of_isPlain {op : Operation} (hp : op.isPlain = true) : op.list? = none := by
  cases op with
  | concat c => cases hp
  | _ => rfl

theorem outline_of_isPlain {op : Operation} (hp : op.isPlain = true) (hr : op.Renders h)
    (x : Outline) : op.outline h x = x.extend op.settings op.simpleFilters := by
  cases op with
  | resize r =>
    obtain ⟨text, ht⟩ := hr
    rw [outline, simpleFilters_resize ht]
    rfl
  | caption c => cases hp
  | overlay o => cases hp
  | concat c => cases hp
  | _ => rfl

theorem foldl_outline_of_isPlain {ops : List Operation}
    (hops : ∀ op ∈ ops, op.isPlain = true ∧ op.Renders h) (x : Outline) :
    ops.foldl (fun x op => op.outline h x) x =
      x.extend (ops.flatMap settings) (ops.flatMap simpleFilters) := by
  induction ops generalizing x with
  | nil => simp [Outline.extend]
  | cons op ops ih =>
    obtain ⟨⟨hp, hr⟩, hrest⟩ := List.forall_mem_cons.mp hops
    rw [List.foldl_cons, outline_of_isPlain hp hr, ih hrest]
    simp [Outline.extend, Nat.add_assoc]

end Operation

/-! ## The words for filters and audio -/

namespace FilterGraph

/-- Texts of which none is empty are joined with separators. -/
theorem foldl_joinSegment_cons {text : String} (h : text ≠ "") (texts : List String) :
    texts.foldl joinSegment text = Text.join ";" (text :: texts) := by
  induction texts generalizing text with
  | nil => simp [Text.join]
  | cons next texts ih =>
    have hjoin : joinSegment text next = text ++ ";" ++ next := by simp [joinSegment_eq, h]
    have hne : text ++ ";" ++ next ≠ "" := by simp
    rw [List.foldl_cons, hjoin, ih hne]
    cases texts with
    | nil => simp [Text.join, String.append_assoc]
    | cons last texts => simp [Text.join, String.append_assoc]

theorem foldl_joinSegment {texts : List String} (h : ∀ text ∈ texts, text ≠ "") :
    texts.foldl joinSegment "" = Text.join ";" texts := by
  cases texts with
  | nil => rfl
  | cons text texts => exact foldl_joinSegment_cons (h text List.mem_cons_self) texts

end FilterGraph

theorem label_ne_empty (stem : String) (n : Nat) : label stem n ≠ "" := by
  intro h
  have hl := congrArg String.toList h
  rw [label_toList] at hl
  cases hl

theorem Segment.render_ne_empty {s : Segment} {out : String} {rest : List String}
    (ho : s.outputs = out :: rest) (hne : out ≠ "") : s.render ≠ "" := by
  simp [render, ho, String.join_cons, hne]

namespace Draft

variable {d : Draft}

/-- With segments the command names the graph and its main stream, and maps or drops audio. -/
theorem ending_of_segments (hs : d.sketch.segments ≠ [])
    (hr : ∀ s ∈ d.sketch.segments, s.render ≠ "") :
    d.ending =
      ["-filter_complex", Text.join ";" (d.sketch.segments.map Segment.render), "-map",
        d.sketch.main] ++
        if d.sketch.dropsAudio then ["-an"] else ["-map", d.sketch.audio.getD "0:a?"] := by
  have hcomplex : d.graph.hasComplex = true := FilterGraph.hasComplex_iff.mpr hs
  have htexts : ∀ text ∈ d.graph.segments.map Segment.render, text ≠ "" := List.forall_mem_map.mpr hr
  have hgraph : d.graph.complexText = some (Text.join ";" (d.graph.segments.map Segment.render)) := by
    rw [FilterGraph.complexText, if_pos hcomplex, FilterGraph.foldl_joinSegment htexts]
  rw [ending, filterArguments, hgraph]
  simp only [graphArguments, sketch]
  by_cases hd : d.dropsAudio = true
  · simp [hd]
  · simp [hd]

/-- Without segments it has at most a chain of simple filters. -/
theorem ending_of_no_segments (hs : d.sketch.segments = []) (hd : d.sketch.dropsAudio = false) :
    d.ending = if d.simple.isEmpty then [] else ["-vf", Text.join "," d.simple] := by
  have hsimple : d.graph.hasComplex = false := by
    rw [← Bool.not_eq_true, FilterGraph.hasComplex_iff]
    exact fun hne => hne hs
  have hdrops : d.dropsAudio = false := hd
  simp [ending, filterArguments, FilterGraph.complexText, hsimple, hdrops]

end Draft

/-! ## Edits -/

theorem Overlay.laidOver_simple (o : Overlay) (text : String) (d : Draft) :
    (o.laidOver text d).simple = d.simple := by
  unfold laidOver takeSource
  by_cases h : o.sourceFilter.isEmpty = true
  · simp only [h, if_true]; rfl
  · simp only [h, if_false, Bool.false_eq_true]; rfl

theorem Concatenation.joined_simple (c : Concatenation) (d : Draft) :
    (c.joined d).simple = d.simple := by
  obtain ⟨extra, hd⟩ := addInputs_draft c.inputs d
  have hsimple : (addInputs c.inputs d).2.simple = d.simple := by rw [hd]
  rw [← hsimple]
  unfold joined
  cases c.videoOnly <;> rfl

namespace Edit

variable {op : Operation} {host : Host} {list : Option String} {d d' : Draft}

theorem Makes.simple_eq (h : (operation op host list).Makes d d') :
    d'.simple = d.simple ++ op.simpleFilters := by
  have same : d.simple = d.simple ++ [] := (List.append_nil _).symm
  obtain ⟨-, h⟩ := h
  cases op with
  | resize r =>
    obtain ⟨text, ht, rfl⟩ := h
    rw [Operation.simpleFilters_resize ht]
    rfl
  | crop c => cases h; rfl
  | rotate r => cases h; rfl
  | caption c => obtain ⟨text, -, rfl⟩ := h; exact same
  | overlay o => obtain ⟨text, -, rfl⟩ := h; rw [o.laidOver_simple]; exact same
  | concat c =>
    simp only [Operation.Edits] at h
    rcases hs : c.strategy with _ | _
    · simp only [hs] at h; rw [h, c.joined_simple]; exact same
    · simp only [hs] at h; obtain ⟨-, path, -, rfl⟩ := h; exact same
  | _ => cases h; exact same

/-- An operation changes the outline of a draft as its kind says. -/
theorem Makes.outline_eq (h : (operation op host list).Makes d d')
    (hl : op.inputs list = op.inputs (op.listFile host)) :
    d'.outline = op.outline host d.outline := by
  rw [Draft.outline, h.command_eq, h.sketch_eq, h.simple_eq, Operation.outline, ← hl]
  rfl

theorem Makes.renders (h : (operation op host list).Makes d d') : op.Renders host := by
  obtain ⟨-, h⟩ := h
  cases op with
  | resize r => obtain ⟨text, ht, -⟩ := h; exact ⟨text, ht⟩
  | caption c => obtain ⟨text, ht, -⟩ := h; exact ⟨text, ht⟩
  | overlay o => obtain ⟨text, ht, -⟩ := h; exact ⟨text, ht⟩
  | _ => exact trivial

end Edit

/-! ## Operations that are kept -/

/-- The list file stands in its folder under the next name for lists. -/
theorem Concatenation.writeList_path {c : Concatenation} {path : String} {h h' : Host}
    (hw : c.writeList.perform h = (.ok path, h')) : path = c.listPath h := by
  have hwrites := c.writesList h
  rw [hw] at hwrites
  cases hwrites with
  | @written m _ hm ht hwrite =>
    have hname : m.listName.1 = h.listName.1 := by
      obtain ⟨tree, htree⟩ := h.tree_of_makeFolders c.tempFolder
      rw [hm] at htree
      cases htree
      rfl
    rw [listPath, hname]

namespace Operation

variable {op : Operation}

/-- An operation that was added owns the list file that is named for it. -/
theorem inputs_of_add_ok {b b' : Bench} (h : (Bench.add op).perform b = (.ok (), b')) :
    op.inputs b'.listFile = op.inputs (op.listFile b.host) := by
  rcases hl : op.list? with _ | c
  · rw [inputs_of_list? hl, inputs_of_list? hl (op.listFile b.host)]
  obtain ⟨rfl, hs⟩ := list?_eq_some hl
  have hcheck : c.check b.host = .ok () := (Bench.add_ok h).1
  rw [Bench.perform_add] at h
  simp only [check, hcheck, apply, Concatenation.apply, hs] at h
  obtain ⟨path, host, hwrite, hlist, -⟩ := Concatenation.applyDemuxer_steps h
  rw [hlist, listFile, hl, c.writeList_path hwrite]
  rfl

end Operation

namespace Session

variable {s s' : Session}

/-- A message for debugging changes the log at most. -/
theorem debug_ok {message : String} (h : (onHost (Log.debug message)).perform s = (.ok (), s')) :
    ∃ logged, s' = { s with host := { s.host with logged } } := by
  rw [onHost, Action.perform_within, Log.perform_debug] at h
  rcases hd : Settings.debugging s.host with fault | wanted
  · rw [hd] at h; cases h
  · rw [hd] at h
    cases h
    cases wanted
    · exact ⟨s.host.logged, rfl⟩
    · exact ⟨_, rfl⟩

/-- A session that was given an input. -/
theorem setInput_eq {path : String} (h : (setInput path).perform s = (.ok (), s')) :
    ∃ logged, s' = { s with
      host := { s.host with logged }, draft := s.draft.withInput path, input := some path } := by
  unfold setInput at h
  rw [Action.perform_bind, Action.perform_get] at h
  cases hi : s.input with
  | some given => simp [hi, Action.perform_bind] at h
  | none =>
    simp only [hi, Option.isSome_none, Bool.false_eq_true, if_false] at h
    obtain ⟨⟨⟩, s₁, hlog, hrest⟩ := Action.bind_ok h
    obtain ⟨logged, rfl⟩ := debug_ok hlog
    cases hrest
    exact ⟨logged, rfl⟩

/-- What an operation that is kept does to a session. -/
structure Takes (op : Operation) (s s' : Session) : Prop where
  outline : s'.draft.outline = op.outline s.host s.draft.outline
  environment : s'.host.environment = s.host.environment
  renders : op.Renders s.host
  input : s'.input = s.input

theorem takes_of_keep {op : Operation} (h : (keep op).perform s = (.ok (), s')) : Takes op s s' := by
  unfold keep at h
  obtain ⟨⟨⟩, s₁, hlog, hrest⟩ := Action.bind_ok h
  obtain ⟨logged, rfl⟩ := debug_ok hlog
  obtain ⟨list, s₂, hbench, hset⟩ := Action.bind_ok hrest
  obtain ⟨b, hb, rfl⟩ := onBench_ok hbench
  obtain ⟨⟨⟩, b₁, hadd, hget⟩ := Action.bind_ok hb
  cases hset
  cases hget
  have hmakes : (Edit.operation op _ b.listFile).Makes s.draft b.draft := Bench.add_ok hadd
  have hbench : Bench.Continues ⟨{ s.host with logged }, s.draft, none⟩ b :=
    (Bench.at_add op _).leads_of_perform hadd
  have hsame : op.outline { s.host with logged } s.draft.outline = op.outline s.host s.draft.outline :=
    Operation.outline_congr rfl rfl _
  exact ⟨(hmakes.outline_eq (Operation.inputs_of_add_ok hadd)).trans hsame,
    hbench.host.environment, hmakes.renders.congr rfl, rfl⟩

/-- What operations that are added one after the other do to a session with the settings of a host. -/
structure TakesAll (h : Host) (ops : List Operation) (s s' : Session) : Prop where
  outline : s'.draft.outline = ops.foldl (fun x op => op.outline h x) s.draft.outline
  renders : ∀ op ∈ ops, op.Renders h
  input : s'.input = s.input

theorem takesAll_of_sequence {h : Host} {ops : List Operation}
    (hops : ∀ op ∈ ops, skipWarning op = none ∧ op.list? = none)
    (henv : s.host.environment = h.environment)
    (hs : (sequence (ops.map .add)).perform s = (.ok (), s')) : TakesAll h ops s s' := by
  induction ops generalizing s with
  | nil => cases hs; exact ⟨rfl, by rintro op ⟨⟩, rfl⟩
  | cons op ops ih =>
    obtain ⟨⟨hw, hl⟩, hrest⟩ := List.forall_mem_cons.mp hops
    obtain ⟨m, hadd, hadds⟩ := Action.forM_cons_ok hs
    have hop : Takes op s m := takes_of_keep (add_keep hw hadd)
    have hops : TakesAll h ops m s' := ih hrest (hop.environment.trans henv) hadds
    have hnone (h : Host) : op.listFile h = none := by rw [Operation.listFile, hl]; rfl
    have houtline : m.draft.outline = op.outline h s.draft.outline :=
      hop.outline.trans (Operation.outline_congr henv ((hnone _).trans (hnone h).symm) _)
    refine ⟨?_, ?_, hops.input.trans hop.input⟩
    · rw [hops.outline, houtline, List.foldl_cons]
    · exact List.forall_mem_cons.mpr ⟨hop.renders.congr henv, hops.renders⟩

end Session

end Montage

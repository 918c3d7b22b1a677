import Montage.Proofs.InputsFirst
import Montage.Proofs.Outline

/-!
# The layout of a command

The arguments that a command line asks for, said at once and without a session: flags, inputs, options
for the output, filters and the output, in this order. Filters of the frame make a chain. As soon as
files are joined in the graph, or an overlay or a caption is asked for, there is a graph instead: the
segments that join files, prepare the overlay, lay it over and draw the caption, in this order. The
overlay and the caption read the main stream, which each of them moves.

* `mainBehind`: the main stream behind some segments.
* `CommandLine.Options.segments`: the segments of the graph.
* `CommandLine.layout`: the arguments.
* `CommandLine.Options.finished`: the outline of a draft with these arguments.

Results:
* `Sketch.overlay_eq_behind`, `Sketch.lay_main_eq_behind`: the segments of overlays and captions.
* `CommandLine.foldl_requested`: the operations that are asked for lead to the finished outline.
* `CommandLine.ending_of_finished`: the words for filters and audio of a finished draft.
-/

namespace Montage

open FilterGraph (label)
open Concatenation (streamLabel)

/-! ## Definition -/

/-- The main stream behind a row of segments: the first output of the last. -/
def mainBehind (segments : List Segment) : String :=
  (segments.getLast?.bind fun s => s.outputs.head?).getD mainVideo

/-- The segments that lay a source over the main stream; labels are numbered from `number` on. -/
def Overlay.segments (v : Overlay) (text main source : String) (number : Nat) : List Segment :=
  if v.sourceFilter.isEmpty then [⟨[main, source], text, [label "out" number]⟩]
  else
    [⟨[source], v.sourceFilter, [label "ovl" number]⟩,
      ⟨[main, label "ovl" number], text, [label "out" (number + 1)]⟩]

namespace CommandLine

namespace Options

variable (o : Options)

/-- How files are joined, if any are. -/
def joins : Option ConcatStrategy :=
  if o.concat.inputs.isEmpty then none
  else if o.concat.strategy = some "demuxer" then some .demuxer
  else some .filter

/-- The inputs before an overlay; `list` is the path of the list of the files to join. -/
def inputArguments (list : String) : List String :=
  o.input.toList.flatMap (fun path => ["-i", path]) ++
    match o.joins with
    | some .filter => o.concat.inputs.flatMap fun path => ["-i", path]
    | some .demuxer => ["-f", "concat", "-safe", "0", "-i", list, "-c", "copy"]
    | none => []

/-- How many inputs there are before an overlay. -/
def inputCount : Nat :=
  o.input.toList.length +
    match o.joins with
    | some .filter => o.concat.inputs.length
    | some .demuxer => 1
    | none => 0

def speedArguments : List String :=
  match o.speed with
  | some factor =>
    let s : Speed := ⟨factor⟩
    ["-filter:v", s!"setpts={s.videoParameters}"] ++
      if s.audioFilter.isEmpty then [] else ["-filter:a", s.audioFilter]
  | none => []

def colorArguments : List String :=
  if o.color.isEmpty then [] else ["-filter:v", s!"eq={o.color.parameters}"]

/-- The filters for size, frame and angle. -/
def frameFilters : Except Failure (List String) := do
  let size ← match o.resize with
    | some r => r.filter?.mapError .reported
    | none => .ok none
  return size.toList ++ o.crop.toList.map Crop.filterText ++
    o.rotate.toList.map fun degrees => (⟨degrees⟩ : Rotation).filterText

/-- The segment that joins files: it reads their video, and their audio unless it is left out. -/
def joinSegments : List Segment :=
  match o.joins with
  | some .filter =>
    let numbers := List.range' o.input.toList.length o.concat.inputs.length
    let count := Decimal.ofInt o.concat.inputs.length
    if o.concat.videoOnly then
      [⟨numbers.map (streamLabel "v"), s!"concat=n={count}:v=1", ["[outv]"]⟩]
    else
      [⟨numbers.flatMap fun n => [streamLabel "v" n, streamLabel "a" n],
        s!"concat=n={count}:v=1:a=1", ["[outv]", "[outa]"]⟩]
  | _ => []

/-- The segments of the graph. Filters of the frame take labels too, although they are no segments:
    `taken` labels are gone before the first segment that needs one. -/
def segments (taken : Nat) (overlayText captionText : String) : List Segment :=
  let joined := o.joinSegments
  let laid := o.overlay.toList.flatMap fun v =>
    v.segments overlayText (mainBehind joined) (streamLabel "v" o.inputCount) taken
  let drawn := o.caption.toList.map fun _ =>
    ⟨[mainBehind (joined ++ laid)], captionText, [label "out" (taken + laid.length)]⟩
  joined ++ laid ++ drawn

/-- What becomes of audio beside a graph. -/
def audioArguments : List String :=
  match o.joins with
  | some .filter => if o.concat.videoOnly then ["-an"] else ["-map", "[outa]"]
  | _ => ["-map", "0:a?"]

def filterArguments (frames : List String) (segments : List Segment) : List String :=
  if o.joins = some .filter ∨ o.overlay.isSome ∨ o.caption.isSome then
    ["-filter_complex", Text.join ";" (segments.map Segment.render), "-map", mainBehind segments] ++
      o.audioArguments
  else if frames.isEmpty then []
  else ["-vf", Text.join "," frames]

/-- The arguments before the filters. -/
def openingArguments (so : SessionOptions) (list : String) : List String :=
  Session.openingFlags so ++ o.inputArguments list ++ o.trim.arguments ++ o.speedArguments ++
    o.colorArguments ++ o.overlay.toList.flatMap (fun v => ["-i", v.source]) ++ o.encoding.arguments

/-- The texts of the filters that are asked for, as they are rendered on a host. -/
structure Renders (h : Host) (frames : List String) (overlayText captionText : String) : Prop where
  frames : o.frameFilters = .ok frames
  overlay : o.overlay.elim (.ok "") (fun v => v.overlayFilter h) = .ok overlayText
  caption : o.caption.elim (.ok "") (fun c => c.filterText h) = .ok captionText

end Options

/-- The path of the list of the files to join, if the session writes one. -/
def listPath (so : SessionOptions) (h : Host) : String :=
  Path.joinText (so.listFolder h) h.listName.1

/-- The arguments that the options ask for, if the texts of the filters can be rendered. -/
def layout (so : SessionOptions) (h : Host) (o : Options) : Except Failure (List String) := do
  let frames ← o.frameFilters
  let overlayText ← o.overlay.elim (.ok "") fun v => v.overlayFilter h
  let captionText ← o.caption.elim (.ok "") fun c => c.filterText h
  let segments := o.segments frames.length overlayText captionText
  return o.openingArguments so (listPath so h) ++ o.filterArguments frames segments ++ [o.output]

variable {o : Options} {so : SessionOptions} {h : Host} {frames : List String}
  {list overlayText captionText : String}

theorem layout_of_renders (ht : o.Renders h frames overlayText captionText) :
    layout so h o = .ok (o.openingArguments so (listPath so h) ++
      o.filterArguments frames (o.segments frames.length overlayText captionText) ++ [o.output]) := by
  simp [layout, ht.frames, ht.overlay, ht.caption]

end CommandLine

/-! ## The main stream -/

namespace Sketch

/-- A sketch with more segments. Each of them takes a label, and the last moves the main stream. -/
def behind (s : Sketch) (more : List Segment) : Sketch :=
  { s with
    segments := s.segments ++ more
    main := mainBehind (s.segments ++ more)
    counter := s.counter + more.length }

theorem mainBehind_concat (segments : List Segment) (inputs : List String) (text out : String)
    (rest : List String) : mainBehind (segments ++ [⟨inputs, text, out :: rest⟩]) = out := by
  simp [mainBehind]

variable {s : Sketch}

theorem behind_nil (hs : s.main = mainBehind s.segments) : s.behind [] = s := by
  simp [behind, ← hs]

theorem lay_eq_behind (inputs : List String) (text : String) :
    s.lay inputs text = s.behind [⟨inputs, text, [label "out" s.counter]⟩] := by
  rw [behind, mainBehind_concat]
  rfl

/-- An overlay of another input than the first reads the main stream. -/
theorem overlay_eq_behind (v : Overlay) (text : String) {n : Nat} (hn : n ≠ 0) :
    s.overlay v text n = s.behind (v.segments text s.main (streamLabel "v" n) s.counter) := by
  unfold overlay Overlay.segments
  by_cases hv : v.sourceFilter.isEmpty = true
  · simp only [hv, if_true, videoOf, hn, if_false]
    exact lay_eq_behind _ _
  · simp only [hv, if_false, Bool.false_eq_true]
    rw [lay_eq_behind]
    simp [behind, prepare, videoOf, hn]

/-- A caption reads the main stream. -/
theorem lay_main_eq_behind (hs : s.main = mainBehind s.segments) (text : String) :
    s.lay [s.main] text = s.behind [⟨[mainBehind s.segments], text, [label "out" s.counter]⟩] := by
  rw [lay_eq_behind, hs]

end Sketch

/-! ## What is asked for -/

theorem Trim.arguments_of_isEmpty {t : Trim} (ht : t.isEmpty = true) : t.arguments = [] := by
  have hnone : (t.start = none ∧ t.stop = none) ∧ t.duration = none := by
    simpa [Trim.isEmpty] using ht
  simp [Trim.arguments, hnone]

theorem Encoding.arguments_of_isEmpty {e : Encoding} (he : e.isEmpty = true) : e.arguments = [] := by
  have hnone : ((e.codec = none ∧ e.bitrate = none) ∧ e.quality = none) ∧ e.preset = none := by
    simpa [Encoding.isEmpty] using he
  simp [Encoding.arguments, OutputOptions.pair, hnone]

namespace CommandLine

variable {o : Options} {so : SessionOptions} {h : Host} {frames : List String}
  {list overlayText captionText : String}

theorem flatMap_reduceOption {α β : Type} (f : α → List β) (xs : List (Option α)) :
    xs.reduceOption.flatMap f = xs.flatMap fun x => x.elim [] f := by
  induction xs with
  | nil => rfl
  | cons x xs ih => cases x <;> simp [ih]

/-- What each of the operations before an overlay comes with, in order. -/
theorem flatMap_early (o : Options) (f : Operation → List String) :
    o.early.reduceOption.flatMap f =
      (if o.trim.isEmpty then [] else f (.trim o.trim)) ++
        o.speed.toList.flatMap (fun factor => f (.speed ⟨factor⟩)) ++
        o.resize.toList.flatMap (fun r => f (.resize r)) ++
        o.crop.toList.flatMap (fun c => f (.crop c)) ++
        o.rotate.toList.flatMap (fun degrees => f (.rotate ⟨degrees⟩)) ++
        if o.color.isEmpty then [] else f (.adjustColor o.color) := by
  have hmap {α : Type} (x : Option α) (g : α → Operation) :
      (x.map g).elim [] f = x.toList.flatMap fun a => f (g a) := by
    cases x <;> simp
  have hunless (b : Bool) (op : Operation) :
      (if b then none else some op).elim [] f = if b then [] else f op := by
    cases b <;> rfl
  rw [flatMap_reduceOption]
  simp [Options.early, hmap, hunless]

theorem flatMap_const_nil {α β : Type} (xs : List α) : xs.flatMap (fun _ => ([] : List β)) = [] :=
  List.flatMap_eq_nil_iff.mpr fun _ _ => rfl

/-- They set the options that are laid out before an overlay. -/
theorem settings_early (o : Options) :
    o.early.reduceOption.flatMap Operation.settings =
      o.trim.arguments ++ o.speedArguments ++ o.colorArguments := by
  have htrim : (if o.trim.isEmpty then [] else o.trim.arguments) = o.trim.arguments := by
    split
    · next he => exact (Trim.arguments_of_isEmpty he).symm
    · rfl
  have hspeed : o.speed.toList.flatMap (fun factor => (Operation.speed ⟨factor⟩).settings) =
      o.speedArguments := by
    unfold Options.speedArguments
    cases o.speed <;> simp [Operation.settings]
  rw [flatMap_early, hspeed]
  simp [Operation.settings, htrim, flatMap_const_nil, Options.colorArguments]

/-- Their simple filters are those of the frame. -/
theorem frameFilters_eq (hr : ∀ op ∈ o.early.reduceOption, op.Renders h) :
    o.frameFilters = .ok (o.early.reduceOption.flatMap Operation.simpleFilters) := by
  rw [flatMap_early]
  cases hresize : o.resize with
  | none =>
    simp [Options.frameFilters, hresize, Operation.simpleFilters, flatMap_const_nil,
      List.map_eq_flatMap]
  | some r =>
    have hmem : Operation.resize r ∈ o.early.reduceOption := by
      simp [List.reduceOption_mem_iff, Options.early, hresize]
    obtain ⟨text, ht⟩ := hr _ hmem
    simp [Options.frameFilters, hresize, ht, Operation.simpleFilters, flatMap_const_nil,
      Except.mapError, Except.toOption, List.map_eq_flatMap]

/-- The operations that are asked for, in order. -/
def Options.requested (o : Options) : List Operation :=
  o.early.reduceOption ++ o.overlay.toList.map .overlay ++ o.caption.toList.map .caption ++
    if o.encoding.isEmpty then [] else [.encode o.encoding]

theorem calls_eq (o : Options) :
    o.calls = o.sources ++ o.requested.map .add ++ [.output o.output {}] := by
  have hoverlay : [o.overlay.map Operation.overlay].reduceOption = o.overlay.toList.map .overlay := by
    cases o.overlay <;> rfl
  have hlate : o.late.reduceOption = o.caption.toList.map .caption ++
      if o.encoding.isEmpty then [] else [.encode o.encoding] := by
    unfold Options.late
    cases o.caption <;> cases o.encoding.isEmpty <;> rfl
  simp [Options.calls, addAll, Options.requested, hoverlay, hlate]

theorem early_isPlain : ∀ op ∈ o.early.reduceOption,
    op.isPlain = true ∧ Session.skipWarning op = none := by
  intro op hop
  rcases o.mem_early_iff.mp (List.reduceOption_mem_iff.mp hop) with
    ⟨-, rfl⟩ | ⟨_, -, rfl⟩ | ⟨_, -, rfl⟩ | ⟨_, -, rfl⟩ | ⟨_, -, rfl⟩ | ⟨hc, rfl⟩
  case inr.inr.inr.inr.inr => exact ⟨rfl, by simp [Session.skipWarning, hc]⟩
  all_goals exact ⟨rfl, rfl⟩

/-- None of them is skipped, and none writes a list file. -/
theorem requested_free : ∀ op ∈ o.requested, Session.skipWarning op = none ∧ op.list? = none := by
  intro op hop
  simp only [Options.requested, List.mem_append, List.mem_map] at hop
  rcases hop with ((hop | ⟨v, -, rfl⟩) | ⟨c, -, rfl⟩) | hop
  · obtain ⟨hp, hw⟩ := early_isPlain op hop
    exact ⟨hw, Operation.list?_of_isPlain hp⟩
  · exact ⟨rfl, rfl⟩
  · exact ⟨rfl, rfl⟩
  · cases he : o.encoding.isEmpty with
    | true => simp [he] at hop
    | false =>
      simp only [he, Bool.false_eq_true, if_false, List.mem_singleton] at hop
      subst hop
      exact ⟨by simp [Session.skipWarning, he], rfl⟩

/-- Operations that succeed one after the other have the texts of their filters rendered. -/
theorem exists_renders (hr : ∀ op ∈ o.requested, op.Renders h) : ∃ overlayText captionText,
    o.Renders h (o.early.reduceOption.flatMap Operation.simpleFilters) overlayText captionText := by
  have hearly : ∀ op ∈ o.early.reduceOption, op.Renders h := fun op hop =>
    hr op (by simp [Options.requested, hop])
  obtain ⟨overlayText, hoverlay⟩ :
      ∃ text, o.overlay.elim (.ok "") (fun v => v.overlayFilter h) = .ok text := by
    cases hv : o.overlay with
    | none => exact ⟨"", rfl⟩
    | some v => exact hr (.overlay v) (by simp [Options.requested, hv])
  obtain ⟨captionText, hcaption⟩ :
      ∃ text, o.caption.elim (.ok "") (fun c => c.filterText h) = .ok text := by
    cases hc : o.caption with
    | none => exact ⟨"", rfl⟩
    | some c => exact hr (.caption c) (by simp [Options.requested, hc])
  exact ⟨overlayText, captionText, frameFilters_eq hearly, hoverlay, hcaption⟩

/-! ## Outlines -/

namespace Options

/-- The sketch behind the files to join. -/
def joined (o : Options) : Sketch where
  segments := o.joinSegments
  main := mainBehind o.joinSegments
  audio := if o.joins = some .filter ∧ o.concat.videoOnly = false then some "[outa]" else none
  dropsAudio := o.joins = some .filter ∧ o.concat.videoOnly = true

/-- The outline behind the input and the files to join. -/
def begun (o : Options) (so : SessionOptions) (list : String) : Outline where
  arguments := Session.openingFlags so ++ o.inputArguments list
  inputCount := o.inputCount
  sketch := o.joined

/-- The outline behind all operations. -/
def finished (o : Options) (so : SessionOptions) (list : String) (frames : List String)
    (overlayText captionText : String) : Outline :=
  let segments := o.segments frames.length overlayText captionText
  { arguments := o.openingArguments so list
    inputCount := o.inputCount + o.overlay.toList.length
    sketch := { o.joined with
      segments
      main := mainBehind segments
      counter := frames.length + (segments.length - o.joinSegments.length) }
    simple := frames }

end Options

theorem foldl_overlay {x : Outline} (hn : x.inputCount ≠ 0)
    (hx : x.sketch.main = mainBehind x.sketch.segments)
    (ht : o.overlay.elim (.ok "") (fun v => v.overlayFilter h) = .ok overlayText) :
    (o.overlay.toList.map Operation.overlay).foldl (fun x op => op.outline h x) x =
      { x with
        arguments := x.arguments ++ o.overlay.toList.flatMap fun v => ["-i", v.source]
        inputCount := x.inputCount + o.overlay.toList.length
        sketch := x.sketch.behind (o.overlay.toList.flatMap fun v =>
          v.segments overlayText x.sketch.main (streamLabel "v" x.inputCount) x.sketch.counter) } := by
  cases hv : o.overlay with
  | none => simp [Sketch.behind_nil hx]
  | some v =>
    rw [hv] at ht
    have htext : textOf (v.overlayFilter h) = overlayText := by
      rw [show v.overlayFilter h = .ok overlayText from ht]
      rfl
    simp [Operation.outline, Operation.inputs, Operation.listing, Operation.settings,
      Operation.simpleFilters, Operation.draw, htext, Sketch.overlay_eq_behind v overlayText hn]

theorem foldl_caption {x : Outline} (hx : x.sketch.main = mainBehind x.sketch.segments)
    (ht : o.caption.elim (.ok "") (fun c => c.filterText h) = .ok captionText) :
    (o.caption.toList.map Operation.caption).foldl (fun x op => op.outline h x) x =
      { x with
        sketch := x.sketch.behind (o.caption.toList.map fun _ =>
          ⟨[mainBehind x.sketch.segments], captionText, [label "out" x.sketch.counter]⟩) } := by
  cases hc : o.caption with
  | none => simp [Sketch.behind_nil hx]
  | some c =>
    rw [hc] at ht
    have htext : textOf (c.filterText h) = captionText := by
      rw [show c.filterText h = .ok captionText from ht]
      rfl
    simp [Operation.outline, Operation.inputs, Operation.listing, Operation.settings,
      Operation.simpleFilters, Operation.draw, htext, Sketch.lay_main_eq_behind hx]

/-- The operations that are asked for lead from the inputs to the finished outline. -/
theorem foldl_requested (hn : o.inputCount ≠ 0) (hr : ∀ op ∈ o.requested, op.Renders h)
    (ht : o.Renders h (o.early.reduceOption.flatMap Operation.simpleFilters) overlayText
      captionText) :
    o.requested.foldl (fun x op => op.outline h x) (o.begun so list) =
      o.finished so list (o.early.reduceOption.flatMap Operation.simpleFilters) overlayText
        captionText := by
  have hearly : ∀ op ∈ o.early.reduceOption, op.isPlain = true ∧ op.Renders h := fun op hop =>
    ⟨(early_isPlain op hop).1, hr op (by simp [Options.requested, hop])⟩
  have hlate : ∀ op ∈ (if o.encoding.isEmpty then [] else [Operation.encode o.encoding]),
      op.isPlain = true ∧ op.Renders h := by
    split
    · rintro op ⟨⟩
    · simp [Operation.isPlain, Operation.Renders]
  have hsettings : (if o.encoding.isEmpty then [] else [Operation.encode o.encoding]).flatMap
      Operation.settings = o.encoding.arguments := by
    split
    · next he => exact (Encoding.arguments_of_isEmpty he).symm
    · simp [Operation.settings]
  have hfilters : (if o.encoding.isEmpty then [] else [Operation.encode o.encoding]).flatMap
      Operation.simpleFilters = [] := by
    split <;> rfl
  rw [Options.requested, List.foldl_append, List.foldl_append, List.foldl_append,
    Operation.foldl_outline_of_isPlain hearly, foldl_overlay hn rfl ht.overlay,
    foldl_caption rfl ht.caption, Operation.foldl_outline_of_isPlain hlate, hsettings, hfilters,
    settings_early]
  generalize o.early.reduceOption.flatMap Operation.simpleFilters = frames
  simp [Options.finished, Options.openingArguments, Options.segments, Outline.extend, Options.begun,
    Options.joined, Sketch.behind, Nat.add_assoc]

/-! ## The words for filters and audio -/

/-- There is a graph just if something asks for one. -/
theorem segments_eq_nil_iff (taken : Nat) (overlayText captionText : String) :
    o.segments taken overlayText captionText = [] ↔
      ¬ (o.joins = some .filter ∨ o.overlay.isSome = true ∨ o.caption.isSome = true) := by
  have hjoined : o.joinSegments = [] ↔ ¬ o.joins = some .filter := by
    unfold Options.joinSegments
    cases o.joins with
    | none => simp
    | some strategy => cases strategy <;> simp; split <;> simp
  have hlaid (v : Overlay) (main source : String) : v.segments overlayText main source taken ≠ [] := by
    unfold Overlay.segments
    split <;> simp
  unfold Options.segments
  rw [not_or, not_or, ← hjoined]
  cases o.overlay <;> cases o.caption <;> simp [hlaid]

/-- Every segment writes a stream. -/
theorem outputs_of_mem_segments {taken : Nat} {s : Segment}
    (hs : s ∈ o.segments taken overlayText captionText) :
    ∃ out rest, s.outputs = out :: rest ∧ out ≠ "" := by
  simp only [Options.segments, List.mem_append, List.mem_flatMap, List.mem_map] at hs
  rcases hs with (hs | ⟨v, -, hs⟩) | ⟨c, -, rfl⟩
  · unfold Options.joinSegments at hs
    split at hs
    · split at hs
      · rw [List.mem_singleton.mp hs]; exact ⟨_, [], rfl, by decide⟩
      · rw [List.mem_singleton.mp hs]; exact ⟨_, ["[outa]"], rfl, by decide⟩
    · cases hs
  · unfold Overlay.segments at hs
    split at hs
    · rw [List.mem_singleton.mp hs]; exact ⟨_, [], rfl, label_ne_empty _ _⟩
    · simp only [List.mem_cons, List.not_mem_nil, or_false] at hs
      rcases hs with rfl | rfl
      · exact ⟨_, [], rfl, label_ne_empty _ _⟩
      · exact ⟨_, [], rfl, label_ne_empty _ _⟩
  · exact ⟨_, [], rfl, label_ne_empty _ _⟩

/-- Audio is dropped or mapped as the files to join say. -/
theorem audioArguments_eq (o : Options) :
    (if o.joined.dropsAudio then ["-an"] else ["-map", o.joined.audio.getD "0:a?"]) =
      o.audioArguments := by
  unfold Options.audioArguments Options.joined
  cases hj : o.joins with
  | none => simp
  | some strategy => cases strategy <;> cases hv : o.concat.videoOnly <;> simp

theorem ending_of_finished {d : Draft}
    (hd : d.outline = o.finished so list frames overlayText captionText) :
    d.ending = o.filterArguments frames (o.segments frames.length overlayText captionText) := by
  have hsketch : d.sketch = (o.finished so list frames overlayText captionText).sketch :=
    congrArg Outline.sketch hd
  have hsimple : d.simple = frames := congrArg Outline.simple hd
  have hsegments : d.sketch.segments = o.segments frames.length overlayText captionText := by
    rw [hsketch]
    rfl
  by_cases hg : o.joins = some .filter ∨ o.overlay.isSome = true ∨ o.caption.isSome = true
  · have hne : d.sketch.segments ≠ [] := by
      rw [hsegments, ne_eq, segments_eq_nil_iff, not_not]
      exact hg
    have hrender : ∀ s ∈ d.sketch.segments, s.render ≠ "" := by
      intro s hs
      rw [hsegments] at hs
      obtain ⟨out, rest, ho, hout⟩ := outputs_of_mem_segments hs
      exact Segment.render_ne_empty ho hout
    rw [Draft.ending_of_segments hne hrender, Options.filterArguments, if_pos hg,
      ← audioArguments_eq, hsketch]
    rfl
  · have hnil : d.sketch.segments = [] := by
      rw [hsegments, segments_eq_nil_iff]
      exact hg
    have hdrops : d.sketch.dropsAudio = false := by
      rw [hsketch]
      exact decide_eq_false fun hjoin => hg (.inl hjoin.1)
    rw [Draft.ending_of_no_segments hnil hdrops, Options.filterArguments, if_neg hg, hsimple]

end CommandLine

end Montage

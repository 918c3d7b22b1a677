import Montage.Proofs.Edit
import Montage.Proofs.Escaping

/-!
# Texts with their numbers marked

The arguments and the filters that an operation adds are texts. Here they are written part by part, so that
what is a number in a text is known: a whole number, a number with all its digits, or one with fixed places.

* `Part`: words as they are, or a number in one of the ways to write it.
* `Marks`: a text, part by part, and `Marks.render`, the text.
* `Operation.argumentMarks`, `Operation.filterMarks`: the arguments and the filters of an operation.

Results:
* `Operation.map_render_argumentMarks`: the marked arguments are those that the operation adds to the command.
* `Operation.Edits.texts_eq`: the marked filters are those that it adds to the graph.
-/

namespace Montage

/-- A part of a text that is written: words, or a number in one of the ways to write it. -/
inductive Part where
  | words (text : String)
  /-- A whole number, filled up to a width. -/
  | whole (width : Nat) (n : Int)
  /-- A number with as many digits as it needs. -/
  | number (x : Binary64)
  /-- A number with a fixed count of decimal places. -/
  | rounded (places : Nat) (x : Binary64)
  /-- A time as it was given, in digits. -/
  | clock (text : String)

namespace Part

def text : Part → String
  | words text => text
  | whole width n => Decimal.padded width n
  | number x => x.text
  | rounded places x => x.fixed places
  | clock text => text

def isNumber : Part → Bool
  | words _ => false
  | _ => true

@[simp] theorem text_words (text : String) : (words text).text = text := rfl

@[simp] theorem text_whole (width : Nat) (n : Int) : (whole width n).text = Decimal.padded width n := rfl

@[simp] theorem text_number (x : Binary64) : (number x).text = x.text := rfl

@[simp] theorem text_rounded (places : Nat) (x : Binary64) : (rounded places x).text = x.fixed places := rfl

@[simp] theorem text_clock (text : String) : (clock text).text = text := rfl

end Part

/-- A text, part by part. -/
abbrev Marks := List Part

namespace Marks

def render : Marks → String
  | [] => ""
  | part :: rest => part.text ++ render rest

/-- Words that are arguments of their own. -/
def ofWords (texts : List String) : List Marks := texts.map fun text => [.words text]

/-- Texts with words between neighbours. -/
def join (between : String) (texts : List Marks) : Marks := [.words between].intercalate texts

@[simp] theorem render_nil : render [] = "" := rfl

@[simp] theorem render_cons (part : Part) (rest : Marks) : render (part :: rest) = part.text ++ render rest :=
  rfl

theorem render_append (xs ys : Marks) : render (xs ++ ys) = render xs ++ render ys := by
  induction xs with
  | nil => exact (String.empty_append).symm
  | cons part xs ih => rw [List.cons_append, render, render, ih, String.append_assoc]

theorem toString_text (text : String) : toString text = text := rfl

theorem render_words (text : String) : render [.words text] = text := String.append_empty

theorem map_render_ofWords (texts : List String) : (ofWords texts).map render = texts := by
  rw [ofWords, List.map_map]
  exact (List.map_congr_left fun text _ => render_words text).trans (List.map_id _)

theorem render_join (between : String) (texts : List Marks) :
    render (join between texts) = Text.join between (texts.map render) := by
  unfold join Text.join
  induction texts with
  | nil => rw [List.intercalate_nil, List.map_nil, String.intercalate_nil, render]
  | cons text texts ih =>
    by_cases hlast : texts = []
    · rw [hlast, List.intercalate_singleton, List.map_singleton, String.intercalate_singleton]
    · rw [List.intercalate_cons_of_ne_nil hlast, List.map_cons,
        String.intercalate_cons_of_ne_nil (List.map_eq_nil_iff.not.mpr hlast), render_append, render_append,
        render_words, ih]

end Marks

theorem Decimal.padded_zero (n : Int) : Decimal.padded 0 n = Decimal.ofInt n := by
  simp [padded, ofInt]

open Marks

/-! ## Times -/

namespace Time

/-- The timestamp of a time. -/
def tokenMarks : Time → Marks
  | seconds n =>
    let total := (n * 1000).roundAway
    [.whole 2 (total / 3600000), .words ":", .whole 2 (total / 60000 % 60), .words ":",
      .whole 2 (total / 1000 % 60), .words ".", .whole 3 (total % 1000)]
  | clock text => [.clock text]
  | parts p =>
    let zeros := String.ofList (List.replicate (2 - p.seconds.text.toList.length) '0')
    [.whole 2 p.hours, .words ":", .whole 2 p.minutes, .words ":", .words zeros, .number p.seconds]
      ++ if p.frames = 0 then [] else [.words ":", .whole 0 p.frames]

theorem render_tokenMarks (t : Time) : render t.tokenMarks = t.token := by
  cases t with
  | seconds n =>
    simp [tokenMarks, token, ofMilliseconds, toString_text, String.append_assoc]
  | clock text => exact String.append_empty
  | parts p =>
    have hpadded : String.ofList (Text.padLeft '0' 2 p.seconds.text.toList) =
        String.ofList (List.replicate (2 - p.seconds.text.toList.length) '0') ++ p.seconds.text := by
      rw [Text.padLeft, String.ofList_append, String.ofList_toList]
    rw [token, partsToken, hpadded]
    by_cases hframes : p.frames = 0
    · simp [tokenMarks, hframes, toString_text, String.append_assoc]
    · simp [tokenMarks, hframes, toString_text, String.append_assoc, Decimal.padded_zero]

end Time

/-- The arguments of a trim. -/
def Trim.marks (t : Trim) : List Marks :=
  let start := match t.start with
    | some s => [[.words "-ss"], s.tokenMarks]
    | none => []
  let stop := match t.stop, t.duration with
    | some e, _ => [[.words "-to"], e.tokenMarks]
    | none, some d => [[.words "-t"], d.tokenMarks]
    | none, none => []
  start ++ stop

theorem Trim.map_render_marks (t : Trim) : t.marks.map render = t.arguments := by
  obtain ⟨start, stop, duration⟩ := t
  cases start <;> cases stop <;> cases duration <;>
    simp [marks, arguments, Time.render_tokenMarks]

/-! ## Options of the command -/

namespace Speed

/-- A stage of the audio filter. -/
def stageMark (stage : Binary64) : Part :=
  if stage.same fastest then .rounded 1 fastest
  else if stage.same slowest then .rounded 1 slowest
  else .rounded 4 stage

def videoMarks (s : Speed) : Marks :=
  [.words "setpts=", .words "PTS/", if s.factor.same 1 then .rounded 1 1 else .number s.factor]

def audioMarks (s : Speed) : Marks :=
  Marks.join "," (s.stages.map fun stage => [.words "atempo=", stageMark stage])

/-- The arguments of a speed. -/
def marks (s : Speed) : List Marks :=
  [[.words "-filter:v"], s.videoMarks] ++
    if s.audioFilter.isEmpty then [] else [[.words "-filter:a"], s.audioMarks]

theorem text_stageMark (stage : Binary64) : (stageMark stage).text = stageText stage := by
  have hfastest : fastest.fixed 1 = "2.0" := by decide +kernel
  have hslowest : slowest.fixed 1 = "0.5" := by decide +kernel
  unfold stageMark stageText
  split
  · exact hfastest
  split
  · exact hslowest
  · rfl

theorem render_audioMarks (s : Speed) : render s.audioMarks = s.audioFilter := by
  rw [audioMarks, render_join, audioFilter, List.map_map]
  congr 1
  refine List.map_congr_left fun stage _ => ?_
  simp [text_stageMark]

theorem render_videoMarks (s : Speed) : render s.videoMarks = s!"setpts={s.videoParameters}" := by
  have hone : (1 : Binary64).fixed 1 = "1.0" := by decide +kernel
  unfold videoMarks videoParameters
  by_cases hsame : s.factor.same 1 = true
  · simp [hsame, hone, toString_text]
  · simp [hsame, toString_text]

theorem map_render_marks (s : Speed) : s.marks.map render = (Operation.speed s).settings := by
  unfold marks Operation.settings
  by_cases hnone : s.audioFilter.isEmpty = true
  · simp [hnone, render_videoMarks]
  · simp [hnone, render_videoMarks, render_audioMarks]

end Speed

namespace ColorAdjustment

/-- The parameters that are given. -/
def parameterMarks (a : ColorAdjustment) : Marks :=
  let pair (key : String) : Option Binary64 → List Marks
    | some value => [[.words (key ++ "="), .number value]]
    | none => []
  Marks.join ":" (pair "brightness" a.brightness ++ pair "contrast" a.contrast
    ++ pair "saturation" a.saturation)

/-- The arguments of a color adjustment. -/
def marks (a : ColorAdjustment) : List Marks :=
  [[.words "-filter:v"], .words "eq=" :: a.parameterMarks]

theorem render_parameterMarks (a : ColorAdjustment) : render a.parameterMarks = a.parameters := by
  obtain ⟨brightness, contrast, saturation⟩ := a
  rw [parameterMarks, render_join, parameters]
  cases brightness <;> cases contrast <;> cases saturation <;> simp

theorem map_render_marks (a : ColorAdjustment) :
    a.marks.map render = (Operation.adjustColor a).settings := by
  simp [marks, Operation.settings, render_parameterMarks, toString_text]

end ColorAdjustment

namespace Encoding

/-- The arguments of an encoding. -/
def marks (e : Encoding) : List Marks :=
  let quality := match e.quality with
    | some quality => [[.words "-crf"], [.whole 0 quality]]
    | none => []
  ofWords (OutputOptions.pair "-c:v" e.codec ++ OutputOptions.pair "-b:v" e.bitrate) ++ quality
    ++ ofWords (OutputOptions.pair "-preset" e.preset)

theorem map_render_marks (e : Encoding) : e.marks.map render = e.arguments := by
  unfold marks arguments
  rw [List.map_append, List.map_append, map_render_ofWords, map_render_ofWords]
  cases e.quality <;> simp [OutputOptions.pair, Decimal.padded_zero]

end Encoding

/-! ## Filters of the frame -/

namespace Resize

/-- The filter of a size, if one is given. -/
def marks (r : Resize) : List Marks :=
  match r.width, r.height with
  | some width, some height =>
    [if r.keepsAspect then [.words "scale=", .whole 0 width, .words ":-1"]
      else [.words "scale=", .whole 0 width, .words ":", .whole 0 height]]
  | some width, none => [[.words "scale=", .whole 0 width, .words ":-1"]]
  | none, some height => [[.words "scale=-1:", .whole 0 height]]
  | none, none => []

theorem map_render_marks {r : Resize} {text : String} (h : r.filter? = .ok (some text)) :
    r.marks.map render = [text] := by
  obtain ⟨width, height, keepsAspect⟩ := r
  unfold filter? at h
  split at h
  · cases h
  cases width <;> cases height <;> cases keepsAspect <;> cases h <;>
    simp [marks, Decimal.padded_zero, toString_text, String.append_assoc]

end Resize

/-- The filter of a crop. -/
def Crop.marks (c : Crop) : Marks :=
  .words "crop=" :: Marks.join ":" ([c.width, c.height, c.x, c.y].map fun n => [.whole 0 n])

theorem Crop.render_marks (c : Crop) : render c.marks = c.filterText := by
  rw [marks, render_cons, render_join, filterText]
  simp [Decimal.padded_zero]

namespace Rotation

/-- Whether a rotation is by a right angle, which is transposed. -/
def isRight (r : Rotation) : Bool := r.degrees.same 90 || r.degrees.same 180 || r.degrees.same 270

/-- The filter of a rotation. -/
def marks (r : Rotation) : Marks :=
  if r.isRight then [.words r.filterText] else [.words "rotate=", .number (r.degrees * pi / 180)]

theorem render_marks (r : Rotation) : render r.marks = r.filterText := by
  unfold marks
  by_cases hright : r.isRight = true
  · rw [if_pos hright, render_words]
  · rw [if_neg hright]
    simp only [isRight, Bool.or_eq_true, not_or] at hright
    simp [filterText, hright, toString_text]

end Rotation

/-! ## Windows and places -/

namespace Window

/-- A bound, or what stands for one that is missing. -/
def boundMark (missing : Int) : Option Time → Part
  | none => .whole 0 missing
  | some t => match t.toSeconds with
    | .ok x => .number x
    | .error _ => .words ""

/-- The option of a window. -/
def marks (w : Window) : Marks :=
  if w.start.isNone && w.stop.isNone then []
  else [.words "enable='between(t,", boundMark 0 w.start, .words ",", boundMark 999999 w.stop, .words ")'"]

theorem text_boundMark {missing : Int} {bound : Option Time} {text : String}
    (h : boundText (Decimal.ofInt missing) bound = .ok text) : (boundMark missing bound).text = text := by
  cases bound with
  | none =>
    cases h
    exact Decimal.padded_zero missing
  | some t =>
    obtain ⟨_, -, h⟩ := bind_eq_ok.mp h
    obtain ⟨x, hx, h⟩ := bind_eq_ok.mp h
    rw [boundMark, hx]
    exact pure_eq_ok.mp h

theorem render_marks {w : Window} {text : String} (h : w.option = .ok text) : render w.marks = text := by
  unfold option at h
  unfold marks
  split at h
  · cases h
    rw [if_pos ‹_›, render_nil]
  · obtain ⟨start, hstart, h⟩ := bind_eq_ok.mp h
    obtain ⟨stop, hstop, h⟩ := bind_eq_ok.mp h
    have hzero : Decimal.ofInt 0 = "0" := by decide
    have hopen : Decimal.ofInt 999999 = openEnd := by decide +kernel
    rw [if_neg ‹_›, ← pure_eq_ok.mp h]
    simp [text_boundMark (hzero ▸ hstart), text_boundMark (hopen ▸ hstop), toString_text, String.append_assoc]

/-- The option of a window behind other options. -/
def suffixMarks (w : Window) : Marks := if w.marks.isEmpty then [] else .words ":" :: w.marks

theorem render_suffixMarks {w : Window} {text : String} (h : w.option = .ok text) :
    render w.suffixMarks = if text.isEmpty then "" else ":" ++ text := by
  have htext := render_marks h
  unfold suffixMarks
  cases hmarks : w.marks with
  | nil =>
    rw [hmarks] at htext
    rw [← htext]
    rfl
  | cons part rest =>
    have hne : ¬ text.isEmpty = true := by
      rw [String.isEmpty_iff, ← htext]
      unfold marks at hmarks ⊢
      split at hmarks
      · cases hmarks
      · rw [if_neg ‹_›, render_cons, String.append_eq_empty_iff]
        exact fun hempty => absurd hempty.1 (by decide)
    rw [if_neg hne, ← htext, hmarks]
    rfl

end Window

namespace Anchor

/-- The expression for the near side of an item. -/
def Edge.marks (frame item : String) (distance : Int) : Edge → Marks
  | near => [.whole 0 distance]
  | middle => [.words s!"({frame}-{item})/2"]
  | far => [.words s!"{frame}-{item}-", .whole 0 distance]

theorem Edge.render_marks (frame item : String) (distance : Int) (e : Edge) :
    render (e.marks frame item distance) = e.expression frame item (Decimal.ofInt distance) := by
  cases e <;> simp [marks, expression, Decimal.padded_zero, toString_text, String.append_assoc]

/-- The expressions for an item at an anchor. -/
def marks (a : Anchor) (distance : Int) (terms : SizeTerms) : Marks × Marks :=
  (a.horizontal.marks terms.frameWidth terms.itemWidth distance,
    a.vertical.marks terms.frameHeight terms.itemHeight distance)

theorem render_marks (a : Anchor) (distance : Int) (terms : SizeTerms) :
    (render (a.marks distance terms).1, render (a.marks distance terms).2) =
      a.coordinates distance terms := by
  rw [marks, Edge.render_marks, Edge.render_marks]
  rfl

end Anchor

/-- The distance of an item from the edges. -/
def Placement.distanceOn (p : Placement) (h : Host) : Int :=
  match p.distance h with
  | .ok distance => distance
  | .error _ => 0

/-- An item at an anchor, once its distance is known. -/
theorem Placement.render_anchored {p : Placement} {h : Host} {anchor : Anchor} {terms : SizeTerms}
    {place : String × String}
    (hplace : (do return anchor.coordinates (← p.distance h) terms : Except Failure _) = .ok place) :
    (render (anchor.marks (p.distanceOn h) terms).1, render (anchor.marks (p.distanceOn h) terms).2) =
      place := by
  obtain ⟨distance, hdistance, hplace⟩ := bind_eq_ok.mp hplace
  have hshown : p.distanceOn h = distance := by rw [distanceOn, hdistance]
  rw [hshown, anchor.render_marks]
  exact pure_eq_ok.mp hplace

/-! ## Captions -/

namespace Caption

/-- The text, its font and its box. -/
def lookMarks (c : Caption) : Marks :=
  let front := "drawtext=text='" ++ String.ofList (escape c.text.toList) ++ "'"
    ++ option "fontfile" (c.fontFile.map fun path => s!"'{path}'")
  let box := match c.background with
    | some color => .words (":box=1" ++ option "boxcolor" (some color)) :: match c.border with
      | some border => [.words ":boxborderw=", .whole 0 border]
      | none => []
    | none => []
  [.words front, .words ":fontsize=", .whole 0 (c.fontSize.getD 24),
    .words (option "fontcolor" (some (c.fontColor.getD "white")))] ++ box

/-- The coordinates of a caption. -/
def placeMarks (p : Placement) (h : Host) : Marks × Marks :=
  match p.anchor with
  | some anchor => anchor.marks (p.distanceOn h) .text
  | none =>
    if p.x.isSome || p.y.isSome then ([.whole 0 (p.x.getD 0)], [.whole 0 (p.y.getD 0)])
    else Anchor.center.marks 0 .text

/-- The filter of a caption. -/
def marks (c : Caption) (h : Host) : Marks :=
  c.lookMarks ++ .words ":x=" :: (placeMarks c.place h).1 ++ .words ":y=" :: (placeMarks c.place h).2
    ++ c.window.suffixMarks

theorem render_lookMarks (c : Caption) : render c.lookMarks = c.lookText := by
  have hsize (size : String) : option "fontsize" (some size) = ":fontsize=" ++ size := rfl
  have hborder (border : String) : option "boxborderw" (some border) = ":boxborderw=" ++ border := rfl
  rw [lookText_eq, lookBack, hsize]
  unfold lookMarks
  cases c.background with
  | none => simp [String.append_assoc, Decimal.padded_zero]
  | some color =>
    cases c.border with
    | none => simp [String.append_assoc, Decimal.padded_zero, option]
    | some border => simp [String.append_assoc, Decimal.padded_zero, hborder]

theorem render_placeMarks {p : Placement} {h : Host} {place : String × String}
    (hplace : coordinates p h = .ok place) :
    (render (placeMarks p h).1, render (placeMarks p h).2) = place := by
  unfold coordinates at hplace
  unfold placeMarks
  cases hanchor : p.anchor with
  | some anchor =>
    rw [hanchor] at hplace
    exact Placement.render_anchored hplace
  | none =>
    rw [hanchor] at hplace
    dsimp only at hplace ⊢
    split at hplace
    · cases hplace
      rw [if_pos ‹_›]
      simp [Decimal.padded_zero]
    · cases hplace
      rw [if_neg ‹_›]
      exact Anchor.render_marks _ _ _

theorem render_marks {c : Caption} {h : Host} {text : String} (htext : c.filterText h = .ok text) :
    render (c.marks h) = text := by
  obtain ⟨⟨x, y⟩, hplace, htext⟩ := bind_eq_ok.mp htext
  obtain ⟨window, hwindow, htext⟩ := bind_eq_ok.mp htext
  obtain ⟨hx, hy⟩ := Prod.mk.inj (render_placeMarks hplace)
  rw [← pure_eq_ok.mp htext, marks]
  simp only [render_append, render_cons, Part.text_words, render_lookMarks, hx, hy,
    Window.render_suffixMarks (mapError_eq_ok.mp hwindow), option, String.append_assoc]
  rfl

end Caption

/-! ## Overlays -/

namespace Overlay

/-- The filter that gives the source its size. -/
def sizeMarks (o : Overlay) : List Marks :=
  match o.width, o.height, o.scale with
  | some width, some height, _ => [[.words "scale=", .whole 0 width, .words ":", .whole 0 height]]
  | some width, none, _ => [[.words "scale=", .whole 0 width, .words ":-1"]]
  | none, some height, _ => [[.words "scale=-1:", .whole 0 height]]
  | none, none, some scale => [[.words "scale=iw*", .number scale, .words ":ih*", .number scale]]
  | none, none, none => []

/-- The filter that makes the source translucent. -/
def opacityMarks (o : Overlay) : List Marks :=
  match o.opacity with
  | some opacity =>
    if opacity < 1 then [[.words "format=rgba,colorchannelmixer=a=", .number opacity]] else []
  | none => []

def sourceMarks (o : Overlay) : Marks := Marks.join "," (o.sizeMarks ++ o.opacityMarks)

/-- The coordinates of an overlay. -/
def placeMarks (p : Placement) (h : Host) : Marks × Marks :=
  match p.anchor with
  | some anchor => anchor.marks (p.distanceOn h) .overlay
  | none => ([.whole 0 (p.x.getD 0)], [.whole 0 (p.y.getD 0)])

/-- The filter that lays the source over the main stream. -/
def overlayMarks (o : Overlay) (h : Host) : Marks :=
  .words "overlay=" :: (placeMarks o.place h).1 ++ .words ":" :: (placeMarks o.place h).2
    ++ o.window.suffixMarks

theorem map_render_sizeMarks (o : Overlay) : o.sizeMarks.map render = o.sizeFilter := by
  unfold sizeMarks sizeFilter
  cases o.width <;> cases o.height <;> cases o.scale <;>
    simp [Decimal.padded_zero, toString_text, String.append_assoc]

theorem map_render_opacityMarks (o : Overlay) : o.opacityMarks.map render = o.opacityFilter := by
  unfold opacityMarks opacityFilter
  cases o.opacity with
  | none => rfl
  | some opacity =>
    dsimp only
    split <;> simp

theorem render_sourceMarks (o : Overlay) : render o.sourceMarks = o.sourceFilter := by
  rw [sourceMarks, render_join, List.map_append, map_render_sizeMarks, map_render_opacityMarks, sourceFilter]

theorem render_placeMarks {p : Placement} {h : Host} {place : String × String}
    (hplace : coordinates p h = .ok place) :
    (render (placeMarks p h).1, render (placeMarks p h).2) = place := by
  unfold coordinates at hplace
  unfold placeMarks
  cases hanchor : p.anchor with
  | some anchor =>
    rw [hanchor] at hplace
    exact Placement.render_anchored hplace
  | none =>
    rw [hanchor] at hplace
    cases hplace
    simp [Decimal.padded_zero]

theorem render_overlayMarks {o : Overlay} {h : Host} {text : String} (htext : o.overlayFilter h = .ok text) :
    render (o.overlayMarks h) = text := by
  obtain ⟨⟨x, y⟩, hplace, htext⟩ := bind_eq_ok.mp htext
  obtain ⟨window, hwindow, htext⟩ := bind_eq_ok.mp htext
  obtain ⟨hx, hy⟩ := Prod.mk.inj (render_placeMarks hplace)
  rw [← pure_eq_ok.mp htext, overlayMarks]
  simp only [render_append, render_cons, Part.text_words, hx, hy, toString_text,
    Window.render_suffixMarks (mapError_eq_ok.mp hwindow), String.append_assoc]

end Overlay

/-- The filter that joins files. -/
def Concatenation.marks (c : Concatenation) : Marks :=
  [.words "concat=n=", .whole 0 c.inputs.length, .words (if c.videoOnly then ":v=1" else ":v=1:a=1")]

/-! ## All operations -/

namespace Operation

/-- The arguments that an operation adds; `list` is the list file that it wrote. -/
def argumentMarks (list : Option String) : Operation → List Marks
  | trim t => t.marks
  | speed s => s.marks
  | adjustColor a => a.marks
  | encode e => e.marks
  | op => ofWords (op.listing ++ (op.inputs list).flatMap (fun path => ["-i", path]) ++ op.settings)

/-- The filters that an operation adds. -/
def filterMarks (h : Host) : Operation → List Marks
  | resize r => r.marks
  | crop c => [c.marks]
  | rotate r => [r.marks]
  | caption c => [c.marks h]
  | overlay o => (if o.sourceFilter.isEmpty then [] else [o.sourceMarks]) ++ [o.overlayMarks h]
  | concat c => match c.strategy with
    | .filter => [c.marks]
    | .demuxer => []
  | _ => []

/-- The marked arguments are those that an operation adds to the command. -/
theorem map_render_argumentMarks (op : Operation) (h : Host) (list : Option String) :
    (op.argumentMarks list).map render = (Edit.operation op h list).arguments := by
  cases op with
  | trim t => exact t.map_render_marks
  | speed s => exact s.map_render_marks
  | adjustColor a => exact a.map_render_marks
  | encode e => exact e.map_render_marks
  | _ => exact map_render_ofWords _

end Operation

/-- The texts of all filters of a draft. -/
def Draft.texts (d : Draft) : List String := d.graph.filters.map Filter.text

theorem Draft.texts_addToGraph (d : Draft) (text : String) (kind : FilterKind) (inputs outputs : List String) :
    (d.addToGraph text kind inputs outputs).texts = d.texts ++ [text] := by
  unfold texts addToGraph FilterGraph.add
  by_cases h : outputs.isEmpty = true
  · simp [h, FilterGraph.allocate, FilterGraph.append]
  · simp [h, FilterGraph.append]

theorem Draft.texts_addSimple (d : Draft) (text : String) : (d.addSimple text).texts = d.texts ++ [text] :=
  d.texts_addToGraph text .simple [] []

theorem Overlay.texts_takeSource (o : Overlay) (d : Draft) : (o.takeSource d).2.texts =
    d.texts ++ if o.sourceFilter.isEmpty then [] else [o.sourceFilter] := by
  unfold takeSource
  by_cases h : o.sourceFilter.isEmpty = true
  · simp only [h, if_true, List.append_nil]
    rfl
  · simp only [h]
    exact Draft.texts_addToGraph _ _ _ _ _

theorem Concatenation.texts_joined (c : Concatenation) (d : Draft) :
    (c.joined d).texts = d.texts ++ [render c.marks] := by
  obtain ⟨extra, hdraft⟩ := addInputs_draft c.inputs d
  have hgraph : (addInputs c.inputs d).2.graph = d.graph := by rw [hdraft]
  have hlength : (addInputs c.inputs d).1.length = c.inputs.length := by
    rw [addInputs_numbers, List.length_range']
  have htext : (c.joinFilter (addInputs c.inputs d).1).text = render c.marks := by
    unfold joinFilter marks
    cases c.videoOnly <;> simp [hlength, Decimal.padded_zero, toString_text, String.append_assoc]
  have hjoined : (c.joined d).graph = d.graph.append (c.joinFilter (addInputs c.inputs d).1) := by
    rw [← hgraph]
    unfold joined
    cases c.videoOnly <;> rfl
  rw [Draft.texts, hjoined, FilterGraph.append, List.map_append, List.map_singleton, htext, Draft.texts]

namespace Operation

/-- The marked filters are those that an operation adds to the graph. -/
theorem Edits.texts_eq {op : Operation} {h : Host} {list : Option String} {d d' : Draft}
    (hedits : op.Edits h list d d') : d'.texts = d.texts ++ (op.filterMarks h).map render := by
  cases op with
  | resize r =>
    obtain ⟨text, htext, rfl⟩ := hedits
    rw [filterMarks, Resize.map_render_marks htext, Draft.texts_addSimple]
  | crop c =>
    cases hedits
    rw [filterMarks, List.map_singleton, c.render_marks, Draft.texts_addSimple]
  | rotate r =>
    cases hedits
    rw [filterMarks, List.map_singleton, r.render_marks, Draft.texts_addSimple]
  | caption c =>
    obtain ⟨text, htext, rfl⟩ := hedits
    rw [filterMarks, List.map_singleton, Caption.render_marks htext]
    exact d.texts_addToGraph _ _ _ _
  | overlay o =>
    obtain ⟨text, htext, rfl⟩ := hedits
    have hsource : (if o.sourceFilter.isEmpty then [] else [o.sourceMarks] : List Marks).map render =
        if o.sourceFilter.isEmpty then [] else [o.sourceFilter] := by
      split
      · rfl
      · rw [List.map_singleton, o.render_sourceMarks]
    rw [filterMarks, List.map_append, hsource, List.map_singleton, Overlay.render_overlayMarks htext,
      ← List.append_assoc, ← Overlay.texts_takeSource]
    exact Draft.texts_addToGraph _ _ _ _ _
  | concat c =>
    simp only [Edits] at hedits
    rw [filterMarks]
    cases hstrategy : c.strategy with
    | filter =>
      simp only [hstrategy] at hedits
      rw [hedits]
      exact c.texts_joined d
    | demuxer =>
      simp only [hstrategy] at hedits
      obtain ⟨-, path, -, rfl⟩ := hedits
      exact (List.append_nil _).symm
  | _ =>
    cases hedits
    exact (List.append_nil _).symm

end Operation

end Montage

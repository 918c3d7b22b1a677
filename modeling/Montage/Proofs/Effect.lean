import Montage.Proofs.Action
import Montage.Proofs.Check

/-!
# What an operation does to a draft

For each operation the draft that it leaves, said once. Proofs about sequences of calls build on
these statements and look into no operation.

* `Operation.perform_applyOverlay`, `Concatenation.perform_applyFilter`: equations for the two
  operations that take several steps.
* `Operation.Edits`: the draft that an operation makes of another, a case for each kind.
* `Operation.perform_apply_of_isPlain`: an operation that adds nothing but options and simple filters cannot
  fail once it passed its check.
* `Bench.add_ok`: an operation that was added passed its check and edited the draft in that way.
-/

namespace Montage

/-! ## Overlays -/

@[simp] theorem Bench.perform_requireText (text : Host → Except Failure String) (b : Bench) :
    (Bench.requireText text).perform b = (text b.host, b) := by
  unfold Bench.requireText
  rw [Action.perform_bind, Action.perform_get]
  exact Action.perform_expect _ b

/-- Registers the source of an overlay as an input, and the filter that prepares it if it needs
    one. Gives the label of the picture to lay over. -/
def Overlay.takeSource (o : Overlay) (d : Draft) : String × Draft :=
  let (number, d) := d.addInput o.source
  let raw := Concatenation.streamLabel "v" number
  if o.sourceFilter.isEmpty then (raw, d)
  else
    let (prepared, d) := d.allocate "ovl"
    (prepared, d.addComplex o.sourceFilter [raw] [prepared])

theorem Overlay.takeSource_command (o : Overlay) (d : Draft) :
    (o.takeSource d).2.command = (d.command.addInput o.source).2 := by
  unfold Overlay.takeSource
  by_cases h : o.sourceFilter.isEmpty = true
  · simp only [h, if_true]; rfl
  · simp only [h]; rfl

theorem Overlay.takeSource_isBuilt (o : Overlay) (d : Draft) :
    (o.takeSource d).2.isBuilt = d.isBuilt := by
  unfold Overlay.takeSource
  by_cases h : o.sourceFilter.isEmpty = true
  · simp only [h, if_true]; rfl
  · simp only [h]; rfl

/-- The draft with an overlay on it, given the text of the overlay filter. -/
def Overlay.laidOver (o : Overlay) (text : String) (d : Draft) : Draft :=
  (o.takeSource d).2.addComplex text [mainVideo, (o.takeSource d).1] []

/-- An overlay registers its source before it renders its filter, so the source stays registered
    if the filter cannot be rendered. -/
theorem Operation.perform_applyOverlay (o : Overlay) (b : Bench) :
    (Operation.applyOverlay o).perform b =
      match o.overlayFilter b.host with
      | .ok text => (.ok (), { b with draft := o.laidOver text b.draft })
      | .error f => (.error f, { b with draft := (o.takeSource b.draft).2 }) := by
  unfold Operation.applyOverlay
  rw [Action.perform_bind, Bench.perform_editGet]
  by_cases h : o.sourceFilter.isEmpty = true
  · have htake : o.takeSource b.draft =
        (Concatenation.streamLabel "v" (b.draft.addInput o.source).1,
          (b.draft.addInput o.source).2) := by
      rw [Overlay.takeSource]; simp only [h, if_true]
    simp only [h, if_true, Action.perform_bind, Action.perform_pure, Bench.perform_requireText,
      Bench.perform_edit]
    cases o.overlayFilter b.host <;> simp only [Overlay.laidOver, htake]
  · have htake : o.takeSource b.draft =
        (((b.draft.addInput o.source).2.allocate "ovl").1,
          ((b.draft.addInput o.source).2.allocate "ovl").2.addComplex o.sourceFilter
            [Concatenation.streamLabel "v" (b.draft.addInput o.source).1]
            [((b.draft.addInput o.source).2.allocate "ovl").1]) := by
      rw [Overlay.takeSource]; simp only [h]; rfl
    simp only [h, if_false, Bool.false_eq_true, Action.perform_bind, Action.perform_pure,
      Bench.perform_editGet, Bench.perform_edit, Bench.perform_requireText]
    cases o.overlayFilter b.host <;> simp only [Overlay.laidOver, htake]

/-! ## Concatenations -/

namespace Concatenation

/-- The source filter that joins inputs with the given numbers. -/
def joinFilter (c : Concatenation) (numbers : List Nat) : Filter :=
  let count := Decimal.ofInt numbers.length
  if c.videoOnly then
    ⟨s!"concat=n={count}:v=1", .complex, numbers.map (streamLabel "v"), ["[outv]"], true⟩
  else
    ⟨s!"concat=n={count}:v=1:a=1", .complex,
      numbers.flatMap fun n => [streamLabel "v" n, streamLabel "a" n], ["[outv]", "[outa]"], true⟩

/-- The draft with the files of a concatenation as inputs and joined in the graph. -/
def joined (c : Concatenation) (d : Draft) : Draft :=
  let (numbers, d) := addInputs c.inputs d
  let d := { d with graph := d.graph.append (c.joinFilter numbers) }
  if c.videoOnly then d.dropAudio else d.mapAudio "[outa]"

/-- The draft with a list file as its primary input. -/
def listed (path : String) (d : Draft) : Draft :=
  ((d.append ["-f", "concat", "-safe", "0"]).withInput path).append ["-c", "copy"]

/-- The filter strategy never fails once the files are there. -/
theorem perform_applyFilter (c : Concatenation) (b : Bench) :
    c.applyFilter.perform b = (.ok (), { b with draft := c.joined b.draft }) := by
  unfold applyFilter
  rw [Action.perform_bind, Bench.perform_editGet]
  simp only
  cases h : c.videoOnly
  · simp only [Bool.false_eq_true, if_false, Action.perform_bind, Bench.editOrFail,
      Action.perform_get, Draft.addSource, FilterGraph.addSource, List.isEmpty_cons]
    simp [joined, joinFilter, h, bind, Except.bind, pure, Except.pure]
  · simp only [if_true, Action.perform_bind, Bench.editOrFail,
      Action.perform_get, Draft.addSource, FilterGraph.addSource, List.isEmpty_cons,
      Bool.false_eq_true, if_false]
    simp [joined, joinFilter, h, bind, Except.bind, pure, Except.pure]

/-- The demuxer strategy touches the draft only as its last steps, which cannot fail: it takes a
    draft without an input, and the list file that it wrote becomes the input. -/
theorem applyDemuxer_cases (c : Concatenation) (b : Bench) :
    (∃ f b', c.applyDemuxer.perform b = (.error f, b') ∧ b'.draft = b.draft) ∨
      ∃ path b', c.applyDemuxer.perform b = (.ok (), b') ∧ b.draft.command.input = none ∧
        b'.listFile = some path ∧ b'.draft = listed path b.draft := by
  unfold applyDemuxer
  rw [Action.perform_bind, Action.perform_get]
  by_cases hin : b.draft.command.input.isSome = true
  · left
    simp only [hin, if_true]
    exact ⟨_, b, rfl, rfl⟩
  · simp only [hin, Bool.false_eq_true, if_false]
    have hnone : b.draft.command.input = none := by simpa using hin
    rw [Action.perform_bind, Bench.perform_onHost]
    rcases hw : c.writeList.perform b.host with ⟨f | path, h⟩
    · left
      exact ⟨f, { b with host := h }, rfl, rfl⟩
    · simp only [Action.perform_bind, Action.perform_modify, Bench.perform_onHost]
      generalize Log.debug _ = logging
      rcases hl : logging.perform h with ⟨f | _, h'⟩
      · left
        exact ⟨f, { b with host := h', listFile := some path }, rfl, rfl⟩
      · right
        exact ⟨path, { host := h', draft := listed path b.draft, listFile := some path }, rfl,
          hnone, rfl, rfl⟩

end Concatenation

/-! ## All operations -/

/-- The draft `d'` that an operation makes of `d` on a host, having written the list file `list`
    if it writes one. -/
def Operation.Edits (h : Host) (list : Option String) (d d' : Draft) : Operation → Prop
  | trim t => d' = d.append t.arguments
  | resize r => ∃ text, r.filter? = .ok (some text) ∧ d' = d.addSimple text
  | crop c => d' = d.addSimple c.filterText
  | rotate r => d' = d.addSimple r.filterText
  | speed s => d' = { d with command := s.apply d.command }
  | adjustColor a => d' = { d with command := a.apply d.command }
  | caption c => ∃ text, c.filterText h = .ok text ∧ d' = d.addComplex text
  | overlay o => ∃ text, o.overlayFilter h = .ok text ∧ d' = o.laidOver text d
  | encode e => d' = d.append e.arguments
  | concat c =>
    match c.strategy with
    | .filter => d' = c.joined d
    | .demuxer => d.command.input = none ∧ ∃ path, list = some path ∧
        d' = Concatenation.listed path d

theorem Bench.perform_add (op : Operation) (b : Bench) :
    (Bench.add op).perform b =
      match op.check b.host with
      | .ok () => op.apply.perform b
      | .error f => (.error f, b) := by
  unfold Bench.add
  rw [Action.perform_bind, Action.perform_get]
  simp only
  rw [Action.perform_bind, Action.perform_expect]
  cases op.check b.host <;> rfl

/-- Whether an operation adds nothing but options and simple filters. -/
def Operation.isPlain : Operation → Bool
  | caption _ | overlay _ | concat _ => false
  | _ => true

/-- A plain operation that passed its check edits the draft, and nothing can fail. -/
theorem Operation.perform_apply_of_isPlain {op : Operation} {b : Bench} (hplain : op.isPlain = true)
    (hc : op.check b.host = .ok ()) :
    ∃ draft, op.apply.perform b = (.ok (), { b with draft }) ∧
      op.Edits b.host b.listFile b.draft draft := by
  cases op with
  | trim t => exact ⟨_, rfl, rfl⟩
  | resize r =>
    obtain ⟨text, ht⟩ := Resize.filter?_of_check (mapError_eq_ok.mp hc)
    simp only [apply, Bench.resize, ht, Action.perform_bind, Action.perform_require_ok,
      Bench.perform_edit]
    exact ⟨_, rfl, text, ht, rfl⟩
  | crop c =>
    have hc' : c.check = .ok () := mapError_eq_ok.mp hc
    simp only [apply, Bench.crop, hc', Action.perform_bind, Action.perform_require_ok,
      Bench.perform_edit]
    exact ⟨_, rfl, rfl⟩
  | rotate r =>
    have hc' : r.check = .ok () := mapError_eq_ok.mp hc
    simp only [apply, Bench.rotate, hc', Action.perform_bind, Action.perform_require_ok,
      Bench.perform_edit]
    exact ⟨_, rfl, rfl⟩
  | speed s => exact ⟨_, rfl, rfl⟩
  | adjustColor a => exact ⟨_, rfl, rfl⟩
  | encode e => exact ⟨_, rfl, rfl⟩
  | caption c => cases hplain
  | overlay o => cases hplain
  | concat c => cases hplain

/-- An operation that was added passed its check, and edited the draft as its kind does. -/
theorem Bench.add_ok {op : Operation} {b b' : Bench} (h : (Bench.add op).perform b = (.ok (), b')) :
    op.check b.host = .ok () ∧ op.Edits b.host b'.listFile b.draft b'.draft := by
  rw [Bench.perform_add] at h
  rcases hc : op.check b.host with e | _
  · rw [hc] at h; cases h
  rw [hc] at h
  refine ⟨rfl, ?_⟩
  cases op with
  | caption c =>
    simp only [Operation.apply, Action.perform_bind, Bench.perform_requireText] at h
    rcases hf : c.filterText b.host with f | text
    · rw [hf] at h; cases h
    · rw [hf] at h; cases h; exact ⟨text, hf, rfl⟩
  | overlay o =>
    simp only [Operation.apply, Operation.perform_applyOverlay] at h
    rcases hf : o.overlayFilter b.host with f | text
    · rw [hf] at h; cases h
    · rw [hf] at h; cases h; exact ⟨text, hf, rfl⟩
  | concat c =>
    simp only [Operation.apply, Concatenation.apply] at h
    simp only [Operation.Edits]
    rcases hs : c.strategy with _ | _
    · simp only [hs, Concatenation.perform_applyFilter] at h
      cases h; rfl
    · simp only [hs] at h
      rcases c.applyDemuxer_cases b with ⟨f, b₁, hb, -⟩ | ⟨path, b₁, hb, hin, hlist, hdraft⟩
      · rw [hb] at h; cases h
      · rw [hb] at h; cases h; exact ⟨hin, path, hlist, hdraft⟩
  | _ =>
    obtain ⟨draft, happly, hedits⟩ := Operation.perform_apply_of_isPlain rfl hc
    simp only [happly] at h
    cases h
    exact hedits

end Montage

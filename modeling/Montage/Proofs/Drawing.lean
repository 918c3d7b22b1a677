import Montage.Proofs.UsedOnce

/-!
# Orders of drawing

Not every order of calls uses each stream of the graph once. A concatenation by the filter strategy
starts the main stream anew, so what was drawn before is lost. An overlay that becomes the first
input is taken for the main stream, so that stream is read twice.

Results:
* `Broken.draw`: a stream that is written twice, read twice or lost stays so whatever follows.
* `Edit.broken_of_not_fits`: an edit that does not fit breaks the graph.
* `Bench.usedOnce_iff_wellOrdered`: which calls give a graph with each stream used once, exactly.
-/

namespace Montage

open Argument
open FilterGraph (label)
open Concatenation (streamLabel)

/-! ## Broken graphs -/

/-- A label that is written, not read, and not mapped. -/
structure Lost (s : Sketch) (l : String) : Prop where
  written : l ∈ outputsOf s.segments
  unread : l ∉ inputsOf s.segments
  unmapped : l ∉ s.maps

/-- Some label is written twice, some written label is read twice, or some is lost. -/
def Broken (s : Sketch) : Prop :=
  ¬ (outputsOf s.segments).Nodup ∨
    (∃ l ∈ outputsOf s.segments, 2 ≤ (inputsOf s.segments).count l) ∨ ∃ l, Lost s l

theorem Broken.not_usedOnce {s : Sketch} (h : Broken s) : ¬ UsedOnce s.segments s.maps := by
  intro hu
  rcases h with hnodup | ⟨l, hl, htwice⟩ | ⟨l, hlost⟩
  · exact hnodup hu.nodup
  · have := hu.count_eq_one hl
    rw [List.count_append] at this
    omega
  · have := hu.count_eq_one hlost.written
    rw [List.count_append, List.count_eq_zero.mpr hlost.unread,
      List.count_eq_zero.mpr hlost.unmapped] at this
    omega

namespace Lost

variable {n : Nat} {s : Sketch} {l : String}

/-- Neither the main stream nor a stream of an input is a lost label. -/
theorem ne_videoOf (hw : Wired n s) (h : Lost s l) (i : Nat) : l ≠ s.videoOf i := by
  unfold Sketch.videoOf
  by_cases h0 : i = 0
  · rw [if_pos h0]
    rintro rfl
    exact h.unmapped List.mem_cons_self
  · rw [if_neg h0]
    exact (hw.written l h.written).ne_streamLabel "v" i

theorem lay (hw : Wired n s) (h : Lost s l) {inputs : List String} {text : String}
    (hl : l ∉ inputs) : Lost (s.lay inputs text) l where
  written := by simp [Sketch.lay, h.written]
  unread := by simp [Sketch.lay, h.unread, hl]
  unmapped := by
    have hne : l ≠ label "out" s.counter := by
      rintro rfl
      exact Written.out_fresh (Nat.le_refl _) (hw.written _ h.written)
    have haudio : l ∉ s.audioMaps := fun ha => h.unmapped (List.mem_cons_of_mem _ ha)
    exact List.not_mem_cons_of_ne_of_not_mem hne haudio

theorem prepare (hw : Wired n s) (h : Lost s l) (i : Nat) (text : String) :
    Lost (s.prepare i text) l ∧ l ≠ label "ovl" s.counter := by
  have hne : l ≠ label "ovl" s.counter := by
    rintro rfl
    exact Written.ovl_fresh (Nat.le_refl _) (hw.written _ h.written)
  have hmain : l ≠ s.main := fun heq => h.unmapped (heq ▸ List.mem_cons_self)
  have haudio : l ∉ s.audioMaps := fun ha => h.unmapped (List.mem_cons_of_mem _ ha)
  refine ⟨⟨by simp [Sketch.prepare, h.written], ?_, ?_⟩, hne⟩
  · simp [Sketch.prepare, h.unread, h.ne_videoOf hw i]
  · refine List.not_mem_cons_of_ne_of_not_mem ?_ haudio
    simp only [Sketch.prepare]
    by_cases h0 : i = 0
    · simpa only [h0, if_true] using hne
    · simpa only [h0, if_false] using hmain

theorem overlay (hw : Wired n s) (h : Lost s l) (o : Overlay) (text : String) {i : Nat}
    (hi : i < n) : Lost (s.overlay o text i) l := by
  have hmain : l ≠ s.main := fun heq => h.unmapped (heq ▸ List.mem_cons_self)
  unfold Sketch.overlay
  by_cases ho : o.sourceFilter.isEmpty = true
  · simp only [ho, if_true]
    exact h.lay hw (by simp [hmain, h.ne_videoOf hw i])
  · simp only [ho, if_false, Bool.false_eq_true]
    obtain ⟨hp, hne⟩ := h.prepare hw i o.sourceFilter
    have hmain' : l ≠ (s.prepare i o.sourceFilter).main :=
      fun heq => hp.unmapped (heq ▸ List.mem_cons_self)
    exact hp.lay (hw.prepare hi _) (by simp [hmain', hne])

end Lost

/-- A concatenation reads nothing that was drawn before. It loses it, or it writes the label
    again. -/
theorem Broken.of_join {n : Nat} {s : Sketch} {l : String} (hw : Wired n s)
    (hl : l ∈ outputsOf s.segments) (hunread : l ∉ inputsOf s.segments) (c : Concatenation)
    (i : Nat) : Broken (s.join c i) := by
  by_cases hout : l ∈ (c.joinFilter (List.range' i c.inputs.length)).outputs
  · left
    simp only [Sketch.join, outputsOf_append, outputsOf_singleton, List.nodup_append]
    rintro ⟨-, -, hdisjoint⟩
    exact hdisjoint l hl l hout rfl
  · refine .inr (.inr ⟨l, ?_, ?_, by rwa [Sketch.join_maps]⟩)
    · simp [Sketch.join, hl]
    · simp only [Sketch.join, inputsOf_append, inputsOf_singleton, List.mem_append, not_or]
      refine ⟨hunread, fun hin => ?_⟩
      obtain ⟨j, -, hstream | hstream⟩ := c.joinFilter_inputs hin
      · exact (hw.written l hl).ne_streamLabel "v" j hstream
      · exact (hw.written l hl).ne_streamLabel "a" j hstream

/-- No edit repairs a broken graph. -/
theorem Broken.draw {n i : Nat} {s : Sketch} (hw : Wired n s) (h : Broken s) {e : Edit}
    (hi : i + e.inputs.length ≤ n) : Broken (e.draw i s) := by
  obtain ⟨rest, hrest⟩ := e.draw_segments i s
  rcases h with hnodup | ⟨l, hl, htwice⟩ | ⟨l, hlost⟩
  · left
    rw [hrest, outputsOf_append]
    exact fun h => hnodup (List.nodup_append.mp h).1
  · refine .inr (.inl ⟨l, ?_, ?_⟩)
    · rw [hrest, outputsOf_append]
      exact List.mem_append_left _ hl
    · rw [hrest, inputsOf_append, List.count_append]
      omega
  · have stays (hlost : Lost (e.draw i s) l) : Broken (e.draw i s) := .inr (.inr ⟨l, hlost⟩)
    cases e with
    | operation op host list =>
      cases op with
      | caption c =>
        refine stays (hlost.lay hw ?_)
        rw [List.mem_singleton]
        rintro rfl
        exact hlost.unmapped List.mem_cons_self
      | overlay o =>
        have hlt : i < n := hi
        exact stays (hlost.overlay hw o _ hlt)
      | concat c =>
        simp only [Edit.draw, Operation.draw] at stays ⊢
        rcases hs : c.strategy with _ | _
        · exact .of_join hw hlost.written hlost.unread c i
        · rw [hs] at stays; exact stays hlost
      | _ => exact stays ⟨hlost.written, hlost.unread, hlost.unmapped⟩
    | _ => exact stays hlost

/-- An edit that does not fit leaves a graph broken in which each stream was used once: a
    concatenation drops the main stream or writes its label again, an overlay reads it twice. -/
theorem Edit.broken_of_not_fits {n i : Nat} {s : Sketch} {e : Edit} (hw : Wired n s)
    (hhead : s.Headed) (h : UsedOnce s.segments s.maps) (hfit : ¬ e.Fits i s) :
    Broken (e.draw i s) := by
  cases e with
  | operation op host list =>
    cases op with
    | overlay o =>
      simp only [Fits, Classical.not_imp, not_and_or] at hfit
      obtain ⟨rfl, hfit⟩ := hfit
      refine .inr (.inl ?_)
      simp only [draw, Operation.draw, Sketch.overlay]
      by_cases ho : o.sourceFilter.isEmpty = true
      · simp only [ho, if_true]
        rcases hfit with hfit | hfit
        · exact absurd ho hfit
        rcases hhead with ⟨hnil, -⟩ | hmain
        · exact absurd hnil hfit
        refine ⟨s.main, by simp [Sketch.lay, hmain], ?_⟩
        simp [Sketch.lay, Sketch.videoOf, List.count_append]
      · simp only [ho, if_false, Bool.false_eq_true]
        refine ⟨label "ovl" s.counter, by simp [Sketch.lay, Sketch.prepare], ?_⟩
        simp only [Sketch.lay, Sketch.prepare, inputsOf_append, inputsOf_singleton,
          List.count_append, if_true, List.count_cons_self]
        omega
    | concat c =>
      simp only [Fits, Classical.not_imp] at hfit
      obtain ⟨hs, hne⟩ := hfit
      rcases hhead with ⟨hnil, -⟩ | hmain
      · exact absurd hnil hne
      simp only [draw, Operation.draw, hs]
      exact .of_join hw hmain (h.notMem_inputs hmain List.mem_cons_self) c i
    | _ => exact absurd trivial hfit
  | _ => exact absurd trivial hfit

/-! ## Orders of calls -/

namespace Bench

/-- Whether a call adds an input. -/
def Call.addsInput : Call → Bool
  | input _ => true
  | output .. => false
  | add op => op.addsInput

/-- Whether a call draws on the main stream. -/
def Call.draws : Call → Bool
  | add (.caption _) => true
  | add (.overlay _) => true
  | add (.concat c) => c.strategy = .filter
  | _ => false

/-- A call that may stand behind others: nothing is drawn before a concatenation by the filter
    strategy, and an overlay before any input needs no preparation and has nothing drawn before. -/
def Call.FitsBehind (before : List Call) : Call → Prop
  | add (.overlay o) => (∀ b ∈ before, b.addsInput = false) →
      o.sourceFilter.isEmpty = true ∧ ∀ b ∈ before, b.draws = false
  | add (.concat c) => c.strategy = .filter → ∀ b ∈ before, b.draws = false
  | _ => True

/-- Calls in an order in which each may stand behind those before it. -/
def WellOrdered (calls : List Call) : Prop :=
  ∀ before c after, calls = before ++ c :: after → c.FitsBehind before

theorem wellOrdered_nil : WellOrdered [] := by
  rintro before c after h
  simp at h

theorem wellOrdered_concat_iff {calls : List Call} {c : Call} :
    WellOrdered (calls ++ [c]) ↔ WellOrdered calls ∧ c.FitsBehind calls := by
  constructor
  · intro h
    refine ⟨?_, h calls c [] rfl⟩
    rintro before b after rfl
    exact h before b (after ++ [c]) (by simp)
  · rintro ⟨h, hc⟩ before b after hcut
    rcases concat_eq_append_cons hcut with ⟨-, rfl, rfl⟩ | ⟨rest, -, hrest⟩
    · exact hc
    · exact h before b rest hrest

end Bench

/-! ## Orders of edits -/

theorem Edit.addsInput_call (e : Edit) : e.call.addsInput = e.addsInput := by
  cases e <;> rfl

theorem Edit.draw_segments_eq_nil_iff (e : Edit) (i : Nat) (s : Sketch) :
    (e.draw i s).segments = [] ↔ s.segments = [] ∧ e.call.draws = false := by
  cases e with
  | operation op host list =>
    cases op with
    | caption c => simp [draw, Operation.draw, Sketch.lay, call, Bench.Call.draws]
    | overlay o =>
      simp only [draw, Operation.draw, Sketch.overlay]
      by_cases ho : o.sourceFilter.isEmpty = true
      · simp [ho, Sketch.lay, call, Bench.Call.draws]
      · simp [ho, Sketch.lay, call, Bench.Call.draws]
    | concat c =>
      simp only [draw, Operation.draw]
      rcases hs : c.strategy with _ | _ <;> simp [hs, Sketch.join, call, Bench.Call.draws]
    | _ => simp [draw, Operation.draw, Sketch.skipLabel, call, Bench.Call.draws]
  | _ => simp [draw, call, Bench.Call.draws]

namespace Edits

variable {program : String} {d : Draft} {es : List Edit}

/-- In a new draft the next input is the first one as long as no call added one. -/
theorem inputCount_eq_zero_iff (h : Edits (.ofProgram program) es d) :
    d.command.inputCount = 0 ↔ ∀ c ∈ es.map Edit.call, c.addsInput = false := by
  induction es using List.reverseRecOn generalizing d with
  | nil => cases h; simp [Draft.ofProgram]
  | append_singleton es e ih =>
    obtain ⟨m, hm, he⟩ := Edits.snoc_iff.mp h
    have hcount := congrArg Command.inputCount he.command_eq
    have hnil := he.inputs_eq_nil_iff
    rw [← List.length_eq_zero_iff, ← e.addsInput_call] at hnil
    simp only [List.map_append, List.map_cons, List.map_nil, List.forall_mem_append,
      List.forall_mem_singleton, ← ih hm, ← hnil, hcount]
    omega

/-- There are no segments as long as no call drew one. -/
theorem segments_eq_nil_iff (h : Edits (.ofProgram program) es d) :
    d.sketch.segments = [] ↔ ∀ c ∈ es.map Edit.call, c.draws = false := by
  induction es using List.reverseRecOn generalizing d with
  | nil => cases h; simp; rfl
  | append_singleton es e ih =>
    obtain ⟨m, hm, he⟩ := Edits.snoc_iff.mp h
    rw [he.sketch_eq, Edit.draw_segments_eq_nil_iff, ih hm]
    simp only [List.map_append, List.map_cons, List.map_nil, List.forall_mem_append,
      List.forall_mem_singleton]

theorem fits_iff (h : Edits (.ofProgram program) es d) (e : Edit) :
    e.Fits d.command.inputCount d.sketch ↔ e.call.FitsBehind (es.map Edit.call) := by
  cases e with
  | operation op host list =>
    cases op with
    | overlay o =>
      simp only [Edit.Fits, Edit.call, Bench.Call.FitsBehind, h.inputCount_eq_zero_iff,
        h.segments_eq_nil_iff]
    | concat c =>
      simp only [Edit.Fits, Edit.call, Bench.Call.FitsBehind, h.segments_eq_nil_iff]
    | _ => exact Iff.rfl
  | _ => exact Iff.rfl

/-- Edits in a good order use each stream once, and those in any other break the graph. -/
theorem usedOnce_or_broken (h : Edits (.ofProgram program) es d) :
    (Bench.WellOrdered (es.map Edit.call) ∧ UsedOnce d.sketch.segments d.sketch.maps) ∨
      (¬ Bench.WellOrdered (es.map Edit.call) ∧ Broken d.sketch) := by
  induction es using List.reverseRecOn generalizing d with
  | nil => cases h; exact .inl ⟨Bench.wellOrdered_nil, .nil⟩
  | append_singleton es e ih =>
    obtain ⟨m, hm, he⟩ := Edits.snoc_iff.mp h
    have hcount := congrArg Command.inputCount he.command_eq
    -- The bound lies beyond all inputs, so that the wiring holds even before the first of them.
    have hw : Wired (d.command.inputCount + 1) m.sketch :=
      hm.wired (Nat.succ_pos _) .start (by rw [hcount]; simp only; omega)
    have hi : m.command.inputCount + e.inputs.length ≤ d.command.inputCount + 1 := by
      rw [hcount]; simp
    have hhead : m.sketch.Headed := hm.headed (.inl ⟨rfl, rfl⟩)
    rw [he.sketch_eq, List.map_append, List.map_singleton, Bench.wellOrdered_concat_iff,
      ← hm.fits_iff]
    -- Once the graph is broken it stays so; else the last edit decides.
    rcases ih hm with ⟨hordered, hused⟩ | ⟨hdisordered, hbroken⟩
    · by_cases hfit : e.Fits m.command.inputCount m.sketch
      · exact .inl ⟨⟨hordered, hfit⟩, .draw hw (Nat.succ_pos _) hused hi hfit⟩
      · exact .inr ⟨fun h => hfit h.2, Edit.broken_of_not_fits hw hhead hused hfit⟩
    · exact .inr ⟨fun h => hdisordered h.1, hbroken.draw hw hi⟩

end Edits

/-! ## Built commands -/

namespace Bench

/-- **Use of streams.** Let calls on a new bench succeed and a command with a graph be built. In
    it each label is written by one segment and used once, by a later segment or by a map, exactly
    if the calls are well ordered: nothing is drawn before a concatenation by the filter strategy,
    and an overlay before any input needs no preparation and has nothing drawn before it. -/
theorem usedOnce_iff_wellOrdered {program : String} {host : Host} {calls : List Call}
    {b b' : Bench} {c : Command}
    (hcalls : (sequence calls).perform ⟨host, .ofProgram program, none⟩ = (.ok (), b))
    (hbuild : build.perform b = (.ok c, b')) (hgraph : values "-filter_complex" c.read ≠ []) :
    values "-filter_complex" c.read = [b.draft.graphText] ∧
      (UsedOnce b.draft.graph.segments (values "-map" c.read) ↔ WellOrdered calls) := by
  obtain ⟨es, rfl, hes⟩ := sequence_ok hcalls
  obtain ⟨-, -, hclosed, hbuilt⟩ := hes.command
  obtain ⟨-, hread⟩ := build_ok hbuild hbuilt hclosed
  have hflags : (Draft.ofProgram program).command.arguments ⊆ flagNames := List.nil_subset _
  have hvalues {name : String} (hname : name ∉ Edit.optionNames) :=
    hes.values_rendered hflags hname
  rw [hread, hvalues (by decide)] at hgraph ⊢
  have hcomplex := Draft.hasComplex_of_values hgraph
  rw [hvalues (by decide), Draft.values_map hcomplex]
  refine ⟨Draft.values_graph hcomplex, ?_⟩
  rcases hes.usedOnce_or_broken with ⟨hordered, hused⟩ | ⟨hdisordered, hbroken⟩
  · exact iff_of_true hused hordered
  · exact iff_of_false hbroken.not_usedOnce hdisordered

/-- A title on a video, and then a logo. -/
theorem usedOnce_title_and_logo :
    let host : Host := { tree := { entries := [(["logo.png"], .file "" false)] } }
    let calls : List Call :=
      [.input "in.mp4", .add (.caption { text := "Title" }), .output "out.mp4" {},
        .add (.overlay { source := "logo.png", width := some 64 })]
    ∃ b b' c, (sequence calls).perform ⟨host, .ofProgram "ffmpeg", none⟩ = (.ok (), b) ∧
      build.perform b = (.ok c, b') ∧ values "-filter_complex" c.read ≠ [] ∧
      values "-filter_complex" c.read = [b.draft.graphText] ∧
      (UsedOnce b.draft.graph.segments (values "-map" c.read) ↔ WellOrdered calls) := by
  intro host calls
  let start : Bench := ⟨host, .ofProgram "ffmpeg", none⟩
  have hcalls := Action.perform_of_isOk
    (show ((sequence calls).perform start).1.isOk = true by decide +kernel)
  obtain ⟨c, hbuild, hgraph⟩ := Action.perform_of_any
    (show ((build.perform ((sequence calls).perform start).2).1.toOption.any
      fun c => decide (values "-filter_complex" c.read ≠ [])) = true by decide +kernel)
  exact ⟨_, _, c, hcalls, hbuild, hgraph, usedOnce_iff_wellOrdered hcalls hbuild hgraph⟩

/-- A logo that is laid over before the input is declared is taken for the main stream: the graph
    reads its prepared stream twice. -/
theorem overlay_before_input_reads_twice :
    let host : Host := { tree := { entries := [(["logo.png"], .file "" false)] } }
    let calls : List Call :=
      [.add (.overlay { source := "logo.png", width := some 64 }), .input "in.mp4",
        .output "out.mp4" {}]
    ∃ b b' c, (sequence calls).perform ⟨host, .ofProgram "ffmpeg", none⟩ = (.ok (), b) ∧
      build.perform b = (.ok c, b') ∧
      values "-filter_complex" c.read =
        ["[0:v]scale=64:-1[ovl0];[ovl0][ovl0]overlay=0:0[out1]"] ∧
      ¬ UsedOnce b.draft.graph.segments (values "-map" c.read) := by
  intro host calls
  let start : Bench := ⟨host, .ofProgram "ffmpeg", none⟩
  have hcalls := Action.perform_of_isOk
    (show ((sequence calls).perform start).1.isOk = true by decide +kernel)
  have hwritten :
      "[ovl0]" ∈ outputsOf ((sequence calls).perform start).2.draft.graph.segments := by
    decide +kernel
  have hread : (inputsOf ((sequence calls).perform start).2.draft.graph.segments).count "[ovl0]" =
      2 := by
    decide +kernel
  obtain ⟨c, hbuild, hgraph⟩ := Action.perform_of_any
    (show ((build.perform ((sequence calls).perform start).2).1.toOption.any
      fun c => decide (values "-filter_complex" c.read =
        ["[0:v]scale=64:-1[ovl0];[ovl0][ovl0]overlay=0:0[out1]"])) = true by decide +kernel)
  refine ⟨_, _, c, hcalls, hbuild, hgraph, ?_⟩
  intro hused
  have hcount := hused.count_eq_one hwritten
  rw [List.count_append, hread] at hcount
  omega

end Bench

end Montage

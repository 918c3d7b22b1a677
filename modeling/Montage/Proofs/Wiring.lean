import Montage.Proofs.Sketch

/-!
# The wiring of a graph

A segment may read the streams of the inputs and what earlier segments write. Every edit keeps a
graph wired so, whatever the order of the edits.

* `Resolves`: every label that is read stands for a stream of an input or was written before.
* `Wired`: the invariant, with the labels of the main stream and of the audio.
* `Wired.draw`: each edit keeps it.
* `Edits.wired`: it holds after any row of edits.
-/

namespace Montage

open FilterGraph (label)
open Concatenation (streamLabel)

/-! ## Resolved labels -/

/-- A video or audio stream of one of the first `n` inputs. -/
def IsStream (n : Nat) (l : String) : Prop :=
  ∃ i < n, l = streamLabel "v" i ∨ l = streamLabel "a" i

/-- The labels that segments write. -/
def outputsOf (segments : List Segment) : List String := segments.flatMap Segment.outputs

@[simp] theorem outputsOf_append (xs ys : List Segment) :
    outputsOf (xs ++ ys) = outputsOf xs ++ outputsOf ys := List.flatMap_append

@[simp] theorem outputsOf_nil : outputsOf [] = [] := rfl

@[simp] theorem outputsOf_cons (s : Segment) (rest : List Segment) :
    outputsOf (s :: rest) = s.outputs ++ outputsOf rest := List.flatMap_cons

theorem outputsOf_singleton (s : Segment) : outputsOf [s] = s.outputs := by
  simp

/-- Every label that a segment reads is a stream of one of `n` inputs, or an output of an earlier
    segment. -/
def Resolves (n : Nat) (segments : List Segment) : Prop :=
  ∀ before segment after, segments = before ++ segment :: after →
    ∀ l ∈ segment.inputs, IsStream n l ∨ l ∈ outputsOf before

/-- A row of segments with one more is cut behind that one or before it. -/
theorem concat_eq_append_cons {α : Type} {xs before after : List α} {x y : α}
    (h : xs ++ [x] = before ++ y :: after) :
    (after = [] ∧ before = xs ∧ y = x) ∨
      ∃ rest, after = rest ++ [x] ∧ xs = before ++ y :: rest := by
  rcases List.eq_nil_or_concat after with rfl | ⟨rest, z, rfl⟩
  · obtain ⟨hxs, hy⟩ := List.append_inj' h rfl
    exact .inl ⟨rfl, hxs.symm, by simpa using hy.symm⟩
  · right
    have h' : xs ++ [x] = (before ++ y :: rest) ++ [z] := by simpa using h
    obtain ⟨hxs, hz⟩ := List.append_inj' h' rfl
    exact ⟨rest, by simpa using hz.symm, hxs⟩

theorem Resolves.concat {n : Nat} {segments : List Segment} {s : Segment}
    (h : Resolves n segments) (hs : ∀ l ∈ s.inputs, IsStream n l ∨ l ∈ outputsOf segments) :
    Resolves n (segments ++ [s]) := by
  intro before segment after hcut l hl
  rcases concat_eq_append_cons hcut with ⟨-, rfl, rfl⟩ | ⟨rest, -, hrest⟩
  · exact hs l hl
  · exact h before segment rest hrest l hl

/-- What is read is a stream or is written somewhere. -/
theorem Resolves.mem_inputs {n : Nat} {segments : List Segment} (h : Resolves n segments)
    {l : String} (hl : l ∈ segments.flatMap Segment.inputs) :
    IsStream n l ∨ l ∈ outputsOf segments := by
  obtain ⟨s, hs, hread⟩ := List.mem_flatMap.mp hl
  obtain ⟨before, after, rfl⟩ := List.append_of_mem hs
  rcases h before s after rfl l hread with h | h
  · exact .inl h
  · exact .inr (by rw [outputsOf_append]; exact List.mem_append_left _ h)

/-! ## Concatenations -/

namespace Concatenation

variable (c : Concatenation) {numbers : List Nat} {l : String}

theorem joinFilter_outputs_nodup (numbers : List Nat) : (c.joinFilter numbers).outputs.Nodup := by
  unfold joinFilter
  cases c.videoOnly <;> simp

theorem mem_joinFilter_outputs (numbers : List Nat) :
    "[outv]" ∈ (c.joinFilter numbers).outputs := by
  unfold joinFilter
  cases c.videoOnly <;> simp

theorem written_of_joinFilter {k : Nat} (h : l ∈ (c.joinFilter numbers).outputs) :
    Written k l := by
  unfold joinFilter at h
  cases hv : c.videoOnly <;> simp [hv] at h
  · rcases h with rfl | rfl
    · exact .video
    · exact .audio
  · rw [h]; exact .video

/-- A concatenation reads the streams of its inputs, whatever was drawn before. -/
theorem joinFilter_inputs (h : l ∈ (c.joinFilter numbers).inputs) :
    ∃ i ∈ numbers, l = streamLabel "v" i ∨ l = streamLabel "a" i := by
  unfold joinFilter at h
  cases hv : c.videoOnly <;> simp [hv] at h
  · exact h
  · obtain ⟨i, hi, h⟩ := h
    exact ⟨i, hi, .inl h.symm⟩

end Concatenation

/-! ## The invariant -/

/-- A sketch whose labels stand for streams of `n` inputs or for outputs of segments. -/
structure Wired (n : Nat) (s : Sketch) : Prop where
  resolves : Resolves n s.segments
  written : ∀ l ∈ outputsOf s.segments, Written s.counter l
  main : s.main = mainVideo ∨ s.main ∈ outputsOf s.segments
  audio : ∀ l, s.audio = some l → l = "[outa]" ∧ l ∈ outputsOf s.segments

namespace Wired

variable {n : Nat} {s : Sketch}

theorem start : Wired n {} where
  resolves := by rintro before segment after h; simp at h
  written := by rintro l ⟨⟩
  main := .inl rfl
  audio := by rintro l ⟨⟩

theorem main_known (h : Wired n s) (hn : 0 < n) :
    IsStream n s.main ∨ s.main ∈ outputsOf s.segments := by
  rcases h.main with hmain | hmain
  · exact .inl ⟨0, hn, .inl (hmain.trans (streamLabel_eq_mainVideo_iff.mpr rfl).symm)⟩
  · exact .inr hmain

theorem videoOf_known (h : Wired n s) {i : Nat} (hi : i < n) :
    IsStream n (s.videoOf i) ∨ s.videoOf i ∈ outputsOf s.segments := by
  by_cases h0 : i = 0
  · rw [Sketch.videoOf, if_pos h0]
    exact h.main_known (by omega)
  · rw [Sketch.videoOf, if_neg h0]
    exact .inl ⟨i, hi, .inl rfl⟩

theorem skipLabel (h : Wired n s) : Wired n s.skipLabel where
  resolves := h.resolves
  written l hl := (h.written l hl).mono (Nat.le_succ _)
  main := h.main
  audio := h.audio

/-- A segment that reads known labels and writes the next label of the counter. -/
theorem lay (h : Wired n s) {inputs : List String} {text : String}
    (hin : ∀ l ∈ inputs, IsStream n l ∨ l ∈ outputsOf s.segments) :
    Wired n (s.lay inputs text) where
  resolves := h.resolves.concat hin
  written l hl := by
    simp only [Sketch.lay, outputsOf_append, outputsOf_singleton, List.mem_append,
      List.mem_singleton] at hl
    rcases hl with hl | rfl
    · exact (h.written l hl).mono (Nat.le_succ _)
    · exact .out (Nat.lt_succ_self _)
  main := .inr (by simp [Sketch.lay])
  audio l hl := by
    obtain ⟨rfl, hmem⟩ := h.audio l hl
    exact ⟨rfl, by simp [Sketch.lay, hmem]⟩

theorem prepare (h : Wired n s) {i : Nat} (hi : i < n) (text : String) :
    Wired n (s.prepare i text) where
  resolves := h.resolves.concat (by
    intro l hl
    rw [List.mem_singleton.mp hl]
    exact h.videoOf_known hi)
  written l hl := by
    simp only [Sketch.prepare, outputsOf_append, outputsOf_singleton, List.mem_append,
      List.mem_singleton] at hl
    rcases hl with hl | rfl
    · exact (h.written l hl).mono (Nat.le_succ _)
    · exact .ovl (Nat.lt_succ_self _)
  main := by
    by_cases h0 : i = 0
    · simp [Sketch.prepare, h0]
    · rcases h.main with hmain | hmain
      · simp [Sketch.prepare, h0, hmain]
      · simp [Sketch.prepare, h0, hmain]
  audio l hl := by
    obtain ⟨rfl, hmem⟩ := h.audio l hl
    exact ⟨rfl, by simp [Sketch.prepare, hmem]⟩

theorem overlay (h : Wired n s) (o : Overlay) (text : String) {i : Nat} (hi : i < n) :
    Wired n (s.overlay o text i) := by
  unfold Sketch.overlay
  by_cases ho : o.sourceFilter.isEmpty = true
  · simp only [ho, if_true]
    refine h.lay fun l hl => ?_
    simp only [List.mem_cons, List.not_mem_nil, or_false] at hl
    rcases hl with rfl | rfl
    · exact h.main_known (by omega)
    · exact h.videoOf_known hi
  · simp only [ho, if_false, Bool.false_eq_true]
    have hp : Wired n (s.prepare i o.sourceFilter) := h.prepare hi _
    refine hp.lay fun l hl => ?_
    simp only [List.mem_cons, List.not_mem_nil, or_false] at hl
    rcases hl with rfl | rfl
    · exact hp.main_known (by omega)
    · exact .inr (by simp [Sketch.prepare])

theorem join (h : Wired n s) {c : Concatenation} {i : Nat} (hi : i + c.inputs.length ≤ n) :
    Wired n (s.join c i) where
  resolves := by
    refine h.resolves.concat fun l hl => .inl ?_
    obtain ⟨j, hj, hl⟩ := c.joinFilter_inputs hl
    rw [List.mem_range'_1] at hj
    exact ⟨j, by omega, hl⟩
  written l hl := by
    simp only [Sketch.join, outputsOf_append, outputsOf_singleton, List.mem_append] at hl
    rcases hl with hl | hl
    · exact h.written l hl
    · exact c.written_of_joinFilter hl
  main := .inr (by simp [Sketch.join, c.mem_joinFilter_outputs])
  audio l hl := by
    cases hv : c.videoOnly <;> simp [Sketch.join, hv] at hl
    simp [← hl, Sketch.join, Concatenation.joinFilter, hv]

/-- Every edit keeps the wiring, if the inputs that it adds are among the `n`. -/
theorem draw (h : Wired n s) (hn : 0 < n) (e : Edit) {i : Nat} (hi : i + e.inputs.length ≤ n) :
    Wired n (e.draw i s) := by
  cases e with
  | input path => exact h
  | output path options => exact h
  | operation op host list =>
    cases op with
    | caption c =>
      refine h.lay fun l hl => ?_
      rw [List.mem_singleton.mp hl]
      exact h.main_known hn
    | overlay o =>
      have hlt : i < n := hi
      exact h.overlay o _ hlt
    | concat c =>
      simp only [Edit.draw, Operation.draw]
      rcases hs : c.strategy with _ | _
      · exact h.join (by simpa [Edit.inputs, Operation.inputs, hs] using hi)
      · exact h
    | resize r => exact h.skipLabel
    | crop c => exact h.skipLabel
    | rotate r => exact h.skipLabel
    | _ => exact h

end Wired

/-- The wiring after a row of edits, if all inputs are among the `n`. -/
theorem Edits.wired {n : Nat} {d d' : Draft} {es : List Edit} (h : Edits d es d') (hn : 0 < n)
    (hd : Wired n d.sketch) (hcount : d'.command.inputCount ≤ n) : Wired n d'.sketch := by
  induction es generalizing d with
  | nil => cases h; exact hd
  | cons e es ih =>
    obtain ⟨m, he, hes⟩ := h
    refine ih hes ?_
    rw [he.sketch_eq]
    refine hd.draw hn e ?_
    have hm : m.command.inputCount = d.command.inputCount + e.inputs.length := by
      rw [he.command_eq]
    have := hes.command.2.1
    omega

/-! ## The main stream -/

/-- The main stream is the video of the first input until the first segment, and from then on what
    a segment writes. -/
def Sketch.Headed (s : Sketch) : Prop :=
  (s.segments = [] ∧ s.main = mainVideo) ∨ s.main ∈ outputsOf s.segments

theorem Sketch.Headed.draw {s : Sketch} (h : s.Headed) (e : Edit) (i : Nat) :
    (e.draw i s).Headed := by
  have lay (s : Sketch) (inputs : List String) (text : String) : (s.lay inputs text).Headed :=
    .inr (by simp [Sketch.lay])
  cases e with
  | operation op host list =>
    cases op with
    | caption c => exact lay _ _ _
    | overlay o =>
      simp only [Edit.draw, Operation.draw, Sketch.overlay]
      by_cases ho : o.sourceFilter.isEmpty = true
      · simp only [ho, if_true]; exact lay _ _ _
      · simp only [ho, if_false, Bool.false_eq_true]; exact lay _ _ _
    | concat c =>
      simp only [Edit.draw, Operation.draw]
      rcases hs : c.strategy with _ | _
      · exact .inr (by simp [Sketch.join, c.mem_joinFilter_outputs])
      · exact h
    | _ => exact h
  | _ => exact h

theorem Edits.headed {d d' : Draft} {es : List Edit} (h : Edits d es d') (hd : d.sketch.Headed) :
    d'.sketch.Headed := by
  induction es generalizing d with
  | nil => cases h; exact hd
  | cons e es ih =>
    obtain ⟨m, he, hes⟩ := h
    refine ih hes ?_
    rw [he.sketch_eq]
    exact hd.draw e d.command.inputCount

end Montage

import Mathlib.Data.List.Nodup
import Montage.Proofs.Call
import Montage.Proofs.Wiring

/-!
# Streams that are used once

A labelled stream is written by one segment and read once, by a later segment or by a map. An edit
keeps a graph so if it fits: it does not start the main stream anew when something was drawn, and
its source is not taken for the main stream.

* `UsedOnce`: each stream is used once, some of the uses being yet to come.
* `Edit.Fits`: what an edit must not do.
* `UsedOnce.draw`: an edit that fits keeps each stream used once.
-/

namespace Montage

open Argument
open FilterGraph (label)
open Concatenation (streamLabel)

/-! ## Use of streams -/

/-- The labels that segments read. -/
def inputsOf (segments : List Segment) : List String := segments.flatMap Segment.inputs

@[simp] theorem inputsOf_append (xs ys : List Segment) :
    inputsOf (xs ++ ys) = inputsOf xs ++ inputsOf ys := List.flatMap_append

@[simp] theorem inputsOf_nil : inputsOf [] = [] := rfl

@[simp] theorem inputsOf_cons (s : Segment) (rest : List Segment) :
    inputsOf (s :: rest) = s.inputs ++ inputsOf rest := List.flatMap_cons

theorem inputsOf_singleton (s : Segment) : inputsOf [s] = s.inputs := by
  simp

/-- No label is written twice, and what a segment writes is used once: by a later segment, or by
    one of the uses that are pending. -/
structure UsedOnce (segments : List Segment) (pending : List String) : Prop where
  nodup : (outputsOf segments).Nodup
  once : ∀ before s after, segments = before ++ s :: after → ∀ l ∈ s.outputs,
    (inputsOf after ++ pending).count l = 1 ∧ l ∉ inputsOf (before ++ [s])

namespace UsedOnce

variable {segments : List Segment} {pending pending' : List String}

theorem nil : UsedOnce [] pending where
  nodup := List.nodup_nil
  once := by rintro before s after h; simp at h

/-- One more segment, which takes over some of the pending uses. -/
theorem concat (h : UsedOnce segments pending) {s : Segment} (hnodup : s.outputs.Nodup)
    (hnew : ∀ l ∈ s.outputs, l ∉ outputsOf segments ∧ l ∉ inputsOf (segments ++ [s]) ∧
      pending'.count l = 1)
    (hold : ∀ l ∈ outputsOf segments, s.inputs.count l + pending'.count l = pending.count l) :
    UsedOnce (segments ++ [s]) pending' where
  nodup := by
    rw [outputsOf_append, outputsOf_singleton, List.nodup_append]
    refine ⟨h.nodup, hnodup, ?_⟩
    rintro l hl _ hs rfl
    exact (hnew l hs).1 hl
  once before t after hcut l hl := by
    rcases concat_eq_append_cons hcut with ⟨rfl, rfl, rfl⟩ | ⟨rest, rfl, rfl⟩
    · exact ⟨(hnew l hl).2.2, (hnew l hl).2.1⟩
    · obtain ⟨hcount, hbefore⟩ := h.once before t rest rfl l hl
      refine ⟨?_, hbefore⟩
      have hmem : l ∈ outputsOf (before ++ t :: rest) := by simp [outputsOf, hl]
      have := hold l hmem
      rw [List.count_append] at hcount
      rw [inputsOf_append, inputsOf_singleton, List.count_append, List.count_append]
      omega

/-- What is written is used once altogether. -/
theorem count_eq_one (h : UsedOnce segments pending) {l : String} (hl : l ∈ outputsOf segments) :
    (inputsOf segments ++ pending).count l = 1 := by
  obtain ⟨s, hs, hout⟩ := List.mem_flatMap.mp hl
  obtain ⟨before, after, rfl⟩ := List.append_of_mem hs
  obtain ⟨hcount, hbefore⟩ := h.once before s after rfl l hout
  have hcut : inputsOf (before ++ s :: after) = inputsOf (before ++ [s]) ++ inputsOf after := by
    simp
  rw [hcut, List.append_assoc, List.count_append, List.count_eq_zero.mpr hbefore, hcount]

/-- What is written and whose use is pending was not read. -/
theorem notMem_inputs (h : UsedOnce segments pending) {l : String} (hl : l ∈ outputsOf segments)
    (hp : l ∈ pending) : l ∉ inputsOf segments := by
  have hcount := h.count_eq_one hl
  have hpos := List.count_pos_iff.mpr hp
  rw [List.count_append] at hcount
  exact List.count_eq_zero.mp (by omega)

end UsedOnce

/-! ## Maps -/

namespace Sketch

variable {n : Nat} {s : Sketch}

/-- The audio stream that is mapped beside the main stream, unless audio is dropped. -/
def audioMaps (s : Sketch) : List String := if s.dropsAudio then [] else [s.audio.getD "0:a?"]

/-- The streams that are mapped if the graph is complete. -/
def maps (s : Sketch) : List String := s.main :: s.audioMaps

/-- All that a concatenation writes is mapped if nothing else is drawn. -/
theorem join_maps (s : Sketch) (c : Concatenation) (i : Nat) :
    (s.join c i).maps = (c.joinFilter (List.range' i c.inputs.length)).outputs := by
  unfold maps audioMaps join Concatenation.joinFilter
  cases c.videoOnly <;> rfl

/-- The next label of the counter is neither written nor read nor mapped. -/
theorem fresh (h : Wired n s) {l : String} (hnext : Written (s.counter + 1) l)
    (hl : ¬ Written s.counter l) :
    l ∉ outputsOf s.segments ∧ l ∉ inputsOf s.segments ∧ l ≠ s.main ∧ l ∉ s.audioMaps := by
  have hout : l ∉ outputsOf s.segments := fun hmem => hl (h.written l hmem)
  refine ⟨hout, ?_, ?_, ?_⟩
  · intro hmem
    rcases h.resolves.mem_inputs hmem with ⟨i, -, hstream | hstream⟩ | hmem
    · exact hnext.ne_streamLabel "v" i hstream
    · exact hnext.ne_streamLabel "a" i hstream
    · exact hout hmem
  · intro hmain
    rcases h.main with hvideo | hmem
    · exact hnext.ne_mainVideo (hmain.trans hvideo)
    · exact hout (hmain ▸ hmem)
  · unfold audioMaps
    cases hd : s.dropsAudio with
    | true => simp
    | false =>
      cases hs : s.audio with
      | none => simpa using hnext.ne_inputAudio
      | some a =>
        obtain ⟨rfl, hmem⟩ := h.audio a hs
        simp only [Bool.false_eq_true, if_false, Option.getD_some, List.mem_singleton]
        rintro rfl
        exact hout hmem

end Sketch

namespace UsedOnce

variable {n : Nat} {s : Sketch} {pending : List String}

/-- A segment that writes the next label of the counter and makes it the main stream. -/
theorem lay (hw : Wired n s) (h : UsedOnce s.segments pending) {inputs : List String}
    {text : String} (hin : ∀ l ∈ inputs, IsStream n l ∨ l ∈ outputsOf s.segments)
    (hold : ∀ l ∈ outputsOf s.segments,
      inputs.count l + s.audioMaps.count l = pending.count l) :
    UsedOnce (s.lay inputs text).segments (s.lay inputs text).maps := by
  have hnext : Written (s.counter + 1) (label "out" s.counter) := .out (Nat.lt_succ_self _)
  obtain ⟨hout, hread, -, haudio⟩ := Sketch.fresh hw hnext (Written.out_fresh (Nat.le_refl _))
  have hmaps : (s.lay inputs text).maps = label "out" s.counter :: s.audioMaps := rfl
  rw [hmaps]
  refine h.concat (by simp) ?_ ?_
  · intro l hl
    rw [List.mem_singleton.mp hl]
    refine ⟨hout, ?_, ?_⟩
    · rw [inputsOf_append, inputsOf_singleton, List.mem_append]
      rintro (hl | hl)
      · exact hread hl
      · rcases hin _ hl with ⟨i, -, hl | hl⟩ | hl
        · exact hnext.ne_streamLabel "v" i hl
        · exact hnext.ne_streamLabel "a" i hl
        · exact hout hl
    · rw [List.count_cons_self, List.count_eq_zero.mpr haudio]
  · intro l hl
    have hne : label "out" s.counter ≠ l := fun heq => hout (heq ▸ hl)
    rw [List.count_cons_of_ne hne]
    exact hold l hl

/-- A segment that prepares the source of an overlay. What it writes is yet to be read. -/
theorem prepare (hw : Wired n s) (h : UsedOnce s.segments s.maps) {i : Nat} (h0 : i ≠ 0)
    (text : String) :
    UsedOnce (s.prepare i text).segments (s.main :: label "ovl" s.counter :: s.audioMaps) := by
  have hnext : Written (s.counter + 1) (label "ovl" s.counter) := .ovl (Nat.lt_succ_self _)
  obtain ⟨hout, hread, hmain, haudio⟩ := Sketch.fresh hw hnext (Written.ovl_fresh (Nat.le_refl _))
  have hvideo : s.videoOf i = streamLabel "v" i := if_neg h0
  refine h.concat (by simp) ?_ ?_
  · intro l hl
    rw [List.mem_singleton.mp hl]
    refine ⟨hout, ?_, ?_⟩
    · rw [inputsOf_append, inputsOf_singleton, List.mem_append, hvideo, List.mem_singleton]
      rintro (hl | hl)
      · exact hread hl
      · exact hnext.ne_streamLabel "v" i hl
    · rw [List.count_cons_of_ne hmain.symm, List.count_cons_self, List.count_eq_zero.mpr haudio]
  · intro l hl
    have hne : label "ovl" s.counter ≠ l := fun heq => hout (heq ▸ hl)
    have hne' : streamLabel "v" i ≠ l := (hw.written l hl).ne_streamLabel "v" i |>.symm
    rw [hvideo]
    simp [Sketch.maps, List.count_cons, hne, hne']

/-- An overlay that is not taken for the main stream. -/
theorem overlay (hw : Wired n s) (h : UsedOnce s.segments s.maps) (o : Overlay) (text : String)
    {i : Nat} (hi : i < n) (h0 : i ≠ 0) :
    UsedOnce (s.overlay o text i).segments (s.overlay o text i).maps := by
  unfold Sketch.overlay
  have hvideo : s.videoOf i = streamLabel "v" i := if_neg h0
  by_cases ho : o.sourceFilter.isEmpty = true
  · simp only [ho, if_true]
    refine lay hw h ?_ ?_
    · intro l hl
      simp only [List.mem_cons, List.not_mem_nil, or_false] at hl
      rcases hl with rfl | rfl
      · exact hw.main_known (by omega)
      · exact hw.videoOf_known hi
    · intro l hl
      have hne : streamLabel "v" i ≠ l := (hw.written l hl).ne_streamLabel "v" i |>.symm
      simp [Sketch.maps, hvideo, List.count_cons, hne]
      omega
  · simp only [ho, if_false, Bool.false_eq_true]
    have hp := hw.prepare hi o.sourceFilter
    have hmain : (s.prepare i o.sourceFilter).main = s.main := if_neg h0
    refine lay hp (h.prepare hw h0 _) ?_ ?_
    · intro l hl
      simp only [List.mem_cons, List.not_mem_nil, or_false] at hl
      rcases hl with rfl | rfl
      · exact hp.main_known (by omega)
      · exact .inr (by simp [Sketch.prepare])
    · intro l _
      have haudio : (s.prepare i o.sourceFilter).audioMaps = s.audioMaps := rfl
      rw [hmain, haudio]
      simp [List.count_cons]
      omega

/-- A source whose video overlays itself, before anything else is drawn. -/
theorem overlay_self (hw : Wired n s) (hn : 0 < n) (hnil : s.segments = []) {o : Overlay}
    (ho : o.sourceFilter.isEmpty = true) (text : String) :
    UsedOnce (s.overlay o text 0).segments (s.overlay o text 0).maps := by
  have h : UsedOnce s.segments [] := by rw [hnil]; exact .nil
  simp only [Sketch.overlay, ho, if_true]
  refine lay hw h ?_ ?_
  · intro l hl
    simp only [Sketch.videoOf, if_true, List.mem_cons, List.not_mem_nil, or_false, or_self] at hl
    rw [hl]
    exact hw.main_known hn
  · intro l hl
    rw [hnil] at hl; cases hl

/-- A concatenation before anything else is drawn. -/
theorem join (hnil : s.segments = []) (c : Concatenation) (i : Nat) :
    UsedOnce (s.join c i).segments (s.join c i).maps := by
  have h : UsedOnce s.segments [] := by rw [hnil]; exact .nil
  have hnodup := c.joinFilter_outputs_nodup (List.range' i c.inputs.length)
  rw [Sketch.join_maps]
  refine h.concat hnodup ?_ ?_
  · intro l hl
    rw [hnil]
    refine ⟨List.not_mem_nil, ?_, List.count_eq_one_of_mem hnodup hl⟩
    intro hin
    rw [List.nil_append, inputsOf_singleton] at hin
    have hwritten : Written s.counter l := c.written_of_joinFilter hl
    obtain ⟨j, -, hstream | hstream⟩ := c.joinFilter_inputs hin
    · exact hwritten.ne_streamLabel "v" j hstream
    · exact hwritten.ne_streamLabel "a" j hstream
  · intro l hl
    rw [hnil] at hl; cases hl

end UsedOnce

/-! ## Fitting edits -/

/-- A concatenation by the filter strategy fits if nothing was drawn. An overlay whose source is
    the first input is taken for the main stream: it fits if it needs no preparation and nothing
    was drawn. -/
def Edit.Fits (i : Nat) (s : Sketch) : Edit → Prop
  | operation (.overlay o) _ _ => i = 0 → o.sourceFilter.isEmpty = true ∧ s.segments = []
  | operation (.concat c) _ _ => c.strategy = .filter → s.segments = []
  | _ => True

theorem UsedOnce.draw {n i : Nat} {s : Sketch} (hw : Wired n s) (hn : 0 < n)
    (h : UsedOnce s.segments s.maps) {e : Edit} (hi : i + e.inputs.length ≤ n)
    (hfit : e.Fits i s) : UsedOnce (e.draw i s).segments (e.draw i s).maps := by
  cases e with
  | operation op host list =>
    cases op with
    | caption c =>
      refine lay hw h ?_ ?_
      · intro l hl
        rw [List.mem_singleton.mp hl]
        exact hw.main_known hn
      · intro l _
        simp [Sketch.maps, List.count_cons]
        omega
    | overlay o =>
      have hlt : i < n := hi
      by_cases h0 : i = 0
      · obtain ⟨ho, hnil⟩ := hfit h0
        subst h0
        exact overlay_self hw hn hnil ho _
      · exact overlay hw h o _ hlt h0
    | concat c =>
      simp only [Edit.draw, Operation.draw]
      rcases hs : c.strategy with _ | _
      · exact join (hfit hs) c i
      · exact h
    | _ => exact h
  | _ => exact h

end Montage

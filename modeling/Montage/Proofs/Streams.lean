import Montage.Proofs.Call
import Montage.Proofs.Wiring

/-!
# Stream references of a session

The command that a session builds names its inputs by their numbers and the streams between its
filters by labels. Whatever was called, in any order, each such name stands for something.

Results:
* `Session.Follows`: the inputs of a session are those that its calls name, in order.
* `Session.Follows.step`: a call that succeeds keeps it so.
* `Session.streams_resolve`: in a built command with a graph every reference resolves.
-/

namespace Montage

open Argument
open FilterGraph (label)
open Concatenation (streamLabel)

/-! ## Overlays -/

/-- Segments that lay the video of the input with number `n` over the main stream. It is read
    directly, or through a segment that prepares it under a label of its own. -/
inductive LaysOver (o : Overlay) (text main : String) (n : Nat) (written : List String) :
    List Segment → Prop
  | direct {out : String} :
      LaysOver o text main n written [⟨[main, streamLabel "v" n], text, [out]⟩]
  | prepared {own out : String} (hown : own ∉ written) :
      LaysOver o text main n written
        [⟨[streamLabel "v" n], o.sourceFilter, [own]⟩, ⟨[main, own], text, [out]⟩]

/-- An overlay that is not the first input is laid over the main stream. -/
theorem Wired.overlay_laysOver {n k : Nat} {s : Sketch} (h : Wired n s) (o : Overlay)
    (text : String) (hk : k ≠ 0) :
    ∃ laid, (s.overlay o text k).segments = s.segments ++ laid ∧
      LaysOver o text s.main k (outputsOf s.segments) laid := by
  unfold Sketch.overlay
  by_cases ho : o.sourceFilter.isEmpty = true
  · simp only [ho, if_true, Sketch.lay, Sketch.videoOf, hk, if_false]
    exact ⟨_, rfl, .direct⟩
  · simp only [ho, if_false, Bool.false_eq_true, Sketch.lay, Sketch.prepare, Sketch.videoOf, hk,
      List.append_assoc]
    exact ⟨_, rfl, .prepared fun hmem => Written.ovl_fresh (Nat.le_refl _) (h.written _ hmem)⟩

/-! ## The inputs that calls name -/

namespace Session

/-- Whether an operation writes a list file. -/
def usesList : Operation → Bool
  | .concat c => c.strategy = .demuxer
  | _ => false

/-- The inputs that a call names; `list` is the list file of the session. -/
def Call.inputs (list : String) : Call → List String
  | input path => [path]
  | concat r => if r.strategy = some "demuxer" then [list] else r.inputs
  | add op => op.inputs (some list)
  | output .. => []

/-- Only an operation that writes a list file depends on it. -/
theorem inputs_of_not_usesList {op : Operation} (h : usesList op = false) (l l' : Option String) :
    op.inputs l = op.inputs l' := by
  cases op with
  | concat c =>
    cases hs : c.strategy with
    | filter => simp [Operation.inputs, hs]
    | demuxer => simp [usesList, hs] at h
  | _ => rfl

theorem Call.length_inputs (c : Call) (list list' : String) :
    (c.inputs list).length = (c.inputs list').length := by
  cases c with
  | concat r => simp only [inputs]; by_cases hr : r.strategy = some "demuxer" <;> simp [hr]
  | add op =>
    cases op with
    | concat c => cases hs : c.strategy <;> simp [inputs, Operation.inputs, hs]
    | _ => rfl
  | _ => rfl

theorem length_inputs (calls : List Call) (list list' : String) :
    (calls.flatMap (Call.inputs list)).length = (calls.flatMap (Call.inputs list')).length := by
  induction calls with
  | nil => rfl
  | cons c calls ih =>
    simp only [List.flatMap_cons, List.length_append, ih, c.length_inputs list list']

/-- The inputs of a session are those that its calls named, the first is the primary one, and the
    list file is that of the operation which wrote it. -/
structure Follows (start : Session) (calls : List Call) (list : String) (s : Session) : Prop where
  edits : ∃ es, Edits start.draft es s.draft ∧
    es.flatMap Edit.inputs = calls.flatMap (Call.inputs list)
  primary : s.draft.command.input = (calls.flatMap (Call.inputs list)).head?
  begun : s.input.isSome = true ↔ calls.flatMap (Call.inputs list) ≠ []
  kept : s.input = none → s.kept = []
  listed : ∀ k ∈ s.kept, usesList k.operation = true → k.listFile = some list

namespace Follows

variable {start s s' : Session} {calls : List Call} {list : String}

/-- Before any input it does not matter which list file there will be. -/
theorem relist (h : Follows start calls list s) (hnone : s.input = none) (list' : String) :
    Follows start calls list' s := by
  have hlist : calls.flatMap (Call.inputs list) = [] := by
    by_contra hne
    have := h.begun.mpr hne
    rw [hnone] at this; cases this
  have hsame : calls.flatMap (Call.inputs list') = calls.flatMap (Call.inputs list) := by
    have hlength := length_inputs calls list' list
    rw [hlist] at hlength ⊢
    exact List.length_eq_zero_iff.mp hlength
  exact
    { edits := by rw [hsame]; exact h.edits
      primary := by rw [hsame]; exact h.primary
      begun := by rw [hsame]; exact h.begun
      kept := h.kept
      listed := by rw [h.kept hnone]; rintro k ⟨⟩ }

/-- The session has an input just if the command has one. -/
theorem input_isSome_iff (h : Follows start calls list s) :
    s.input.isSome = true ↔ s.draft.command.input.isSome = true := by
  rw [h.begun, h.primary, Option.isSome_iff_ne_none, ne_eq, ne_eq, List.head?_eq_none_iff]

theorem input_eq_none (h : Follows start calls list s) (hnone : s.draft.command.input = none) :
    s.input = none := by
  have := h.input_isSome_iff
  simpa [hnone] using this

theorem command_input_eq_none (h : Follows start calls list s) (hnone : s.input = none) :
    s.draft.command.input = none := by
  have := h.input_isSome_iff
  simpa [hnone] using this

/-- A call whose edits name its inputs. -/
theorem extend (h : Follows start calls list s) {c : Call} {es : List Edit}
    (hes : Edits s.draft es s'.draft) (hinputs : es.flatMap Edit.inputs = c.inputs list)
    (hprimary : s'.draft.command.input = (s.draft.command.input <|> (c.inputs list).head?))
    (hbegun : s'.input.isSome = true ↔ s.input.isSome = true ∨ c.inputs list ≠ [])
    (hkept : s'.kept = s.kept ++ es.filterMap keptOf)
    (hnew : ∀ k ∈ es.filterMap keptOf, s'.input ≠ none ∧
      (usesList k.operation = true → k.listFile = some list)) :
    Follows start (calls ++ [c]) list s' where
  edits := by
    obtain ⟨old, hold, hpaths⟩ := h.edits
    refine ⟨old ++ es, Edits.append_iff.mpr ⟨s.draft, hold, hes⟩, ?_⟩
    simp [hpaths, hinputs]
  primary := by
    rw [hprimary, h.primary]
    simp [List.head?_append]
  begun := by
    rw [hbegun, h.begun]
    simp only [List.flatMap_append, List.flatMap_singleton, ne_eq, List.append_eq_nil_iff]
    tauto
  kept hnone := by
    have hs : s.input = none := by
      by_contra hsome
      have := hbegun.mpr (.inl (Option.isSome_iff_ne_none.mpr hsome))
      rw [hnone] at this; cases this
    have hes : es.filterMap keptOf = [] := by
      by_contra hne
      obtain ⟨k, hk⟩ := List.exists_mem_of_ne_nil _ hne
      exact (hnew k hk).1 hnone
    rw [hkept, h.kept hs, hes]; rfl
  listed k hk hlist := by
    rw [hkept, List.mem_append] at hk
    rcases hk with hk | hk
    · exact h.listed k hk hlist
    · exact (hnew k hk).2 hlist

/-- An operation in a session that has an input. The demuxer strategy is refused there. -/
theorem extend_add (h : Follows start calls list s) {op : Operation} {host : Host}
    {written : Option String} (hmakes : (Edit.operation op host written).Makes s.draft s'.draft)
    (hsome : s.input.isSome = true) (hinput : s'.input = s.input)
    (hkept : s'.kept = s.kept ++ [⟨op, written⟩]) :
    Follows start (calls ++ [.add op]) list s' := by
  have hprimary : s.draft.command.input.isSome = true := h.input_isSome_iff.mp hsome
  have hlist : usesList op = false := by
    cases op with
    | concat c =>
      obtain ⟨-, hedits⟩ := hmakes
      simp only [Operation.Edits] at hedits
      cases hs : c.strategy with
      | filter => simp [usesList, hs]
      | demuxer => simp only [hs] at hedits; rw [hedits.1] at hprimary; cases hprimary
    | _ => rfl
  obtain ⟨path, hpath⟩ := Option.isSome_iff_exists.mp hprimary
  have hes : Edits s.draft [.operation op host written] s'.draft := ⟨_, hmakes, rfl⟩
  refine h.extend hes ?_ ?_ ?_ hkept ?_
  · rw [List.flatMap_singleton]
    exact inputs_of_not_usesList hlist written (some list)
  · rw [hmakes.command_eq, hpath]
    cases op <;> rfl
  · rw [hinput]; simp [hsome]
  · intro k hk
    rw [List.mem_singleton.mp hk, hinput, hlist]
    exact ⟨Option.isSome_iff_ne_none.mp hsome, fun hno => by cases hno⟩

/-- A concatenation. By the demuxer strategy it comes before any input, and its list file becomes
    that of the session. -/
theorem extend_concat (h : Follows start calls list s) {r : ConcatRequest} {c : Concatenation}
    {host : Host} {written : Option String} (hr : c.inputs = r.inputs)
    (hs : c.strategy = .demuxer ↔ r.strategy = some "demuxer")
    (hmakes : (Edit.operation (.concat c) host written).Makes s.draft s'.draft)
    (hinput : s'.input = (s.input <|> r.inputs.head?))
    (hkept : s'.kept = s.kept ++ [⟨.concat c, written⟩]) :
    ∃ list', Follows start (calls ++ [.concat r]) list' s' := by
  have hne : r.inputs ≠ [] := hr ▸ Concatenation.inputs_ne_nil_of_check hmakes.1
  have hbegun : s'.input.isSome = true := by
    obtain ⟨path, rest, hcons⟩ := List.exists_cons_of_ne_nil hne
    rw [hinput, hcons]
    cases s.input <;> rfl
  have hes : Edits s.draft [.operation (.concat c) host written] s'.draft := ⟨_, hmakes, rfl⟩
  have hprimary := congrArg Command.input hmakes.command_eq
  simp only [Edit.primary] at hprimary
  have hnew (list' : String) (hw : usesList (.concat c) = true → written = some list') :
      ∀ k ∈ [Edit.operation (.concat c) host written].filterMap keptOf,
        s'.input ≠ none ∧ (usesList k.operation = true → k.listFile = some list') := by
    intro k hk
    rw [List.mem_singleton.mp hk]
    exact ⟨Option.isSome_iff_ne_none.mp hbegun, hw⟩
  rcases hstrategy : c.strategy with _ | _
  · have hfilter : r.strategy ≠ some "demuxer" := fun hd => by
      rw [hs.mpr hd] at hstrategy; cases hstrategy
    have hpaths : (Call.concat r).inputs list = r.inputs := if_neg hfilter
    have hedit : (Operation.concat c).inputs written = r.inputs := by
      simp [Operation.inputs, hstrategy, hr]
    refine ⟨list, h.extend hes ?_ ?_ ?_ hkept (hnew list ?_)⟩
    · rw [List.flatMap_singleton, hpaths]; exact hedit
    · rw [hprimary, hedit, hpaths]
    · rw [hpaths]; simp [hbegun, hne]
    · simp [usesList, hstrategy]
  -- No call before it had inputs, so these may be said to use any list file.
  · have hedits := hmakes.2
    simp only [Operation.Edits, hstrategy] at hedits
    obtain ⟨hnone, path, rfl, -⟩ := hedits
    have hpaths : (Call.concat r).inputs path = [path] := if_pos (hs.mp hstrategy)
    have hedit : (Operation.concat c).inputs (some path) = [path] := by
      simp [Operation.inputs, hstrategy]
    refine ⟨path, (h.relist (h.input_eq_none hnone) path).extend hes ?_ ?_ ?_ hkept
      (hnew path fun _ => rfl)⟩
    · rw [List.flatMap_singleton, hpaths]; exact hedit
    · rw [hprimary, hedit, hpaths]
    · rw [hpaths]; simp [hbegun]

/-- A call that succeeds adds the inputs that it names behind those of the calls before. -/
theorem step (h : Follows start calls list s) {c : Call}
    (hc : c.action.perform s = (.ok (), s')) :
    ∃ list', Follows start (calls ++ [c]) list' s' := by
  obtain ⟨es, hstands, hes, hkept, hmoves⟩ := c.ok hc
  cases c with
  | input path =>
    obtain ⟨hnone, hinput⟩ := hmoves
    cases hstands
    refine ⟨list, h.extend hes rfl ?_ ?_ hkept (by rintro k ⟨⟩)⟩
    · obtain ⟨m, rfl, hm⟩ := hes
      rw [hm, h.command_input_eq_none hnone]; rfl
    · rw [hinput]; simp [Call.inputs]
  | concat r =>
    obtain ⟨c, host, written, rfl, hr, hs⟩ := hstands
    obtain ⟨m, hmakes, rfl⟩ := hes
    exact h.extend_concat hr hs hmakes hmoves hkept
  | add op =>
    obtain ⟨hsome, hinput⟩ := hmoves
    rcases hstands with ⟨hw, rfl⟩ | ⟨hw, host, written, rfl⟩
    · have hpaths : op.inputs (some list) = [] := by
        cases op <;> simp [skipWarning] at hw <;> rfl
      refine ⟨list, h.extend hes hpaths.symm ?_ ?_ hkept (by rintro k ⟨⟩)⟩
      · rw [hes, Call.inputs, hpaths]; simp
      · rw [hinput, Call.inputs, hpaths]; simp
    · obtain ⟨m, hmakes, rfl⟩ := hes
      exact ⟨list, h.extend_add hmakes hsome hinput hkept⟩
  | output path options =>
    cases hstands
    refine ⟨list, h.extend hes rfl ?_ ?_ hkept (by rintro k ⟨⟩)⟩
    · obtain ⟨m, rfl, hm⟩ := hes
      rw [hm]; simp [Call.inputs]; rfl
    · rw [hmoves]; simp [Call.inputs]

end Follows

theorem sequence_follows {o : SessionOptions} {host : Host} {calls : List Call} {s : Session}
    (h : (sequence calls).perform (start o host) = (.ok (), s)) :
    ∃ list, Follows (start o host) calls list s := by
  let I (calls : List Call) (m : Session) : Prop := ∃ list, Follows (start o host) calls list m
  have fresh : I [] (start o host) :=
    ⟨"", ⟨[], rfl, rfl⟩, rfl, by simp [start], fun _ => rfl, by rintro k ⟨⟩⟩
  refine Action.forM_invariant (I := I) fresh ?_ h
  rintro calls c m m' ⟨list, hm⟩ hc
  exact hm.step hc

/-! ## Built commands -/

/-- What is built after calls that succeeded, in terms of the edits that they made. -/
theorem Follows.built {o : SessionOptions} {host : Host} {calls : List Call} {list : String}
    {s s' : Session} {c : Command} (h : Follows (start o host) calls list s)
    (hbuild : build.perform s = (.ok c, s')) :
    ∃ es, Edits (start o host).draft es s.draft ∧
      es.flatMap Edit.inputs = calls.flatMap (Call.inputs list) ∧
      s.input.isSome = true ∧ c = s.draft.rendered.close ∧
      c.read = Argument.read s.draft.rendered.arguments := by
  obtain ⟨es, hes, hpaths⟩ := h.edits
  obtain ⟨-, -, hclosed, hbuilt⟩ := hes.command
  exact ⟨es, hes, hpaths, build_ok hbuild hbuilt hclosed⟩

namespace Follows

variable {o : SessionOptions} {host : Host} {calls : List Call} {list : String} {s s' : Session}

theorem inputCount (h : Follows (start o host) calls list s) :
    s.draft.command.inputCount = (calls.flatMap (Call.inputs list)).length := by
  obtain ⟨es, hes, hpaths⟩ := h.edits
  rw [hes.command.2.1, hpaths]
  exact Nat.zero_add _

theorem inputCount_pos (h : Follows (start o host) calls list s) (hsome : s.input.isSome = true) :
    0 < s.draft.command.inputCount := by
  rw [h.inputCount]
  exact List.length_pos_iff.mpr (h.begun.mp hsome)

theorem wired (h : Follows (start o host) calls list s) (hsome : s.input.isSome = true) :
    Wired s.draft.command.inputCount s.draft.sketch := by
  obtain ⟨es, hes, -⟩ := h.edits
  exact hes.wired (h.inputCount_pos hsome) .start (Nat.le_refl _)

/-- An overlay in a session lays its own source over the main stream. -/
theorem overlay_ok (h : Follows (start o host) calls list s) {ov : Overlay}
    (ho : (Session.add (.overlay ov)).perform s = (.ok (), s')) :
    ∃ host text laid, ov.overlayFilter host = .ok text ∧ 0 < s.draft.command.inputCount ∧
      s'.draft.graph.segments = s.draft.graph.segments ++ laid ∧
      LaysOver ov text s.draft.graph.mainLabel s.draft.command.inputCount
        (outputsOf s.draft.graph.segments) laid := by
  obtain ⟨hsome, -, ⟨hw, -⟩ | ⟨-, host, written, hmakes, -⟩⟩ := add_ok ho
  · exact absurd rfl hw
  have hpos := h.inputCount_pos hsome
  obtain ⟨text, htext, -⟩ := hmakes.2
  obtain ⟨laid, hlaid, hlays⟩ :=
    (h.wired hsome).overlay_laysOver ov text (Nat.pos_iff_ne_zero.mp hpos)
  refine ⟨host, text, laid, htext, hpos, ?_, hlays⟩
  have hsketch := hmakes.sketch_eq
  simp only [Edit.draw, Operation.draw, htext] at hsketch
  exact (congrArg Sketch.segments hsketch).trans hlaid

end Follows

/-- How the references of a command resolve that was built after calls of a session; `list` is the
    list file of the session. -/
structure Resolved (start : Session) (calls : List Call) (list : String) (s : Session)
    (c : Command) : Prop where
  /-- The inputs of the command are those that the calls name, in order. -/
  inputs : values "-i" c.read = calls.flatMap (Call.inputs list)
  /-- The first of them is the primary input. -/
  primary : c.input = (calls.flatMap (Call.inputs list)).head?
  /-- At each call the next input has the number of inputs before. -/
  numbers : ∀ before after, calls = before ++ after →
    ∃ m, (sequence before).perform start = (.ok (), m) ∧
      m.draft.command.inputCount = (before.flatMap (Call.inputs list)).length
  /-- The command has one graph, which is that of the segments. -/
  graph : values "-filter_complex" c.read = [s.draft.graphText]
  /-- What a segment reads is a stream of an input or an output of an earlier segment. -/
  segments : Resolves (calls.flatMap (Call.inputs list)).length s.draft.graph.segments
  /-- An overlay lays the stream of its own source over what was the main stream at its call. -/
  overlays : ∀ before o after, calls = before ++ .add (.overlay o) :: after →
    ∃ m host text laid rest, (sequence before).perform start = (.ok (), m) ∧
      o.overlayFilter host = .ok text ∧
      0 < (before.flatMap (Call.inputs list)).length ∧
      (calls.flatMap (Call.inputs list))[(before.flatMap (Call.inputs list)).length]? =
        some o.source ∧
      s.draft.graph.segments = m.draft.graph.segments ++ laid ++ rest ∧
      LaysOver o text m.draft.graph.mainLabel (before.flatMap (Call.inputs list)).length
        (outputsOf m.draft.graph.segments) laid
  /-- The mapped video is an output of a segment, and audio is mapped once or dropped. -/
  maps : ∃ video ∈ outputsOf s.draft.graph.segments,
    (values "-map" c.read = [video] ∧ c.read.count (switch "-an") = 1) ∨
      ∃ audio, values "-map" c.read = [video, audio] ∧ c.read.count (switch "-an") = 0 ∧
        (audio = "0:a?" ∨ audio ∈ outputsOf s.draft.graph.segments)

/-- **Stream references.** After any calls that succeed, in any order, every reference in a built
    command with a graph resolves: input numbers, stream labels, overlay sources and maps. -/
theorem streams_resolve {o : SessionOptions} {host : Host} {calls : List Call} {s s' : Session}
    {c : Command} (hcalls : (sequence calls).perform (start o host) = (.ok (), s))
    (hbuild : build.perform s = (.ok c, s')) (hgraph : values "-filter_complex" c.read ≠ []) :
    ∃ list, (∀ k ∈ s.kept, usesList k.operation = true → k.listFile = some list) ∧
      Resolved (start o host) calls list s c := by
  obtain ⟨list, hfollows⟩ := sequence_follows hcalls
  obtain ⟨es, hes, hpaths, hsome, hc, hread⟩ := hfollows.built hbuild
  have hflags : (start o host).draft.command.arguments ⊆ flagNames := openingFlags_subset o
  have hvalues {name : String} (hname : name ∉ Edit.optionNames) :=
    hes.values_rendered hflags hname
  rw [hread, hvalues (by decide)] at hgraph
  have hcomplex := Draft.hasComplex_of_values hgraph
  have hwired := hfollows.wired hsome
  refine ⟨list, hfollows.listed, ?_⟩
  constructor
  case inputs => rw [hread, hes.values_input_rendered hflags, hpaths]
  case primary =>
    rw [hc, Command.input_close]
    exact hfollows.primary
  case numbers =>
    rintro before after rfl
    obtain ⟨m, hm, -⟩ := Action.forM_append_ok hcalls
    obtain ⟨list', hbefore⟩ := sequence_follows hm
    exact ⟨m, hm, hbefore.inputCount.trans (length_inputs before list' list)⟩
  case graph => rw [hread, hvalues (by decide), Draft.values_graph hcomplex]
  case segments => rw [← hfollows.inputCount]; exact hwired.resolves
  case overlays =>
    rintro before ov after rfl
    obtain ⟨m, hm, hrest⟩ := Action.forM_append_ok hcalls
    obtain ⟨m', ho, hafter⟩ := Action.forM_cons_ok hrest
    obtain ⟨list', hbefore⟩ := sequence_follows hm
    obtain ⟨host, text, laid, htext, hpos, hlaid, hlays⟩ := hbefore.overlay_ok ho
    obtain ⟨ess, -, hess⟩ := sequence_ok hafter
    obtain ⟨rest, hrest⟩ := hess.segments
    have hcount := hbefore.inputCount.trans (length_inputs before list' list)
    rw [hcount] at hpos hlays
    refine ⟨m, host, text, laid, rest, hm, htext, hpos, ?_, ?_, hlays⟩
    · simp [Call.inputs, Operation.inputs]
    · rw [hrest, hlaid]
  case maps =>
    rw [hread, hvalues (by decide), hes.count_noAudio_rendered hflags, Draft.values_map hcomplex,
      Draft.count_noAudio hcomplex]
    refine ⟨s.draft.graph.mainLabel, ?_, ?_⟩
    · rcases hes.headed (.inl ⟨rfl, rfl⟩) with ⟨hnil, -⟩ | hmain
      · exact absurd hnil (FilterGraph.hasComplex_iff.mp hcomplex)
      · exact hmain
    · cases hd : s.draft.dropsAudio with
      | true => left; simp [Draft.audioMaps, hd]
      | false =>
        right
        refine ⟨s.draft.audio.getD "0:a?", by simp [Draft.audioMaps, hd], rfl, ?_⟩
        cases ha : s.draft.audio with
        | none => exact .inl rfl
        | some l => exact .inr (hwired.audio l ha).2

/-- A logo that is prepared and laid over a video, and a title on both. -/
theorem streams_resolve_logo_and_title :
    let o : SessionOptions := ⟨"ffmpeg", "/tmp", true, true⟩
    let host : Host := { tree := { entries := [(["logo.png"], .file "" false)] } }
    let calls : List Call :=
      [.input "in.mp4", .add (.overlay { source := "logo.png", width := some 64 }),
        .add (.caption { text := "Title" }), .output "out.mp4" {}]
    ∃ s s' c list, (sequence calls).perform (start o host) = (.ok (), s) ∧
      build.perform s = (.ok c, s') ∧ values "-filter_complex" c.read ≠ [] ∧
      Resolved (start o host) calls list s c := by
  intro o host calls
  have hcalls := Action.perform_of_isOk
    (show ((sequence calls).perform (start o host)).1.isOk = true by decide +kernel)
  obtain ⟨c, hbuild, hgraph⟩ := Action.perform_of_any
    (show ((build.perform ((sequence calls).perform (start o host)).2).1.toOption.any
      fun c => decide (values "-filter_complex" c.read ≠ [])) = true by decide +kernel)
  obtain ⟨list, -, h⟩ := streams_resolve hcalls hbuild hgraph
  exact ⟨_, _, c, list, hcalls, hbuild, hgraph, h⟩

end Session

end Montage

import Montage.Proofs.ExitCode
import Montage.Proofs.Layout

/-!
# Compiling a command line

A session takes what a command line asks for call by call, through a draft with a graph and a counter
of labels. What is built in the end is the layout of the command line: which calls there were, in which
state, and what each of them kept, cannot be told from it.

Results:
* `CommandLine.begun_of_sequence`: the session behind the input and the files to join.
* `CommandLine.finished_of_compile`: the session behind everything that is asked for.
* `CommandLine.layout_of_leadsTo`: the arguments that are built are those of the layout.
* `CommandLine.dryRun_prints_layout`: a dry run that succeeds prints them.
-/

namespace Montage

/-! ## Files to join -/

theorem Concatenation.videoOnly_of_ofRequest {r : ConcatRequest} {folder : String} {h : Host}
    {c : Concatenation} (hc : ofRequest r folder h = .ok c) : c.videoOnly = r.videoOnly := by
  obtain ⟨_, _, -, -, -, rfl⟩ := ofRequest_eq_ok.mp hc
  rfl

namespace CommandLine

open Session (start)

variable {o : Options} {so : SessionOptions} {h : Host} {m t : Session} {folder : String}
  {c : Concatenation}

theorem joins_of_ofRequest (hc : Concatenation.ofRequest o.concat folder h = .ok c) :
    o.joins = some c.strategy := by
  obtain ⟨hinputs, hstrategy⟩ := Concatenation.ofRequest_ok hc
  have hne : o.concat.inputs ≠ [] := hinputs ▸ Concatenation.inputs_ne_nil_of_ofRequest hc
  rw [Options.joins, if_neg (by simpa using hne)]
  cases hs : c.strategy with
  | filter =>
    refine if_neg fun hd => ?_
    rw [hstrategy.mpr hd] at hs
    cases hs
  | demuxer => exact if_pos (hstrategy.mp hs)

/-- The files are joined in a graph that is new. -/
theorem join_eq_joined (hc : Concatenation.ofRequest o.concat folder h = .ok c)
    (hs : c.strategy = .filter) : Sketch.join {} c o.input.toList.length = o.joined := by
  have hinputs : c.inputs = o.concat.inputs := (Concatenation.ofRequest_ok hc).1
  have hvideo : c.videoOnly = o.concat.videoOnly := Concatenation.videoOnly_of_ofRequest hc
  have hjoins : o.joins = some .filter := by rw [joins_of_ofRequest hc, hs]
  unfold Sketch.join Concatenation.joinFilter Options.joined Options.joinSegments
  cases hv : o.concat.videoOnly <;> simp [hjoins, hinputs, hvideo, hv, mainBehind]

/-! ## Sources -/

/-- The outline behind the input. -/
def Options.opened (o : Options) (so : SessionOptions) : Outline where
  arguments := Session.openingFlags so ++ o.input.toList.flatMap fun path => ["-i", path]
  inputCount := o.input.toList.length

theorem begun_of_no_files (ho : o.concat.inputs.isEmpty = true) (list : String) :
    o.begun so list = o.opened so := by
  have hjoins : o.joins = none := by rw [Options.joins, if_pos ho]
  simp [Options.begun, Options.opened, Options.inputArguments, Options.inputCount, Options.joined,
    Options.joinSegments, mainBehind, hjoins]

/-- The files to join stand behind the input. -/
theorem outline_concat (hc : Concatenation.ofRequest o.concat folder h = .ok c) :
    (Operation.concat c).outline h (o.opened so) = o.begun so (c.listPath h) := by
  have hinputs : c.inputs = o.concat.inputs := (Concatenation.ofRequest_ok hc).1
  have hjoins : o.joins = some c.strategy := joins_of_ofRequest hc
  cases hs : c.strategy with
  | filter =>
    simp [Operation.outline, Operation.inputs, Operation.listing, Operation.settings,
      Operation.simpleFilters, Operation.draw, Options.opened, Options.begun, Options.inputArguments,
      Options.inputCount, join_eq_joined hc hs, hjoins, hs, hinputs]
  | demuxer =>
    simp [Operation.outline, Operation.listFile, Operation.list?, Operation.inputs,
      Operation.listing, Operation.settings, Operation.simpleFilters, Operation.draw, Options.opened,
      Options.begun, Options.inputArguments, Options.inputCount, Options.joined,
      Options.joinSegments, mainBehind, hjoins, hs]

theorem outline_start (so : SessionOptions) (h : Host) :
    (start so h).draft.outline = { arguments := Session.openingFlags so } := rfl

/-- The session behind the input: of the host only the log went on. -/
theorem opened_of_sequence
    (hm : (Session.sequence (o.input.toList.map .input)).perform (start so h) = (.ok (), m)) :
    m.draft.outline = o.opened so ∧ m.options = so ∧ m.input = o.input ∧
      ∃ logged, m.host = { h with logged } := by
  cases hi : o.input with
  | none =>
    rw [hi] at hm
    cases hm
    refine ⟨?_, rfl, rfl, h.logged, rfl⟩
    rw [outline_start]
    simp [Options.opened, hi]
  | some path =>
    rw [hi] at hm
    obtain ⟨m', hinput, hnil⟩ := Action.forM_cons_ok hm
    cases hnil
    obtain ⟨logged, rfl⟩ := Session.setInput_eq hinput
    refine ⟨?_, rfl, rfl, logged, rfl⟩
    rw [Options.opened, hi]
    rfl

/-- The session behind the input and the files to join. -/
theorem begun_of_sequence
    (hm : (Session.sequence o.sources).perform (start so h) = (.ok (), m)) :
    m.draft.outline = o.begun so (listPath so h) ∧ m.host.environment = h.environment ∧
      m.input = (o.input <|> o.concat.inputs.head?) := by
  rw [Options.sources] at hm
  obtain ⟨n, hinput, hfiles⟩ := Action.forM_append_ok hm
  obtain ⟨houtline, hoptions, hn, logged, hhost⟩ := opened_of_sequence hinput
  by_cases ho : o.concat.inputs.isEmpty = true
  · rw [if_pos ho] at hfiles
    cases hfiles
    have hnone : o.concat.inputs = [] := by simpa using ho
    refine ⟨houtline.trans (begun_of_no_files ho _).symm, by rw [hhost], ?_⟩
    rw [hn, hnone]
    cases o.input <;> rfl
  · rw [if_neg ho] at hfiles
    obtain ⟨m', hconcat, hnil⟩ := Action.forM_cons_ok hfiles
    cases hnil
    obtain ⟨c, t, hc, hkeep, rfl⟩ := Session.concat_keep hconcat
    have htakes : Session.Takes (.concat c) n t := Session.takes_of_keep hkeep
    rw [hoptions] at hc
    have hfolder : c.tempFolder = so.listFolder n.host := Concatenation.tempFolder_of_ofRequest hc
    have hlist : c.listPath n.host = listPath so h := by
      rw [Concatenation.listPath, hfolder, hhost]
      rfl
    refine ⟨?_, by rw [htakes.environment, hhost], by rw [htakes.input, hn]⟩
    rw [← hlist, ← outline_concat hc, ← houtline]
    exact htakes.outline

/-- A session with an input has inputs, so the source of an overlay is not the first of them. -/
theorem inputCount_ne_zero (hi : (o.input <|> o.concat.inputs.head?).isSome = true) :
    o.inputCount ≠ 0 := by
  unfold Options.inputCount Options.joins
  cases hinput : o.input with
  | some path => simp
  | none =>
    rw [hinput] at hi
    cases hfiles : o.concat.inputs with
    | nil => rw [hfiles] at hi; cases hi
    | cons path rest =>
      by_cases hs : o.concat.strategy = some "demuxer"
      · simp [hs]
      · simp [hs]

/-! ## Commands -/

/-- The draft of a command line that was put into a session. -/
theorem finished_of_compile (hc : (compile o).perform (start so h) = (.ok (), t))
    (hi : t.input.isSome = true) :
    ∃ frames overlayText captionText, o.Renders h frames overlayText captionText ∧
      t.draft.outline = o.finished so (listPath so h) frames overlayText captionText ∧
      t.draft.command.output = some o.output := by
  rw [compile_eq_sequence, calls_eq] at hc
  obtain ⟨n, hfirst, hlast⟩ := Action.forM_append_ok hc
  obtain ⟨m, hsources, hadds⟩ := Action.forM_append_ok hfirst
  obtain ⟨t', houtput, hnil⟩ := Action.forM_cons_ok hlast
  cases hnil
  obtain ⟨hbegun, henv, hm⟩ := begun_of_sequence hsources
  have hall := Session.takesAll_of_sequence requested_free henv hadds
  obtain ⟨hdraft, -, hinput⟩ := Session.setOutput_ok houtput
  have hcount : o.inputCount ≠ 0 := by
    refine inputCount_ne_zero ?_
    rw [← hm, ← hall.input, ← hinput]
    exact hi
  obtain ⟨overlayText, captionText, hrenders⟩ := exists_renders hall.renders
  refine ⟨_, overlayText, captionText, hrenders, ?_, by rw [hdraft]; rfl⟩
  rw [hdraft, Draft.outline_withOutput, hall.outline, hbegun]
  exact foldl_requested hcount hall.renders hrenders

/-- The command that is built is laid out as the options say. -/
theorem layout_of_leadsTo {c : Command} (hc : LeadsTo o (start so h) c) :
    c.program = so.program ∧ layout so h o = .ok c.arguments := by
  obtain ⟨t, u, hcompile, hbuild⟩ := hc
  have hsequence : (Session.sequence o.calls).perform (start so h) = (.ok (), t) := by
    rw [← compile_eq_sequence]
    exact hcompile
  obtain ⟨ess, -, hes⟩ := Session.sequence_ok hsequence
  obtain ⟨-, -, hclosed, hbuilt⟩ := hes.command
  obtain ⟨hi, rfl, -⟩ := Session.build_ok hbuild hbuilt hclosed
  obtain ⟨frames, overlayText, captionText, hrenders, houtline, houtput⟩ :=
    finished_of_compile hcompile hi
  constructor
  · rw [Command.program_close]
    exact hes.program
  · have hwords : t.draft.rendered.arguments = t.draft.command.arguments ++ t.draft.ending := rfl
    have hopening : t.draft.command.arguments = o.openingArguments so (listPath so h) :=
      congrArg Outline.arguments houtline
    rw [layout_of_renders hrenders, Draft.arguments_close houtput hclosed, hwords, hopening,
      ending_of_finished houtline]

/-! ## Dry runs -/

/-- A run that is refused does not succeed. -/
theorem run_ne_success {e : Executor} {s s' u : Session} {error : Error}
    (hf : (fulfil o e).perform s = (.error (.reported error), u)) (hr : error.isRefusal = true) :
    (run o e).perform s ≠ (.ok .success, s') := by
  obtain ⟨v, hreport, -⟩ := perform_report_refusal hr u
  have hrun : (run o e).perform s = (.ok .usage, v) := by
    rw [perform_run, hf]
    exact hreport
  rw [hrun]
  rintro ⟨⟩

/-- A dry run that succeeds prints the command that the options lead to. -/
theorem printed_of_success {e : Executor} {s' : Session} (hdry : o.dryRun = true)
    (hrun : (run o e).perform (start so h) = (.ok .success, s')) :
    ∃ c, LeadsTo o (start so h) c ∧ s'.host.printed = h.printed ++ (c.text ++ "\n") := by
  have hat := at_compile o (start so h)
  rcases hc : (compile o).perform (start so h) with ⟨f | _, t⟩
  · have hexplains := hat.allows f (by rw [hc])
    have hfails := fulfil_error (e := e) hc
    cases f with
    | reported error => exact absurd hrun (run_ne_success hfails hexplains)
    | setting fault => rw [perform_run, hfails] at hrun; cases hrun
    | machine fault => rw [perform_run, hfails] at hrun; cases hrun
  · have hfulfil := fulfil_dry (e := e) hdry hc
    rcases hb : Session.build.perform t with ⟨f | c, u⟩
    · obtain ⟨error, rfl, hrefusal⟩ := Session.build_error hb
      rw [hb] at hfulfil
      exact absurd hrun (run_ne_success hfulfil hrefusal)
    · rw [hb] at hfulfil
      rw [perform_run, hfulfil] at hrun
      cases hrun
      have hcompiled : (start so h).Continues t := hat.leads_of_perform hc
      have hbuilt : t.Continues u := (Session.at_build t).leads_of_perform hb
      have hprinted : u.host.printed = h.printed := (hcompiled.trans hbuilt).host.printed
      exact ⟨c, ⟨t, u, hc, hb⟩, by rw [shown, hprinted]⟩

/-- **Compiling a command line is laying it out.** Whatever options a dry run succeeds with, the
    command that they lead to has just the arguments of the layout, and it is what the run prints. -/
theorem dryRun_prints_layout {e : Executor} {h' : Host} (hdry : o.dryRun = true)
    (hrun : (runOnHost o e).perform h = (.ok .success, h')) :
    ∃ so c, SessionOptions.ofSettings h = .ok so ∧ LeadsTo o (start so h) c ∧
      c.program = so.program ∧ layout so h o = .ok c.arguments ∧
      h'.printed = h.printed ++ (c.text ++ "\n") := by
  obtain ⟨so, s', hs, hsession, rfl⟩ := runOnHost_ok hrun
  have hsettings : SessionOptions.ofSettings h = .ok so := Session.ofSettings_eq_start_iff.mp hs
  obtain ⟨c, hleads, hprinted⟩ := printed_of_success hdry hsession
  obtain ⟨hprogram, hlayout⟩ := layout_of_leadsTo hleads
  exact ⟨so, c, hsettings, hleads, hprogram, hlayout, hprinted⟩

/-- Two files are joined, a picture that is scaled first is laid over, and a title is drawn. The size
    that is asked for takes a label, and is left out beside the graph. -/
theorem dryRun_prints_layout_joined_logo_and_title :
    let o : Options :=
      { concat := { inputs := ["a.mp4", "b.mp4"] }, resize := some { width := some 640 },
        overlay := some { source := "logo.png", width := some 64 },
        caption := some { text := "Title" }, output := "out.mp4", dryRun := true }
    let h : Host := { tree := { entries := [(["a.mp4"], .file "" false), (["b.mp4"], .file "" false),
      (["logo.png"], .file "" false)] } }
    let e := ({} : Rehearsal).executor
    let graph := "[0:v][0:a][1:v][1:a]concat=n=2:v=1:a=1[outv][outa];[2:v]scale=64:-1[ovl1];" ++
      "[outv][ovl1]overlay=0:0[out2];[out2]drawtext=text='Title':fontsize=24:fontcolor=white:" ++
      "x=(w-text_w)/2:y=(h-text_h)/2[out3]"
    ∃ h' so c, o.dryRun = true ∧ (runOnHost o e).perform h = (.ok .success, h') ∧
      SessionOptions.ofSettings h = .ok so ∧ LeadsTo o (start so h) c ∧ c.program = so.program ∧
      layout so h o = .ok c.arguments ∧ h'.printed = h.printed ++ (c.text ++ "\n") ∧
      c.arguments = ["-hide_banner", "-y", "-i", "a.mp4", "-i", "b.mp4", "-i", "logo.png",
        "-filter_complex", graph, "-map", "[out3]", "-map", "[outa]", "out.mp4"] := by
  intro o h e graph
  obtain ⟨code, hrun, rfl⟩ := Action.perform_of_any
    (show (((runOnHost o e).perform h).1.toOption.any fun code => decide (code = .success)) = true by
      decide +kernel)
  obtain ⟨so, c, hsettings, hleads, hprogram, hlayout, hprinted⟩ :=
    dryRun_prints_layout (o := o) rfl hrun
  have hoptions : SessionOptions.ofSettings h = .ok ⟨"ffmpeg", "/temp", true, true⟩ := by
    decide +kernel
  have hwords : layout ⟨"ffmpeg", "/temp", true, true⟩ h o =
      .ok ["-hide_banner", "-y", "-i", "a.mp4", "-i", "b.mp4", "-i", "logo.png",
        "-filter_complex", graph, "-map", "[out3]", "-map", "[outa]", "out.mp4"] := by
    decide +kernel
  have hsame : so = ⟨"ffmpeg", "/temp", true, true⟩ := by
    rw [hoptions] at hsettings
    cases hsettings
    rfl
  have harguments : Except.ok c.arguments = layout so h o := hlayout.symm
  rw [hsame, hwords] at harguments
  exact ⟨_, so, c, rfl, hrun, hsettings, hleads, hprogram, hlayout, hprinted,
    Except.ok.inj harguments⟩

end CommandLine

end Montage

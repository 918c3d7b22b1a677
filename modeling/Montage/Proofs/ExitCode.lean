import Montage.Proofs.Run

/-!
# What the exit code tells

The exit code of a run tells whether the executor was called, and what came of it. The command that it
is called with is the one that a dry run prints. A run that ends without a code did not call it.

* `Settings.Readable`: every setting that a run needs can be read.
* `CommandLine.Ends`: the ways in which a run ends.
* `CommandLine.Tells`: what an exit code tells.

Results:
* `CommandLine.ends_run`: every run ends in one of these ways.
* `CommandLine.run_dry`: options that lead to a command print it in a dry run.
* `CommandLine.exitCode_tells`: an exit code tells what was run, and a dry run is faithful.
-/

namespace Montage

/-! ## Settings -/

/-- The settings that a run needs are unset, or integers. -/
structure Settings.Readable (h : Host) : Prop where
  overwrite : ∃ v, Settings.overwrite h = .ok v
  hideBanner : ∃ v, Settings.hideBanner h = .ok v
  debugging : ∃ v, Settings.debugging h = .ok v
  overlayPadding : ∃ v, Settings.overlayPadding h = .ok v

namespace Settings.Readable

variable {h : Host}

/-- A new session can be made, unless the machine does not tell the working directory. -/
theorem ofSettings (hr : Readable h) :
    (∃ so, Session.ofSettings h = .ok (Session.start so h)) ∨
      ∃ fault, SessionOptions.ofSettings h = .error (.machine fault) := by
  obtain ⟨overwrite, ho⟩ := hr.overwrite
  obtain ⟨hideBanner, hb⟩ := hr.hideBanner
  rcases hf : Settings.tempFolder h with fault | folder
  · right
    refine ⟨fault, ?_⟩
    rw [SessionOptions.ofSettings, hf]
    rfl
  · left
    refine ⟨⟨program h, folder, overwrite, hideBanner⟩, ?_⟩
    rw [Session.ofSettings_eq_start_iff, SessionOptions.ofSettings, hf, ho, hb]
    rfl

/-- Nothing stands in the way of an operation but that it is refused, or that the machine does not
    answer. -/
theorem refusal (hr : Readable h) {f : Failure} (hf : h.Explains f) :
    (∃ error, f = .reported error ∧ error.isRefusal = true) ∨ ∃ fault, f = .machine fault := by
  obtain ⟨wanted, hd⟩ := hr.debugging
  obtain ⟨padding, hp⟩ := hr.overlayPadding
  cases f with
  | reported error => exact .inl ⟨error, rfl, hf⟩
  | machine fault => exact .inr ⟨fault, rfl⟩
  | setting fault =>
    rcases hf with hf | hf
    · rw [hd] at hf
      cases hf
    · rw [hp] at hf
      cases hf

end Settings.Readable

namespace CommandLine

open Session (start build execute)

variable {o : Options} {e : Executor} {so : SessionOptions} {s s' t u : Session} {h : Host}

/-! ## Ends -/

/-- The options lead from the session to the command. -/
def LeadsTo (o : Options) (s : Session) (c : Command) : Prop :=
  ∃ t u, (compile o).perform s = (.ok (), t) ∧ build.perform t = (.ok c, u)

/-- The outcome of a run and the runs of the executor. -/
inductive Ends (o : Options) (e : Executor) (s : Session) : Except Failure ExitCode → List Run → Prop
  /-- The machine does not answer. -/
  | unanswered {fault : FileFault} : Ends o e s (.error (.machine fault)) []
  | refused : Ends o e s (.ok .usage) []
  | printed (dry : o.dryRun = true) : Ends o e s (.ok .success) []
  | returned {r : Run} {result : ExecutionResult} (real : o.dryRun = false)
      (leads : LeadsTo o s r.command)
      (returns : ((e.execute r.command).perform r.host).1 = .ok result) :
      Ends o e s (.ok .success) [r]
  | failed {r : Run} {error : Error} (real : o.dryRun = false) (leads : LeadsTo o s r.command)
      (fails : ((e.execute r.command).perform r.host).1 = .error (.reported error)) :
      Ends o e s (.ok .execution) [r]

theorem perform_report_refusal {error : Error} (hr : error.isRefusal = true) (t : Session) :
    ∃ u, (Session.onHost (report error)).perform t = (.ok .usage, u) ∧ u.runs = t.runs :=
  ⟨_, Prod.ext (report_refusal hr t.host) rfl, rfl⟩

theorem perform_report_execution {error : Error} (hr : error.isRefusal = false) {wanted : Bool}
    (hd : Settings.debugging t.host = .ok wanted) :
    ∃ u, (Session.onHost (report error)).perform t = (.ok .execution, u) ∧ u.runs = t.runs :=
  ⟨_, Prod.ext (report_execution hr hd) rfl, rfl⟩

/-- A refusal ends a run. -/
theorem ends_of_refusal {error : Error} (hf : (fulfil o e).perform s = (.error (.reported error), t))
    (hr : error.isRefusal = true) (hruns : t.runs = []) :
    Ends o e s ((run o e).perform s).1 ((run o e).perform s).2.runs := by
  obtain ⟨u, hreport, hu⟩ := perform_report_refusal hr t
  have hrun : (run o e).perform s = (.ok .usage, u) := by
    rw [perform_run, hf]
    exact hreport
  rw [hrun, hu, hruns]
  exact .refused

/-- So does a question without an answer. -/
theorem ends_of_unanswered {fault : FileFault}
    (hf : (fulfil o e).perform s = (.error (.machine fault), t)) (hruns : t.runs = []) :
    Ends o e s ((run o e).perform s).1 ((run o e).perform s).2.runs := by
  have hrun : (run o e).perform s = (.error (.machine fault), t) := by rw [perform_run, hf]
  rw [hrun, hruns]
  exact .unanswered

/-- A dry run ends with the command, or that is refused. -/
theorem ends_dry (hdry : o.dryRun = true) (hc : (compile o).perform s = (.ok (), t))
    (hruns : t.runs = []) : Ends o e s ((run o e).perform s).1 ((run o e).perform s).2.runs := by
  have hfulfil := fulfil_dry (e := e) hdry hc
  have hkeeps : (build.perform t).2.runs = t.runs := (Session.at_build t).leads.runs
  rcases hb : build.perform t with ⟨f | c, u⟩
  · rw [hb] at hfulfil hkeeps
    obtain ⟨error, rfl, hrefusal⟩ := Session.build_error hb
    exact ends_of_refusal hfulfil hrefusal (hkeeps.trans hruns)
  · rw [hb] at hfulfil hkeeps
    have hnone : (shown u c).runs = [] := hkeeps.trans hruns
    have hrun : (run o e).perform s = (.ok .success, shown u c) := by rw [perform_run, hfulfil]
    rw [hrun, hnone]
    exact .printed hdry

/-- An executor that fails ends a run, and its failure is reported. -/
theorem ends_of_failed {r : Run} {error : Error} {wanted : Bool} (he : e.RunsPrograms)
    (hreal : o.dryRun = false) (hleads : LeadsTo o s r.command)
    (hfails : ((e.execute r.command).perform r.host).1 = .error (.reported error))
    (hf : (fulfil o e).perform s = (.error (.reported error), t)) (hruns : t.runs = [r])
    (hd : Settings.debugging t.host = .ok wanted) :
    Ends o e s ((run o e).perform s).1 ((run o e).perform s).2.runs := by
  have hfailure : error.isRefusal = false := (he r.command r.host).allows (.reported error) hfails
  obtain ⟨u, hreport, hu⟩ := perform_report_execution hfailure hd
  have hrun : (run o e).perform s = (.ok .execution, u) := by
    rw [perform_run, hf]
    exact hreport
  rw [hrun, hu, hruns]
  exact .failed hreal hleads hfails

/-- Any other run ends with the execution. -/
theorem ends_real (he : e.RunsPrograms) (hreal : o.dryRun = false) {wanted : Bool}
    (hd : Settings.debugging t.host = .ok wanted) (hc : (compile o).perform s = (.ok (), t))
    (hruns : t.runs = []) : Ends o e s ((run o e).perform s).1 ((run o e).perform s).2.runs := by
  have hfulfil := fulfil_real (e := e) hreal hc
  by_cases hin : t.input = none
  · rw [Session.execute_of_no_input e hin] at hfulfil
    exact ends_of_refusal hfulfil rfl hruns
  have hinput : t.input.isSome = true := Option.isSome_iff_ne_none.mpr hin
  rcases hasks : t.host.pathExists (t.input.getD "") with fault | isThere
  · rw [Session.execute_of_unanswered e hinput hasks] at hfulfil
    exact ends_of_unanswered hfulfil hruns
  have hexecution := Session.execution_execute e hinput
  rcases hx : (execute e).perform t with ⟨outcome, u⟩
  rw [hx] at hexecution hfulfil
  obtain ⟨x, rfl⟩ := hexecution.outcome_eq he.reports hd (by rw [hasks]; rintro fault ⟨⟩)
  generalize hout : x.mapError Failure.reported = outcome at hexecution hfulfil
  cases hexecution with
  | unanswered hnone => rw [hasks] at hnone; cases hnone
  | unreadable hm hdebugging => cases x <;> cases hout
  | broken hm hescapes hexecute =>
    cases x with
    | ok result => cases hout
    | error error => cases hout; exact hescapes.elim
  | refused error hm hrefusal hclean =>
    exact ends_of_refusal hfulfil hrefusal (by rw [hclean.runs, hm.runs, hruns])
  | @ended m _ c host outcome hm hbuilt hexecute hclean =>
    obtain ⟨v, hbuild⟩ := hbuilt (output_of_compile hc)
    have hleads : LeadsTo o s c := ⟨t, v, hc, hbuild⟩
    have hu : u.runs = [⟨c, m.host⟩] := by rw [hclean.runs, Session.handed, hm.runs, hruns]; rfl
    cases outcome with
    | ok result =>
      rw [perform_run, hfulfil]
      change Ends o e s (.ok .success) u.runs
      rw [hu]
      exact .returned hreal hleads (by rw [hexecute]; rfl)
    | error error =>
      have hstays : host.environment = m.host.environment :=
        (he c m.host).leads_of_perform hexecute
      have hreads : Settings.debugging u.host = .ok wanted := by
        rw [hclean.host.debugging, ← hd, ← hm.host.debugging]
        exact Settings.debugging_congr hstays
      have hfails : ((e.execute c).perform m.host).1 = .error (.reported error) := by
        rw [hexecute]
        rfl
      exact ends_of_failed he hreal hleads hfails hfulfil hu hreads

/-- However a run is asked for, it ends in one of these ways. -/
theorem ends_run (hr : Settings.Readable h) (he : e.RunsPrograms) (o : Options)
    (so : SessionOptions) :
    Ends o e (start so h) ((run o e).perform (start so h)).1
      ((run o e).perform (start so h)).2.runs := by
  have hat := at_compile o (start so h)
  rcases hc : (compile o).perform (start so h) with ⟨f | _, t⟩
  · have hruns : t.runs = [] := (hat.leads_of_perform hc).runs
    have hfulfil := fulfil_error (e := e) hc
    rcases hr.refusal (hat.allows f (by rw [hc])) with ⟨error, rfl, hrefusal⟩ | ⟨fault, rfl⟩
    · exact ends_of_refusal hfulfil hrefusal hruns
    · exact ends_of_unanswered hfulfil hruns
  · have hleads : (start so h).Continues t := hat.leads_of_perform hc
    obtain ⟨wanted, hwanted⟩ := hr.debugging
    have hd : Settings.debugging t.host = .ok wanted := hleads.host.debugging.trans hwanted
    cases hdry : o.dryRun with
    | true => exact ends_dry hdry hc hleads.runs
    | false => exact ends_real he hdry hd hc hleads.runs

/-! ## Dry runs -/

/-- Options that lead to a command print it in a dry run, and nothing is run. -/
theorem run_dry {c : Command} (hc : LeadsTo o (start so h) c) (e : Executor) :
    ∃ d, (run { o with dryRun := true } e).perform (start so h) = (.ok .success, d) ∧
      d.runs = [] ∧ d.host.printed = h.printed ++ (c.text ++ "\n") := by
  obtain ⟨t, u, hcompile, hbuild⟩ := hc
  have hsame : (compile { o with dryRun := true }).perform (start so h) = (.ok (), t) := hcompile
  have hcompiled : (start so h).Continues t := (at_compile o _).leads_of_perform hcompile
  have hbuilt : t.Continues u := (Session.at_build t).leads_of_perform hbuild
  have hcontinues := hcompiled.trans hbuilt
  have hfulfil := fulfil_dry (e := e) rfl hsame
  rw [hbuild] at hfulfil
  have hprinted : u.host.printed = h.printed := hcontinues.host.printed
  exact ⟨shown u c, by rw [perform_run, hfulfil], hcontinues.runs, by rw [shown, hprinted]⟩

/-! ## What the code tells -/

/-- What an exit code tells of the runs of the executor. -/
structure Tells (o : Options) (e : Executor) (code : ExitCode) (runs : List Run) : Prop where
  /-- It was a dry run, or the executor was called once and returned. -/
  success : code = .success → (o.dryRun = true ∧ runs = []) ∨
    ∃ r result, runs = [r] ∧ ((e.execute r.command).perform r.host).1 = .ok result
  /-- The executor was called once and failed. -/
  execution : code = .execution ↔
    ∃ r error, runs = [r] ∧ ((e.execute r.command).perform r.host).1 = .error (.reported error)
  /-- The executor was not called. -/
  usage : code = .usage → runs = []

theorem Ends.tells {code : ExitCode} {runs : List Run} (h : Ends o e s (.ok code) runs) :
    Tells o e code runs := by
  cases h with
  | refused =>
    exact ⟨by rintro ⟨⟩, ⟨by rintro ⟨⟩, by rintro ⟨r, error, ⟨⟩, -⟩⟩, fun _ => rfl⟩
  | printed hdry =>
    exact ⟨fun _ => .inl ⟨hdry, rfl⟩, ⟨by rintro ⟨⟩, by rintro ⟨r, error, ⟨⟩, -⟩⟩, by rintro ⟨⟩⟩
  | returned hreal hleads hreturns =>
    refine ⟨fun _ => .inr ⟨_, _, rfl, hreturns⟩, ⟨by rintro ⟨⟩, ?_⟩, by rintro ⟨⟩⟩
    rintro ⟨r, error, ⟨⟩, hfails⟩
    rw [hreturns] at hfails
    cases hfails
  | failed hreal hleads hfails =>
    exact ⟨by rintro ⟨⟩, ⟨fun _ => ⟨_, _, rfl, hfails⟩, fun _ => rfl⟩, by rintro ⟨⟩⟩

/-- Whatever is run, the options lead to it. -/
theorem Ends.leadsTo {outcome : Except Failure ExitCode} {runs : List Run} {r : Run}
    (h : Ends o e s outcome runs) (hr : r ∈ runs) : LeadsTo o s r.command := by
  cases h with
  | unanswered => cases hr
  | refused => cases hr
  | printed hdry => cases hr
  | returned hreal hleads hreturns => rw [List.mem_singleton.mp hr]; exact hleads
  | failed hreal hleads hfails => rw [List.mem_singleton.mp hr]; exact hleads

/-- A run without a code called no executor. -/
theorem Ends.no_code {f : Failure} {runs : List Run} (h : Ends o e s (.error f) runs) :
    (∃ fault, f = .machine fault) ∧ runs = [] := by
  cases h with
  | unanswered => exact ⟨⟨_, rfl⟩, rfl⟩

/-- **The exit code tells what was run, and a dry run is faithful.** If the settings can be read,
    every exit code of a run tells what came of the executor. The command that the executor is called
    with is the one that the same options print in a dry run on the same host, and that run succeeds.
    A run that ends without a code met a question that the machine does not answer, and did not call
    the executor. -/
theorem exitCode_tells (hr : Settings.Readable h) (he : e.RunsPrograms) (o : Options) :
    (∀ code h', (runOnHost o e).perform h = (.ok code, h') →
      ∃ s s', Session.ofSettings h = .ok s ∧ (run o e).perform s = (.ok code, s') ∧ s'.host = h' ∧
        Tells o e code s'.runs ∧
        ∀ r ∈ s'.runs, ∃ d,
          (run { o with dryRun := true } e).perform s = (.ok .success, d) ∧ d.runs = [] ∧
          (runOnHost { o with dryRun := true } e).perform h = (.ok .success, d.host) ∧
          d.host.printed = h.printed ++ (r.command.text ++ "\n")) ∧
    ∀ f h', (runOnHost o e).perform h = (.error f, h') → (∃ fault, f = .machine fault) ∧
      ∀ s, Session.ofSettings h = .ok s → ((run o e).perform s).2.runs = [] := by
  constructor
  · intro code h' hcode
    obtain ⟨so, s', hs, hrun, rfl⟩ := runOnHost_ok hcode
    have hends := ends_run hr he o so
    rw [hrun] at hends
    refine ⟨_, s', hs, hrun, rfl, hends.tells, fun r hmem => ?_⟩
    obtain ⟨d, hdry, hruns, hprinted⟩ := run_dry (hends.leadsTo hmem) e
    exact ⟨d, hdry, hruns, by rw [perform_runOnHost hs, hdry], hprinted⟩
  · intro f h' hfails
    rcases hr.ofSettings with ⟨so, hs⟩ | ⟨fault, hs⟩
    · rw [perform_runOnHost hs] at hfails
      have hends := ends_run hr he o so
      rw [(Prod.mk.inj hfails).1] at hends
      refine ⟨hends.no_code.1, fun s hstart => ?_⟩
      rw [hs] at hstart
      cases hstart
      exact hends.no_code.2
    · rw [perform_runOnHost_of_error hs] at hfails
      cases hfails
      refine ⟨⟨fault, rfl⟩, fun s hstart => ?_⟩
      rw [Session.ofSettings_eq_error_iff.mpr hs] at hstart
      cases hstart

/-- Files are to be joined and the program fails: it was given the command that a dry run prints. -/
theorem exitCode_tells_failed_join :
    let o : Options :=
      { concat := { inputs := ["a.mp4", "b.mp4"], strategy := some "demuxer" }, output := "out.mp4" }
    let h : Host :=
      { tree := { entries := [(["a.mp4"], .file "" false), (["b.mp4"], .file "" false)] } }
    let e := ({ failure := some "broken pipe" } : Rehearsal).executor
    Settings.Readable h ∧ e.RunsPrograms ∧ ∃ s' : Session,
      (runOnHost o e).perform h = (.ok .execution, s'.host) ∧ Tells o e .execution s'.runs ∧
      ∀ r ∈ s'.runs, r.command.text ++ "\n" =
        "ffmpeg -hide_banner -y -f concat -safe 0 -i /temp/concat-1-0-0.txt -c copy out.mp4\n" := by
  intro o h e
  have hreadable : Settings.Readable h := ⟨⟨true, rfl⟩, ⟨true, rfl⟩, ⟨false, rfl⟩, ⟨10, rfl⟩⟩
  have hexecutor : e.RunsPrograms := Rehearsal.runsPrograms _
  have hcode : ((runOnHost o e).perform h).1 = .ok .execution := by decide +kernel
  have hprints : ((runOnHost { o with dryRun := true } e).perform h).2.printed =
      "ffmpeg -hide_banner -y -f concat -safe 0 -i /temp/concat-1-0-0.txt -c copy out.mp4\n" := by
    decide +kernel
  rcases hrun : (runOnHost o e).perform h with ⟨outcome, h'⟩
  rw [hrun] at hcode
  cases hcode
  obtain ⟨s, s', -, -, rfl, htells, hdry⟩ :=
    (exitCode_tells hreadable hexecutor o).1 .execution h' hrun
  refine ⟨hreadable, hexecutor, s', rfl, htells, fun r hr => ?_⟩
  obtain ⟨d, -, -, hd, hprinted⟩ := hdry r hr
  rw [hd, hprinted] at hprints
  exact hprints

end CommandLine

end Montage

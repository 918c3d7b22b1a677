import Montage.Proofs.CleanUp
import Montage.Proofs.Run
import Montage.Proofs.Writing

/-!
# Lists that a run leaves

List files are written while the options are put into the session, and removed by the execution. A
run whose options are refused comes to no execution, so what it has written until then stays.

* `CommandLine.Leaves`: what becomes of the list files of a run.

Results:
* `CommandLine.writes_compile`: the list files are all that is written before the execution.
* `CommandLine.leaves_runOnHost`: a run that is no dry run leaves its list files just if its options
  are refused.
-/

namespace Montage.CommandLine

open Session (Unspent Going start execute)

variable {o : Options} {e : Executor} {so : SessionOptions} {s s' t : Session} {h h' : Host}
  {code : ExitCode}

/-- While options are put into a session no files are written but lists that are owned. -/
theorem writes_compile {outcome : Except Failure Unit}
    (hcompile : (compile o).perform (start so h) = (outcome, t)) (ho : Handled outcome) :
    h.Writes t.lists t.host := by
  rw [compile_eq_sequence, Session.sequence] at hcompile
  let I (s : Session) : Prop := Unspent so (so.listFolder h) s ∧ h.Writes s.lists s.host
  have hstart : I (start so h) := ⟨.inl (Session.fresh_start so h), .of_tree rfl⟩
  refine (Action.forM_keeps_of_handled (I := I) ?_ hstart hcompile ho).2
  intro c s outcome m hs hc ho
  refine ⟨?_, hs.1.writes_call hs.2 hc ho⟩
  have hnext := hs.1.step (.call c) (by rintro e ⟨⟩)
  rwa [Session.Step.after, hc] at hnext

/-- What becomes of the list files of a run. The options led to the session `t`, and the run ended
    with the session `s'`. -/
structure Leaves (outcome : Except Failure Unit) (t : Session) (code : ExitCode) (s' : Session) :
    Prop where
  /-- The list files of options that are accepted are gone, or the log tells that they could not be
      removed. -/
  settled : outcome.isOk = true → ∀ path ∈ t.lists, s'.host.Settled path
  /-- Options that are refused leave all files where they are, lists among them, and nothing is
      run. -/
  left : outcome.isOk = false → code = .usage ∧ s'.runs = [] ∧ s'.host.tree = t.host.tree ∧
    ∀ path ∈ t.lists, ∃ c : Concatenation, s'.host.content? path = some (c.listContent s'.host)

/-- A run that ends with a code was not ended by a failure that escapes. -/
theorem handled_of_run {f : Failure} (hcompile : (compile o).perform (start so h) = (.error f, t))
    (hrun : (run o e).perform (start so h) = (.ok code, s')) :
    Handled (.error f : Except Failure Unit) := by
  rw [perform_run, fulfil_error hcompile] at hrun
  rintro f' ⟨⟩ hescapes
  cases f with
  | reported error => exact hescapes
  | setting fault => cases hrun
  | machine fault => cases hrun

/-- A run whose options are refused ends with the report. -/
theorem leaves_of_refused {f : Failure} (hcompile : (compile o).perform (start so h) = (.error f, t))
    (hrun : (run o e).perform (start so h) = (.ok code, s')) : Leaves (.error f) t code s' := by
  have hat := at_compile o (start so h)
  have hstands := (unspent_compile o so h).2
  rw [perform_run, fulfil_error hcompile] at hrun
  rw [hcompile] at hstands
  cases f with
  | setting fault => cases hrun
  | machine fault => cases hrun
  | reported error =>
    have hrefusal : error.isRefusal = true := hat.allows (.reported error) (by rw [hcompile])
    have hruns : t.runs = [] := (hat.leads_of_perform hcompile).runs
    have hhost := report_continues error t.host
    have hcode := report_refusal hrefusal t.host
    obtain ⟨hcode', rfl⟩ := Prod.mk.inj hrun
    refine ⟨by rintro ⟨⟩, fun _ => ⟨?_, hruns, hhost.tree trivial, fun path hp => ?_⟩⟩
    · exact Except.ok.inj (hcode'.symm.trans hcode)
    · obtain ⟨c, -, hlists⟩ := hstands.lists hp
      exact ⟨c, (hlists.continues hhost trivial).content?_eq⟩

/-- A run whose options are accepted ends after the execution. -/
theorem leaves_of_accepted (hreal : o.dryRun = false)
    (hcompile : (compile o).perform (start so h) = (.ok (), t))
    (hrun : (run o e).perform (start so h) = (.ok code, s')) : Leaves (.ok ()) t code s' := by
  have hunspent := (unspent_compile o so h).1
  rw [hcompile] at hunspent
  refine ⟨fun _ path hp => ?_, by rintro ⟨⟩⟩
  rcases hunspent with ht | ht
  · rw [ht.lists] at hp
    cases hp
  have hexecution := Session.execution_execute e ht.input
  rw [perform_run, fulfil_real hreal hcompile] at hrun
  have hfolder := so.listFolder_ne_empty h
  rcases hx : (execute e).perform t with ⟨(error | fault | fault) | result, u⟩
  · rw [hx] at hrun hexecution
    have hsettled := hexecution.settled (x := .error error) rfl hfolder ht hp
    obtain ⟨-, rfl⟩ := Prod.mk.inj hrun
    exact hsettled.continues (report_continues error u.host)
  · rw [hx] at hrun
    cases hrun
  · rw [hx] at hrun
    cases hrun
  · rw [hx] at hrun hexecution
    have hsettled := hexecution.settled (x := .ok result) rfl hfolder ht hp
    obtain ⟨-, rfl⟩ := Prod.mk.inj hrun
    exact hsettled.continues (Host.at_logText _).leads

/-- **Only refused options leave their lists.** Whatever is asked for, on any host and with any
    executor: all that a run writes before the execution are list files that operations own. If the
    options were accepted, each of them is settled in the end, with whatever code the run ends; if
    not, each of them still stands there with its content. -/
theorem leaves_runOnHost (hreal : o.dryRun = false)
    (hrun : (runOnHost o e).perform h = (.ok code, h')) :
    ∃ s t s' outcome, Session.ofSettings h = .ok s ∧ (compile o).perform s = (outcome, t) ∧
      (run o e).perform s = (.ok code, s') ∧ s'.host = h' ∧ h.Writes t.lists t.host ∧
      Leaves outcome t code s' := by
  obtain ⟨so, s', hs, hrun, hh⟩ := runOnHost_ok hrun
  rcases hcompile : (compile o).perform (start so h) with ⟨f | _, t⟩
  · have hwrites := writes_compile hcompile (handled_of_run hcompile hrun)
    exact ⟨_, t, s', _, hs, hcompile, hrun, hh, hwrites, leaves_of_refused hcompile hrun⟩
  · have hwrites := writes_compile hcompile (by rintro f ⟨⟩)
    exact ⟨_, t, s', _, hs, hcompile, hrun, hh, hwrites, leaves_of_accepted hreal hcompile hrun⟩

/-- The list file of a joined video stays there after a factor for the speed was refused. -/
theorem leaves_refused_speed :
    let o : Options :=
      { concat := { inputs := ["a.mp4", "b.mp4"], strategy := some "demuxer" }, speed := some 0,
        output := "out.mp4" }
    let h : Host :=
      { tree := { entries := [(["a.mp4"], .file "" false), (["b.mp4"], .file "" false)] } }
    o.dryRun = false ∧ ∃ h', (runOnHost o ({} : Rehearsal).executor).perform h = (.ok .usage, h') ∧
      ∃ t s' outcome, s'.host = h' ∧ t.lists = ["/temp/concat-1-0-0.txt"] ∧
        outcome.isOk = false ∧ h.Writes t.lists t.host ∧ Leaves outcome t .usage s' := by
  intro o h
  have hcode : ((runOnHost o ({} : Rehearsal).executor).perform h).1 = .ok .usage := by
    decide +kernel
  have hcompiled : (Session.ofSettings h).toOption.map (fun s =>
      (((compile o).perform s).1.isOk, ((compile o).perform s).2.lists)) =
        some (false, ["/temp/concat-1-0-0.txt"]) := by
    decide +kernel
  rcases hrun : (runOnHost o ({} : Rehearsal).executor).perform h with ⟨_, h'⟩
  rw [hrun] at hcode
  cases hcode
  obtain ⟨s, t, s', outcome, hs, hcompile, -, hh, hwrites, hleaves⟩ := leaves_runOnHost rfl hrun
  rw [hs] at hcompiled
  obtain ⟨hrefused, hlists⟩ := Prod.mk.inj (Option.some.inj hcompiled)
  rw [hcompile] at hrefused hlists
  exact ⟨rfl, h', rfl, t, s', outcome, hh, hlists, hrefused, hwrites, hleaves⟩

/-- A run whose factor for the speed is refused writes a list file and does not remove it. -/
theorem refused_speed_leaves_list :
    let o : Options :=
      { concat := { inputs := ["a.mp4", "b.mp4"], strategy := some "demuxer" }, speed := some 0,
        output := "out.mp4" }
    let h : Host :=
      { tree := { entries := [(["a.mp4"], .file "" false), (["b.mp4"], .file "" false)] } }
    let x := (runOnHost o ({} : Rehearsal).executor).perform h
    o.dryRun = false ∧ x.1 = .ok .usage ∧ h.pathExists "/temp/concat-1-0-0.txt" = .ok false ∧
      x.2.content? "/temp/concat-1-0-0.txt" = some "file '/a.mp4'\nfile '/b.mp4'" ∧
      ¬ x.2.Settled "/temp/concat-1-0-0.txt" := by
  intro o h x
  have hstands : x.2.pathExists "/temp/concat-1-0-0.txt" = .ok true := by decide +kernel
  have hlog : x.2.logged =
      "[ERROR] Invalid parameter 'factor': Speed factor must be positive.\n" := by
    decide +kernel
  refine ⟨rfl, by decide +kernel, by decide +kernel, by decide +kernel, ?_⟩
  rintro (hgone | ⟨m, fault, more, -, hwarned⟩)
  · rw [Host.IsAbsent, hstands] at hgone
    cases hgone
  · -- The warning would stand in the log, which has no capital W.
    have hmem : 'W' ∈ x.2.logged.toList := by
      rw [hwarned]
      simp [Host.listWarning, show 'W' ∈ (toString "[WARN] ").toList by decide]
    rw [hlog] at hmem
    revert hmem
    decide

end Montage.CommandLine

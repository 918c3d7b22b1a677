import Montage.Proofs.CommandLine
import Montage.Proofs.Phase

/-!
# How a run goes

A run puts what is asked for into a session, and then prints the command or executes it. What it gives
back depends on where it stops. These equations take a run apart, once for all proofs about runs.

* `CommandLine.perform_run`, `CommandLine.fulfil_dry`, `CommandLine.fulfil_real`: the parts of a run.

Results:
* `CommandLine.report_refusal`, `CommandLine.report_execution`: the exit code of an error.
* `CommandLine.unspent_compile`: what is asked for leads to no execution, whether it fails or not.
* `CommandLine.at_compile`, `CommandLine.output_of_compile`: what else holds of the session then.
-/

namespace Montage

/-- What each of several actions keeps, however it ends, holds after all of them. -/
theorem Action.forM_keeps {σ γ : Type} {step : γ → Action σ PUnit} {I : σ → Prop}
    (keep : ∀ x s, I s → I ((step x).perform s).2) {xs : List γ} {s : σ} (hs : I s) :
    I ((forM xs step).perform s).2 := by
  induction xs generalizing s with
  | nil => exact hs
  | cons x xs ih =>
    rw [List.forM_cons, Action.perform_bind]
    have hx := keep x s hs
    rcases h : (step x).perform s with ⟨_ | _, t⟩
    · rw [h] at hx; exact hx
    · rw [h] at hx; exact ih hx

/-- If no failure escapes, it is enough that each keeps it when none does. -/
theorem Action.forM_keeps_of_handled {σ γ : Type} {step : γ → Action σ PUnit} {I : σ → Prop}
    (keep : ∀ x s outcome t, I s → (step x).perform s = (outcome, t) → Handled outcome → I t)
    {xs : List γ} {s t : σ} {outcome : Except Failure PUnit} (hs : I s)
    (h : (forM xs step).perform s = (outcome, t)) (ho : Handled outcome) : I t := by
  induction xs generalizing s with
  | nil => cases h; exact hs
  | cons x xs ih =>
    rw [List.forM_cons, Action.perform_bind] at h
    rcases hx : (step x).perform s with ⟨f | ⟨⟩, m⟩
    · rw [hx] at h
      cases h
      exact keep x s _ _ hs hx ho
    · rw [hx] at h
      exact ih (keep x s _ m hs hx (by rintro f ⟨⟩)) h

/-! ## Settings -/

namespace Session

variable {h : Host}

theorem ofSettings_eq_error_iff {f : Failure} :
    ofSettings h = .error f ↔ SessionOptions.ofSettings h = .error f := by
  simp only [ofSettings, bind_eq_error, pure_ne_error, and_false, exists_false, or_false]

theorem ofSettings_eq_start_iff {so : SessionOptions} :
    ofSettings h = .ok (start so h) ↔ SessionOptions.ofSettings h = .ok so := by
  rw [ofSettings, bind_eq_ok]
  constructor
  · rintro ⟨so', hso, hstart⟩
    -- A session keeps its options, so sessions that start alike were given the same ones.
    have hsame : so' = so := congrArg Session.options (pure_eq_ok.mp hstart)
    rw [hso, hsame]
  · intro hso
    exact ⟨so, hso, rfl⟩

end Session

namespace CommandLine

open Session (Unspent start build execute)

variable {o : Options} {e : Executor} {s t : Session}

/-! ## Errors -/

/-- The report of an error goes to the log. -/
theorem report_continues (error : Error) (h : Host) :
    h.Continues True ((report error).perform h).2 := by
  have hreport : (Host.continuing True).At h (report error) := by
    unfold report
    refine .bind (Host.at_logText _) fun _ h₁ _ => ?_
    cases error with
    | executionFailed command err => exact .bind (Log.at_debug _) fun _ _ _ => .pure _
    | _ => exact .pure _
  exact hreport.leads

theorem report_refusal {error : Error} (hr : error.isRefusal = true) (h : Host) :
    ((report error).perform h).1 = .ok .usage := by
  cases error with
  | programNotFound program => cases hr
  | executionFailed command err => cases hr
  | _ => rfl

/-- Reporting that a program failed reads the setting for debugging messages. -/
theorem report_execution {error : Error} (hr : error.isRefusal = false) {h : Host} {wanted : Bool}
    (hd : Settings.debugging h = .ok wanted) : ((report error).perform h).1 = .ok .execution := by
  cases error with
  | programNotFound program => rfl
  | executionFailed command err =>
    unfold report Log.error Host.logText
    simp only [Action.perform_bind, Action.perform_modify, Log.perform_debug]
    generalize hh : ({ h with logged := _ } : Host) = h₁
    have hd' : Settings.debugging h₁ = .ok wanted := by rw [← hh]; exact hd
    rw [hd']
    rfl
  | _ => cases hr

/-! ## Parts of a run -/

theorem perform_run (o : Options) (e : Executor) (s : Session) :
    (run o e).perform s =
      match (fulfil o e).perform s with
      | (.ok _, t) => (.ok .success, t)
      | (.error (.reported error), t) => (Session.onHost (report error)).perform t
      | (.error (.setting fault), t) => (.error (.setting fault), t)
      | (.error (.machine fault), t) => (.error (.machine fault), t) := by
  unfold run
  rw [Action.perform_bind, Action.perform_attempt]
  rcases (fulfil o e).perform s with ⟨(error | fault | fault) | _, t⟩ <;> rfl

theorem fulfil_error {f : Failure} (h : (compile o).perform s = (.error f, t)) :
    (fulfil o e).perform s = (.error f, t) := by
  unfold fulfil
  rw [Action.perform_bind, h]

/-- The session after a command was printed. -/
def shown (u : Session) (c : Command) : Session :=
  { u with host := { u.host with printed := u.host.printed ++ (c.text ++ "\n") } }

theorem fulfil_dry (ho : o.dryRun = true) (h : (compile o).perform s = (.ok (), t)) :
    (fulfil o e).perform s =
      match build.perform t with
      | (.ok command, u) => (.ok (), shown u command)
      | (.error f, u) => (.error f, u) := by
  unfold fulfil
  rw [Action.perform_bind_of_ok h]
  simp only [ho, if_true]
  rw [Action.perform_bind]
  rcases build.perform t with ⟨f | command, u⟩ <;> rfl

theorem fulfil_real (ho : o.dryRun = false) (h : (compile o).perform s = (.ok (), t)) :
    (fulfil o e).perform s =
      match (execute e).perform t with
      | (.ok result, u) => (Session.onHost (Log.info s!"Done: {result.outputPath}")).perform u
      | (.error f, u) => (.error f, u) := by
  unfold fulfil
  rw [Action.perform_bind_of_ok h]
  simp only [ho, Bool.false_eq_true, if_false]
  rw [Action.perform_bind]
  rcases (execute e).perform t with ⟨f | result, u⟩ <;> rfl

/-- With settings that give no options for a session, a run does not begin. -/
theorem perform_runOnHost_of_error {h : Host} {f : Failure}
    (hs : SessionOptions.ofSettings h = .error f) :
    (runOnHost o e).perform h = (.error f, h) := by
  unfold runOnHost
  rw [Action.perform_bind_of_ok (Action.perform_get h), Session.ofSettings_eq_error_iff.mpr hs]
  rfl

/-- A run on a host is a run of the session that the settings give. -/
theorem perform_runOnHost {h : Host} (hs : Session.ofSettings h = .ok s) :
    (runOnHost o e).perform h = (((run o e).perform s).1, ((run o e).perform s).2.host) := by
  unfold runOnHost
  rw [Action.perform_bind_of_ok (Action.perform_get h), hs]
  rfl

theorem runOnHost_ok {h h' : Host} {code : ExitCode}
    (hrun : (runOnHost o e).perform h = (.ok code, h')) :
    ∃ so s', Session.ofSettings h = .ok (start so h) ∧
      (run o e).perform (start so h) = (.ok code, s') ∧ s'.host = h' := by
  rcases hs : SessionOptions.ofSettings h with f | so
  · rw [perform_runOnHost_of_error hs] at hrun
    cases hrun
  · have hstart := Session.ofSettings_eq_start_iff.mpr hs
    rw [perform_runOnHost hstart] at hrun
    obtain ⟨hcode, rfl⟩ := Prod.mk.inj hrun
    exact ⟨so, _, hstart, Prod.ext hcode rfl, rfl⟩

/-! ## The session of a command line -/

/-- The session that options are put into was not executed, and the lists that it owns stand in their
    folder. -/
theorem unspent_compile (o : Options) (so : SessionOptions) (h : Host) :
    Unspent so (so.listFolder h) ((compile o).perform (start so h)).2 ∧
      ((compile o).perform (start so h)).2.Stands (so.listFolder h) := by
  rw [compile_eq_sequence, Session.sequence]
  let I (s : Session) : Prop := Unspent so (so.listFolder h) s ∧ s.Stands (so.listFolder h)
  have hstart : I (start so h) :=
    ⟨.inl (Session.fresh_start so h), Session.stands_of_kept_nil rfl⟩
  refine Action.forM_keeps (I := I) (fun c s hs => ?_) hstart
  have hcall : ∀ e, Session.Step.call c ≠ .execute e := by rintro e ⟨⟩
  exact ⟨hs.1.step (.call c) hcall,
    hs.1.phase.stands_step hs.2 (.call c) (fun e he => absurd he (hcall e)) trivial⟩

theorem at_compile (o : Options) (s : Session) : Session.continuing.At s (compile o) := by
  rw [compile_eq_sequence]
  exact Session.at_sequence o.calls s

/-- Options that are put into a session give it an output. -/
theorem output_of_compile (h : (compile o).perform s = (.ok (), t)) : t.output.isSome = true := by
  rw [compile_eq_sequence, Options.calls, Session.sequence] at h
  obtain ⟨m, -, hlast⟩ := Action.forM_append_ok h
  obtain ⟨m', hout, hnil⟩ := Action.forM_cons_ok hlast
  cases hnil
  rcases Session.setOutput_cases o.output {} m with ⟨fault, -, hset⟩ | ⟨host, -, hset⟩
  · have : (Session.setOutput o.output {}).perform m = (.ok (), t) := hout
    rw [hset] at this
    cases this
  · have : (Session.setOutput o.output {}).perform m = (.ok (), t) := hout
    rw [hset] at this
    cases this
    rfl

end CommandLine

end Montage

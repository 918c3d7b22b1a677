import Montage.Proofs.Phase

/-!
# Calls that pass

A call of a session first checks what it was given. A call that does not pass is refused, or skipped
with a warning, and nothing comes of it. One that passes says so in the log, if the settings ask for
such messages, and only then goes to work.

* `Session.Call.passes`: whether a call passes.
* `Session.Call.Stalls`: a call asks whether a file is there, or where the working directory is, and the
  machine does not answer.

Results:
* `Session.Call.perform_of_not_passes`: a call that does not pass adds to the log at most.
* `Session.Call.perform_of_unreadable`: a call that passes stops at a setting that cannot be read.
* `Session.setInput_of_readable`, `Session.setOutput_of_readable`, `Session.keep_of_readable`: what
  comes of a call that passes if the setting can be read.
-/

namespace Montage

namespace Host.Continues

variable {still : Prop} {h h' : Host}

theorem pathExists (a : Continues still h h') (hs : still) (path : String) :
    h'.pathExists path = h.pathExists path := by
  rw [Host.pathExists, a.find hs, Host.pathExists]

theorem requireFile (a : Continues still h h') (hs : still) (path details : String) :
    h'.requireFile path details = h.requireFile path details := by
  rw [Host.requireFile, a.pathExists hs, Host.requireFile]

/-- The check of an operation looks at files and at nothing else of a host. -/
theorem check (a : Continues still h h') (hs : still) (op : Operation) : op.check h' = op.check h := by
  cases op with
  | overlay o => simp only [Operation.check, Overlay.check, a.requireFile hs]
  | concat c =>
    simp only [Operation.check, Concatenation.check, Concatenation.checkInputs, a.requireFile hs]
  | _ => rfl

end Host.Continues

/-- A concatenation that was made of a request passes its check. -/
theorem Concatenation.check_of_ofRequest {r : ConcatRequest} {folder : String} {h : Host}
    {c : Concatenation} (hc : ofRequest r folder h = .ok c) : (Operation.concat c).check h = .ok () := by
  obtain ⟨_, strategy, -, hcheck, -, rfl⟩ := ofRequest_eq_ok.mp hc
  exact hcheck

/-! ## Questions without an answer -/

namespace Host

/-- The first of several paths are there, and of the next the machine does not tell. -/
def Stalls (h : Host) (paths : List String) (fault : FileFault) : Prop :=
  ∃ before path behind, paths = before ++ path :: behind ∧
    (∀ p ∈ before, h.pathExists p = .ok true) ∧ h.pathExists path = .error fault

variable {h : Host} {path details : String} {fault : FileFault}

theorem requireFile_eq_ok : h.requireFile path details = .ok () ↔ h.pathExists path = .ok true := by
  unfold requireFile
  rcases h.pathExists path with fault | _ | _ <;> simp

theorem requireFile_machine_iff :
    h.requireFile path details = .error (.machine fault) ↔ h.pathExists path = .error fault := by
  unfold requireFile
  rcases h.pathExists path with fault | _ | _ <;> simp

end Host

theorem mapError_reported_ne_machine {α : Type} (x : Except Error α) (fault : FileFault) :
    x.mapError Failure.reported ≠ .error (.machine fault) := by
  cases x <;> rintro ⟨⟩

namespace Concatenation

variable {h : Host} {fault : FileFault}

theorem checkInputs_machine_iff {inputs : List String} :
    checkInputs inputs h = .error (.machine fault) ↔ h.Stalls inputs fault := by
  have hfiles : (inputs.forM fun path => h.requireFile path s!"File does not exist: {path}") =
      .error (.machine fault) ↔ h.Stalls inputs fault := by
    refine forM_eq_error.trans ?_
    simp only [Host.requireFile_eq_ok, Host.requireFile_machine_iff]
    rfl
  unfold checkInputs
  cases inputs with
  | nil =>
    refine iff_of_false (by rintro ⟨⟩) ?_
    rintro ⟨before, path, behind, hpaths, -⟩
    simp at hpaths
  | cons path rest => exact hfiles

/-- A request without a folder asks for that of the settings, and thus for the working directory. -/
theorem folderOf_machine_iff {folder : String} :
    folderOf folder h = .error (.machine fault) ↔ folder = "" ∧ h.currentPath = .error fault := by
  unfold folderOf
  by_cases hempty : folder.isEmpty = true
  · have hfolder : folder = "" := by simpa using hempty
    rw [if_pos hempty, and_iff_right hfolder, Settings.tempFolder]
    cases h.currentPath <;> simp [Except.map, Except.mapError]
  · have hfolder : folder ≠ "" := by simpa using hempty
    rw [if_neg hempty]
    exact iff_of_false (by rintro ⟨⟩) fun hgone => hfolder hgone.1

theorem folderOf_ok_iff {folder : String} : (∃ found, folderOf folder h = .ok found) ↔
    (folder = "" → ∃ directory, h.currentPath = .ok directory) := by
  unfold folderOf
  by_cases hempty : folder.isEmpty = true
  · have hfolder : folder = "" := by simpa using hempty
    rw [if_pos hempty, Settings.tempFolder]
    cases h.currentPath <;> simp [hfolder, Except.map, Except.mapError]
  · have hfolder : folder ≠ "" := by simpa using hempty
    rw [if_neg hempty]
    exact iff_of_true ⟨folder, rfl⟩ fun hgone => absurd hgone hfolder

/-- A request asks for the folder first, and then for the files. -/
theorem ofRequest_machine_iff {r : ConcatRequest} {folder : String} :
    ofRequest r folder h = .error (.machine fault) ↔
      (folder = "" ∧ h.currentPath = .error fault) ∨
        (folder = "" → ∃ directory, h.currentPath = .ok directory) ∧ h.Stalls r.inputs fault := by
  have hstrategy : strategyOf r.strategy ≠ .error (.machine fault) := by
    cases r.strategy with
    | none => rintro ⟨⟩
    | some name => exact mapError_reported_ne_machine (ConcatStrategy.ofName name) fault
  unfold ofRequest
  rw [bind_eq_error, folderOf_machine_iff, ← folderOf_ok_iff]
  refine or_congr_right ?_
  constructor
  · rintro ⟨found, hfound, hrest⟩
    refine ⟨⟨found, hfound⟩, checkInputs_machine_iff.mp ?_⟩
    rcases bind_eq_error.mp hrest with hcheck | ⟨_, -, hrest⟩
    · exact hcheck
    · rcases bind_eq_error.mp hrest with hfails | ⟨_, -, ⟨⟩⟩
      exact absurd hfails hstrategy
  · rintro ⟨⟨found, hfound⟩, hstalls⟩
    exact ⟨found, hfound, bind_eq_error.mpr (.inl (checkInputs_machine_iff.mpr hstalls))⟩

end Concatenation

namespace Operation

variable {h : Host} {fault : FileFault}

/-- The check of an operation asks whether a file is there, and the machine does not answer. -/
def Stalls (h : Host) (fault : FileFault) : Operation → Prop
  | overlay o => o.source ≠ "" ∧ h.pathExists o.source = .error fault
  | concat c => h.Stalls c.inputs fault
  | _ => False

theorem check_machine_iff {op : Operation} :
    op.check h = .error (.machine fault) ↔ op.Stalls h fault := by
  cases op with
  | overlay o =>
    have hfile : h.requireFile o.source "File does not exist" = .error (.machine fault) ↔
        h.pathExists o.source = .error fault := Host.requireFile_machine_iff
    rw [Stalls, ← hfile]
    change o.check h = _ ↔ _
    unfold Overlay.check
    by_cases hsource : o.source.isEmpty = true
    · have hempty : o.source = "" := by simpa using hsource
      rw [if_pos hsource]
      exact iff_of_false (by rintro ⟨⟩) fun hstalls => hstalls.1 hempty
    · have hne : o.source ≠ "" := by simpa using hsource
      rw [if_neg hsource, and_iff_right hne]
      refine bind_eq_error.trans (or_iff_left ?_)
      rintro ⟨_, -, hvalues⟩
      exact mapError_reported_ne_machine _ fault hvalues
  | concat c => exact Concatenation.checkInputs_machine_iff
  | _ => exact iff_of_false (mapError_reported_ne_machine _ fault) id

end Operation

namespace Session

/-- Whether a call passes the checks that come before its message. -/
def Call.passes (s : Session) : Call → Bool
  | input _ => s.input.isNone
  | concat r => (Concatenation.ofRequest r s.options.tempFolder s.host).isOk
  | add op => s.input.isSome && (skipWarning op).isNone && (op.check s.host).isOk
  | output .. => true

variable {s : Session} {fault : Integer.Fault} {wanted : Bool}

/-! ## Messages -/

theorem debug_of_unreadable (hd : Settings.debugging s.host = .error fault) (message : String) :
    (onHost (Log.debug message)).perform s = (.error (.setting fault), s) := by
  rw [onHost, Action.perform_within, Log.perform_debug, hd]

theorem debug_of_readable (hd : Settings.debugging s.host = .ok wanted) (message : String) :
    ∃ host, s.host.Continues True host ∧
      (onHost (Log.debug message)).perform s = (.ok (), { s with host }) := by
  have hcontinues : s.host.Continues True _ := (Log.at_debug message).leads
  refine ⟨_, hcontinues, ?_⟩
  rw [onHost, Action.perform_within, Log.perform_debug, hd]

/-! ## Calls that do not pass -/

/-- The check of a call asks the machine, and gets no answer. -/
def Call.Stalls (s : Session) (fault : FileFault) : Call → Prop
  | concat r =>
    (s.options.tempFolder = "" ∧ s.host.currentPath = .error fault) ∨
      (s.options.tempFolder = "" → ∃ directory, s.host.currentPath = .ok directory) ∧
        s.host.Stalls r.inputs fault
  | add op => s.input.isSome = true ∧ op.Stalls s.host fault
  | _ => False

theorem Call.not_stalls_of_passes {c : Call} {fault : FileFault} (h : c.passes s = true) :
    ¬ c.Stalls s fault := by
  intro hstalls
  cases c with
  | concat r =>
    rw [passes, Concatenation.ofRequest_machine_iff.mpr hstalls] at h
    cases h
  | add op =>
    rw [passes, Operation.check_machine_iff.mpr hstalls.2, Bool.and_eq_true] at h
    cases h.2
  | _ => exact hstalls

/-- What a call that does not pass leaves: the session as it was, but for the log. It fails with an
    error, or because its check gets no answer. -/
structure Rejects (s : Session) (c : Call) (outcome : Except Failure Unit) (s' : Session) : Prop where
  keeps : ∃ host, s.host.Continues True host ∧ s' = { s with host }
  escapes : ∀ f, f.Escapes →
    (outcome = .error f ↔ ∃ fault, f = .machine fault ∧ c.Stalls s fault)

/-- A call with a check that fails is rejected. -/
theorem rejects_of_check {α : Type} {c : Call} {x : Except Failure α} {f : Failure} (hchecks : Checks x)
    (hmachine : ∀ fault, x = .error (.machine fault) ↔ c.Stalls s fault) (hx : x = .error f) :
    s.Rejects c (.error f) s := by
  refine ⟨⟨s.host, .refl _ _, rfl⟩, fun f' hf' => ?_⟩
  simp only [← hmachine, hx, Except.error.injEq]
  constructor
  · rintro rfl
    cases f with
    | reported error => exact hf'.elim
    | setting fault => exact (hchecks _ hx).elim
    | machine fault => exact ⟨fault, rfl, rfl⟩
  · rintro ⟨fault, rfl, rfl⟩
    rfl

/-- A call that asks nothing is rejected with an error. -/
theorem rejects_of_error {c : Call} (error : Error) (hasks : ∀ fault, ¬ c.Stalls s fault) :
    s.Rejects c (.error (.reported error)) s := by
  refine ⟨⟨s.host, .refl _ _, rfl⟩, fun f hf => ?_⟩
  refine iff_of_false ?_ fun ⟨fault, _, hstalls⟩ => hasks fault hstalls
  rintro ⟨⟩
  exact hf

theorem Call.perform_of_not_passes {c : Call} (h : c.passes s = false) :
    s.Rejects c (c.action.perform s).1 (c.action.perform s).2 := by
  cases c with
  | input path =>
    have hsome : s.input.isSome = true := by simpa [passes] using h
    unfold Call.action setInput
    rw [Action.perform_bind, Action.perform_get]
    simp only [hsome, if_true, Action.perform_bind, Action.perform_fail]
    exact rejects_of_error _ fun fault => id
  | concat r =>
    rw [passes] at h
    unfold Call.action Session.concat
    rw [Action.perform_bind, Action.perform_get]
    rcases hr : Concatenation.ofRequest r s.options.tempFolder s.host with f | c
    · simp only [hr, Action.perform_bind, Action.perform_expect]
      exact rejects_of_check (Concatenation.checks_ofRequest _ _ _)
        (fun fault => Concatenation.ofRequest_machine_iff) hr
    · rw [hr] at h; cases h
  | add op =>
    unfold Call.action Session.add
    rcases hi : s.input with _ | path
    · rw [Action.perform_bind, requireInput_of_none hi]
      exact rejects_of_error _ fun fault hstalls => by rw [Stalls, hi] at hstalls; cases hstalls.1
    have hsome : s.input.isSome = true := by rw [hi]; rfl
    rw [Action.perform_bind_of_ok (requireInput_of_isSome hsome)]
    rcases hw : skipWarning op with _ | warning
    · rcases hc : op.check s.host with f | _
      · simp only [Operation.checked, Action.perform_bind, Action.perform_get,
          Action.perform_expect, hc, error_bind]
        refine rejects_of_check (op.checks_check s.host) (fun fault => ?_) hc
        rw [Operation.check_machine_iff, Stalls, and_iff_right hsome]
      · simp [passes, hsome, hw, hc, Except.isOk, Except.toBool] at h
    · refine ⟨⟨_, Host.continues_log True s.host _, rfl⟩, fun f hf => ?_⟩
      -- Only operations without files are skipped.
      refine iff_of_false (by rintro ⟨⟩) ?_
      rintro ⟨fault, -, -, hstalls⟩
      cases op with
      | overlay o => cases hw
      | concat c => cases hw
      | _ => exact hstalls
  | output path options => cases h

/-! ## Calls that pass -/

/-- An operation that passes is one that its check accepts. -/
theorem Call.add_passes_iff {op : Operation} : (add op).passes s = true ↔
    s.input.isSome = true ∧ skipWarning op = none ∧ op.check s.host = .ok () := by
  simp only [passes, Bool.and_eq_true, Option.isNone_iff_eq_none, and_assoc]
  refine and_congr_right fun _ => and_congr_right fun _ => ?_
  rcases op.check s.host with error | _
  · exact ⟨by rintro ⟨⟩, by rintro ⟨⟩⟩
  · exact ⟨fun _ => rfl, fun _ => rfl⟩

/-- An operation that passes is kept. -/
theorem add_of_passes {op : Operation} (h : (Call.add op).passes s = true) :
    (Session.add op).perform s = (keep op).perform s := by
  obtain ⟨hi, hw, hcheck⟩ := Call.add_passes_iff.mp h
  unfold Session.add
  rw [Action.perform_bind_of_ok (requireInput_of_isSome hi), hw]
  simp only [Operation.checked, Action.perform_bind, Action.perform_get, Action.perform_expect,
    hcheck, ok_bind]
  rfl

/-- A concatenation that passes is kept, and its first file may become the input. -/
theorem concat_of_passes {r : ConcatRequest} (h : (Call.concat r).passes s = true) :
    ∃ c, Concatenation.ofRequest r s.options.tempFolder s.host = .ok c ∧
      (Session.concat r).perform s =
        (keep (.concat c) >>= fun _ =>
          modify fun t => { t with input := t.input <|> r.inputs.head? }).perform s := by
  rw [Call.passes] at h
  rcases hr : Concatenation.ofRequest r s.options.tempFolder s.host with error | c
  · rw [hr] at h; cases h
  refine ⟨c, rfl, ?_⟩
  unfold Session.concat
  rw [Action.perform_bind, Action.perform_get]
  simp only [hr]
  rw [Action.perform_bind_of_ok (Action.perform_expect (.ok c) s)]

theorem keep_of_unreadable (hd : Settings.debugging s.host = .error fault) (op : Operation) :
    (keep op).perform s = (.error (.setting fault), s) := by
  unfold keep
  rw [Action.perform_bind, debug_of_unreadable hd]

/-- A call that passes stops at the setting for messages if that cannot be read. -/
theorem Call.perform_of_unreadable {c : Call} (h : c.passes s = true)
    (hd : Settings.debugging s.host = .error fault) :
    c.action.perform s = (.error (.setting fault), s) := by
  cases c with
  | input path =>
    have hnone : s.input = none := by simpa [passes] using h
    unfold Call.action setInput
    rw [Action.perform_bind, Action.perform_get]
    simp only [hnone, Option.isSome_none, Bool.false_eq_true, if_false]
    rw [Action.perform_bind, debug_of_unreadable hd]
  | concat r =>
    obtain ⟨c, -, hc⟩ := concat_of_passes h
    exact hc.trans (by rw [Action.perform_bind, keep_of_unreadable hd])
  | add op => exact (add_of_passes h).trans (keep_of_unreadable hd op)
  | output path options =>
    unfold Call.action setOutput
    rw [Action.perform_bind, debug_of_unreadable hd]

theorem setInput_of_readable {path : String} (h : (Call.input path).passes s = true)
    (hd : Settings.debugging s.host = .ok wanted) :
    ∃ host, s.host.Continues True host ∧ (setInput path).perform s =
      (.ok (), { s with host, draft := s.draft.withInput path, input := some path }) := by
  have hnone : s.input = none := by simpa [Call.passes] using h
  obtain ⟨host, hhost, hlog⟩ := debug_of_readable hd s!"Setting input: {path}"
  refine ⟨host, hhost, ?_⟩
  unfold setInput
  rw [Action.perform_bind, Action.perform_get]
  simp only [hnone, Option.isSome_none, Bool.false_eq_true, if_false]
  rw [Action.perform_bind_of_ok hlog]
  rfl

theorem setOutput_of_readable (path : String) (options : OutputOptions)
    (hd : Settings.debugging s.host = .ok wanted) :
    ∃ host, s.host.Continues True host ∧ (setOutput path options).perform s =
      (.ok (), { s with host, draft := s.draft.withOutput path options, output := some path }) := by
  rcases setOutput_cases path options s with ⟨fault, hfault, -⟩ | hset
  · rw [hd] at hfault; cases hfault
  · exact hset

/-- An operation is kept if it can be applied on the bench, after the message. -/
theorem keep_of_readable (op : Operation) (hd : Settings.debugging s.host = .ok wanted) :
    ∃ host, s.host.Continues True host ∧ (keep op).perform s =
      match (Bench.add op).perform ⟨host, s.draft, none⟩ with
      | (.ok _, b) => (.ok (), { s with
          host := b.host, draft := b.draft, kept := s.kept ++ [⟨op, b.listFile⟩] })
      | (.error f, b) => (.error f, { s with host := b.host, draft := b.draft }) := by
  obtain ⟨host, hhost, hlog⟩ := debug_of_readable hd op.describe
  refine ⟨host, hhost, ?_⟩
  unfold keep
  rw [Action.perform_bind_of_ok hlog, Action.perform_bind, onBench, Action.perform_within,
    Action.perform_bind]
  rcases (Bench.add op).perform ⟨host, s.draft, none⟩ with ⟨f | _, b⟩
  · rfl
  · rfl

end Session

end Montage

import Montage.Proofs.Executor
import Montage.Proofs.ListFile

/-!
# How an execution ends

An execution has several ways out: the machine does not tell whether the input is there, something is
refused before the command is handed over, the executor returns or fails, or a setting cannot be read.
Each of them is a case here, with the session that it leaves, so that later proofs look into no
execution.

* `Session.Readies`: the session that is ready to hand over its command.
* `Session.CleansTo`: the list files are removed, and something may be logged before and after.
* `Session.Execution`: the ways an execution ends.

Results:
* `Session.ensureOutput_cases`: an output is there, or the execution ends before it begins.
* `Session.execution_execute`: every execution of a session with an input ends in one of these ways.
* `Session.Execution.cleans`: if it ends with a result or an error, the list files are removed.
-/

namespace Montage

/-- Making folders changes no tree in which the last of them stands. -/
theorem Host.continues_makeFolders (h : Host) (path : String) :
    h.Continues (h.isFolder path = true ∨ path = "") (h.makeFolders path).1 := by
  obtain ⟨tree, htree⟩ := h.tree_of_makeFolders path
  refine ⟨?_, ?_, ?_, ⟨"", ?_⟩, ?_⟩
  · rw [htree]
  · rw [htree]
  · rw [htree]
  · rw [htree, String.append_empty]
  · rintro (hf | rfl)
    · rw [makeFolders_of_isFolder hf]
    · rfl

/-- A random name changes the state of the generator and nothing else. -/
theorem Host.randomName_eq (h : Host) : ∃ name seed, h.randomName = (name, { h with seed }) := by
  unfold randomName
  exact ⟨_, _, rfl⟩

namespace Session

variable {s s' t m : Session}

/-! ## Sessions on the way -/

/-- The session `s'` is the session `s` after something was logged. -/
def Notes (s s' : Session) : Prop := ∃ host, s.host.Continues True host ∧ s' = { s with host }

/-- The session `s'` is the session `s` after its list files were removed. -/
def CleansTo (s s' : Session) : Prop := ∃ t, s.Notes t ∧ t.cleaned.Notes s'

/-- The session `m` is the session `s` on the way to a run. The file tree can change only by folders
    that are missing. -/
structure Readies (s m : Session) : Prop where
  options : m.options = s.options
  kept : m.kept = s.kept
  input : m.input = s.input
  runs : m.runs = s.runs
  hasInput : s.draft.hasInput = true → m.draft.hasInput = true
  host : s.host.Continues (s.draft.hasInput = true ∧
    (s.host.isFolder s.options.tempFolder = true ∨ s.options.tempFolder = "")) m.host

/-- The session after its command was handed over, with the host that the executor left. -/
def handed (m : Session) (c : Command) (host : Host) : Session :=
  { m with host, runs := m.runs ++ [⟨c, m.host⟩] }

theorem Notes.refl (s : Session) : s.Notes s := ⟨s.host, .refl _ _, rfl⟩

theorem notes_onHost {α : Type} {a : Action Host α} (h : (Host.continuing True).At s.host a) :
    s.Notes ((onHost a).perform s).2 := ⟨_, h.leads, rfl⟩

theorem CleansTo.of_cleaned (s : Session) : s.CleansTo s.cleaned := ⟨s, .refl s, .refl _⟩

/-! ## Sessions that were cleaned up -/

/-- Cleaning up takes the list files from the operations that are kept. -/
theorem CleansTo.kept (h : s.CleansTo s') : s'.kept = s.kept.map KeptOperation.released := by
  obtain ⟨t, ⟨host, -, rfl⟩, ⟨host', -, rfl⟩⟩ := h
  rfl

theorem CleansTo.runs (h : s.CleansTo s') : s'.runs = s.runs := by
  obtain ⟨t, ⟨host, -, rfl⟩, ⟨host', -, rfl⟩⟩ := h
  rfl

theorem CleansTo.lists (h : s.CleansTo s') : s'.lists = [] := by
  obtain ⟨t, ⟨host, -, rfl⟩, ⟨host', -, rfl⟩⟩ := h
  exact lists_cleaned { s with host }

theorem CleansTo.host (h : s.CleansTo s') : s.host.Continues False s'.host := by
  obtain ⟨t, ⟨host, hh, rfl⟩, ⟨host', hh', rfl⟩⟩ := h
  have hclean := Host.continues_foldl host s.lists
  exact ((hh.mono False.elim).trans hclean).trans (hh'.mono False.elim)

theorem CleansTo.settled {folder path : String} (h : s.CleansTo s') (hfolder : folder ≠ "")
    (hlists : ∀ p ∈ s.lists, IsListPath folder p) (hp : path ∈ s.lists) :
    s'.host.Settled path := by
  obtain ⟨t, ⟨host, -, rfl⟩, ⟨host', hh', rfl⟩⟩ := h
  exact (Host.settled_foldl hfolder hlists (.inl hp)).continues hh'

/-! ## Sessions that are ready -/

/-- A session is on the way if only its host, its draft and its output went on. -/
theorem Readies.of_parts {host : Host} {draft : Draft} {output : Option String}
    (hin : s.draft.hasInput = true → draft.hasInput = true)
    (hhost : s.host.Continues (s.draft.hasInput = true) host) :
    s.Readies { s with host, draft, output } :=
  ⟨rfl, rfl, rfl, rfl, hin, hhost.mono And.left⟩

theorem Notes.readies (h : s.Notes m) : s.Readies m := by
  obtain ⟨host, hh, rfl⟩ := h
  exact .of_parts id (hh.mono fun _ => trivial)

theorem Readies.refl (s : Session) : s.Readies s := (Notes.refl s).readies

theorem Readies.trans (h : s.Readies t) (h' : t.Readies m) : s.Readies m := by
  refine ⟨h'.options.trans h.options, h'.kept.trans h.kept, h'.input.trans h.input,
    h'.runs.trans h.runs, fun hin => h'.hasInput (h.hasInput hin), h.host.trans (h'.host.mono ?_)⟩
  rintro ⟨hin, hfolder⟩
  -- The folder is where it was, since the tree has not changed so far.
  have hfind := h.host.find ⟨hin, hfolder⟩ s.options.tempFolder
  refine ⟨h.hasInput hin, ?_⟩
  rw [h.options, Host.isFolder, hfind]
  exact hfolder

/-! ## The ways out -/

/-- The outcome of an execution and the session that it leaves. -/
inductive Execution (e : Executor) (s : Session) : Except Failure ExecutionResult → Session → Prop
  /-- The machine does not tell whether the input is there. Nothing is done. -/
  | unanswered {fault : FileFault}
      (asks : s.host.pathExists (s.input.getD "") = .error fault) :
      Execution e s (.error (.machine fault)) s
  /-- The setting for debugging messages cannot be read. -/
  | unreadable {m : Session} {fault : Integer.Fault} (readies : s.Readies m)
      (debugging : Settings.debugging s.host = .error fault) :
      Execution e s (.error (.setting fault)) m
  /-- Something is refused before the command is handed over. -/
  | refused {m s' : Session} (error : Error) (readies : s.Readies m)
      (refusal : error.isRefusal = true) (cleans : m.CleansTo s') :
      Execution e s (.error (.reported error)) s'
  /-- The executor returns or fails with an error. -/
  | ended {m s' : Session} {c : Command} {host : Host} (outcome : Except Error ExecutionResult)
      (readies : s.Readies m)
      (built : s.output.isSome = true → ∃ t, build.perform s = (.ok c, t))
      (execute : (e.execute c).perform m.host = (outcome.mapError .reported, host))
      (cleans : (m.handed c host).CleansTo s') :
      Execution e s (outcome.mapError .reported) s'
  /-- The executor fails in a way that nothing catches. -/
  | broken {m : Session} {c : Command} {host : Host} {f : Failure} (readies : s.Readies m)
      (escapes : f.Escapes)
      (execute : (e.execute c).perform m.host = (.error f, host)) :
      Execution e s (.error f) (m.handed c host)

/-! ## Steps of an execution -/

theorem requireInput_of_none (h : s.input = none) :
    requireInput.perform s = (.error (.reported (.missingParameter "input")), s) := by
  unfold requireInput
  rw [Action.perform_bind, Action.perform_get]
  simp [h]

theorem requireInput_of_isSome (h : s.input.isSome = true) :
    requireInput.perform s = (.ok (), s) := by
  unfold requireInput
  rw [Action.perform_bind, Action.perform_get]
  simp [Option.isNone_iff_eq_none, Option.isSome_iff_ne_none.mp h]

theorem setOutput_cases (path : String) (options : OutputOptions) (s : Session) :
    (∃ fault, Settings.debugging s.host = .error fault ∧
      (setOutput path options).perform s = (.error (.setting fault), s)) ∨
    ∃ host, s.host.Continues True host ∧ (setOutput path options).perform s =
      (.ok (), { s with host, draft := s.draft.withOutput path options, output := some path }) := by
  have hlog := Log.perform_debug s!"Setting output: {path}" s.host
  have hnotes : s.host.Continues True _ := (Log.at_debug s!"Setting output: {path}").leads
  unfold setOutput
  rcases hd : Settings.debugging s.host with fault | wanted
  · left
    rw [hd] at hlog
    refine ⟨fault, rfl, ?_⟩
    rw [Action.perform_bind, onHost, Action.perform_within, hlog]
  · right
    rw [hd] at hlog
    refine ⟨_, hnotes, ?_⟩
    rw [Action.perform_bind, onHost, Action.perform_within, hlog]
    rfl

theorem freshOutput_ok (s : Session) : ∃ path host,
    freshOutput.perform s = (.ok path, { s with host }) ∧ s.host.Continues True host := by
  obtain ⟨name, seed, hname⟩ := s.host.randomName_eq
  have hseed : s.host.Continues True { s.host with seed } :=
    ⟨rfl, rfl, rfl, ⟨"", (String.append_empty).symm⟩, fun _ => rfl⟩
  unfold freshOutput
  rw [Action.perform_bind, Action.perform_get]
  simp only [hname, Action.perform_bind, Action.perform_set, Action.perform_pure]
  exact ⟨_, _, rfl, hseed⟩

/-- An output is there, or the execution ends: a setting cannot be read, or a folder cannot be made
    and the list files are removed. -/
theorem ensureOutput_cases (s : Session) :
    (∃ m, (ensureOutput cleanUp).perform s = (.ok (), m) ∧ s.Readies m ∧
      (s.output.isSome = true → m = s)) ∨
    (∃ fault m, (ensureOutput cleanUp).perform s = (.error (.setting fault), m) ∧ s.Readies m ∧
      Settings.debugging s.host = .error fault) ∨
    ∃ error m, (ensureOutput cleanUp).perform s = (.error (.reported error), m.cleaned) ∧
      s.Readies m ∧ error.isRefusal = true := by
  unfold ensureOutput
  rw [Action.perform_bind, Action.perform_get]
  by_cases hout : s.output.isNone = true
  · simp only [hout, if_true]
    have hnone : ¬ s.output.isSome = true := by simpa using hout
    have hmade := s.host.continues_makeFolders s.options.tempFolder
    rcases hm : s.host.makeFolders s.options.tempFolder with ⟨h, fault⟩
    rw [hm] at hmade
    have hready : s.Readies { s with host := h } :=
      ⟨rfl, rfl, rfl, rfl, id, hmade.mono And.right⟩
    cases fault with
    | some fault =>
      right; right
      simp only [Action.perform_bind, Action.perform_set, perform_cleanUp, Action.perform_fail]
      exact ⟨_, _, rfl, hready, rfl⟩
    | none =>
      obtain ⟨path, host, hpath, hhost⟩ := freshOutput_ok { s with host := h }
      have hfresh : s.Readies { s with host } :=
        hready.trans (Notes.readies ⟨host, hhost, rfl⟩)
      simp only [Action.perform_bind, Action.perform_set, hpath]
      rcases setOutput_cases path {} { s with host } with ⟨fault, hd, hset⟩ | ⟨host', hh, hset⟩
      · right; left
        rw [hfresh.host.debugging] at hd
        exact ⟨fault, _, hset, hfresh, hd⟩
      · left
        refine ⟨_, hset, hfresh.trans (.of_parts id (hh.mono fun _ => trivial)), ?_⟩
        intro hsome
        exact absurd hsome hnone
  · simp only [hout]
    left
    exact ⟨s, rfl, .refl s, fun _ => rfl⟩

/-- A build changes the host and the draft alone. -/
theorem build_parts (s : Session) : ∃ host draft, (build.perform s).2 = { s with host, draft } := by
  unfold build
  rcases hi : requireInput.perform s with ⟨f | _, t⟩
  · obtain ⟨-, rfl, -⟩ := requireInput_error hi
    exact ⟨t.host, t.draft, by rw [Action.perform_bind, hi]⟩
  · obtain ⟨-, rfl⟩ := requireInput_ok hi
    rw [Action.perform_bind_of_ok hi, Action.perform_bind, Action.perform_get]
    simp only
    rw [Action.perform_bind, onBench, Action.perform_within]
    rcases Bench.build.perform ⟨t.host, t.draft, none⟩ with ⟨_ | _, b⟩
    · exact ⟨_, _, rfl⟩
    · exact ⟨_, _, rfl⟩

theorem readies_build (s : Session) : s.Readies (build.perform s).2 := by
  have hleads := (at_build s).leads
  obtain ⟨host, draft, hparts⟩ := build_parts s
  rw [hparts] at hleads ⊢
  exact .of_parts hleads.hasInput hleads.host

/-- The build is refused, or the command that it gives is handed over. -/
theorem buildAndHand_cases (e : Executor) (s : Session) :
    (∃ error t, (buildAndHand e).perform s = (.error (.reported error), t) ∧ s.Readies t ∧
      error.isRefusal = true) ∨
    ∃ c t m, build.perform s = (.ok c, t) ∧ s.Readies m ∧
      (buildAndHand e).perform s =
        (((e.execute c).perform m.host).1, m.handed c ((e.execute c).perform m.host).2) := by
  have hready := readies_build s
  unfold buildAndHand
  rcases hb : build.perform s with ⟨f | c, t⟩
  · left
    rw [hb] at hready
    obtain ⟨error, rfl, hrefusal⟩ := build_error hb
    exact ⟨error, t, by rw [Action.perform_bind, hb], hready, hrefusal⟩
  · right
    rw [hb] at hready
    rw [Action.perform_bind_of_ok hb]
    simp only
    rw [Action.perform_bind, Action.perform_get]
    simp only
    rw [Action.perform_bind]
    generalize hinfo : Log.info _ = info
    have hnotes : t.Notes ((onHost info).perform t).2 := by
      rw [← hinfo]; exact notes_onHost (Host.at_logText _)
    have hok : (onHost info).perform t = (.ok (), ((onHost info).perform t).2) := by
      rw [← hinfo]; rfl
    rw [hok]
    generalize ((onHost info).perform t).2 = m at hnotes
    refine ⟨c, t, m, rfl, ?_, rfl⟩
    exact hready.trans hnotes.readies

theorem execute_of_no_input (e : Executor) (h : s.input = none) :
    (execute e).perform s = (.error (.reported (.missingParameter "input")), s) := by
  unfold execute
  rw [Action.perform_bind, requireInput_of_none h]

/-- An execution that is not told whether its input is there does nothing. -/
theorem execute_of_unanswered {fault : FileFault} (e : Executor) (hin : s.input.isSome = true)
    (hasks : s.host.pathExists (s.input.getD "") = .error fault) :
    (execute e).perform s = (.error (.machine fault), s) := by
  unfold execute
  rw [Action.perform_bind_of_ok (requireInput_of_isSome hin), Action.perform_bind,
    Action.perform_get]
  simp only [hasks, Except.mapError, Action.perform_bind, Action.perform_expect]

/-- Every execution of a session with an input ends in one of the ways out. -/
theorem execution_execute (e : Executor) (hin : s.input.isSome = true) :
    Execution e s ((execute e).perform s).1 ((execute e).perform s).2 := by
  unfold execute
  rw [Action.perform_bind_of_ok (requireInput_of_isSome hin), Action.perform_bind,
    Action.perform_get]
  rcases hthere : s.host.pathExists (s.input.getD "") with fault | _ | _
  · simp only [hthere, Except.mapError, Action.perform_bind, Action.perform_expect]
    exact .unanswered hthere
  · simp only [hthere, Except.mapError, Action.perform_bind, Action.perform_expect,
      perform_cleanUp, Bool.false_eq_true, if_false, Action.perform_fail]
    exact .refused (.unusableInput _ _) (.refl s) rfl (.of_cleaned s)
  · simp only [hthere, Except.mapError]
    rw [Action.perform_bind, Action.perform_expect]
    simp only [if_true]
    rw [Action.perform_bind]
    rcases ensureOutput_cases s with ⟨m, ho, hready, hsame⟩ | ⟨fault, m, ho, hready, hd⟩ |
      ⟨error, m, ho, hready, hrefusal⟩
    · have hattempt := Action.perform_attempt (buildAndHand e) m
      rw [ho]
      simp only
      rw [Action.perform_bind, hattempt]
      rcases buildAndHand_cases e m with ⟨error, t, hb, ht, hrefusal⟩ | ⟨c, t, u, hb, hu, hx⟩
      · rw [hb]
        simp only [Action.perform_bind, perform_cleanUp, Action.perform_fail]
        exact .refused error (hready.trans ht) hrefusal ⟨_, notes_onHost (Host.at_logText _), .refl _⟩
      · rw [hx]
        have hready := hready.trans hu
        have hbuilt : s.output.isSome = true → ∃ t, build.perform s = (.ok c, t) := by
          intro hsome
          rw [← hsame hsome]
          exact ⟨t, hb⟩
        rcases hr : (e.execute c).perform u.host with ⟨(error | fault | fault) | result, host⟩
        · simp only [Action.perform_bind, perform_cleanUp, Action.perform_fail]
          exact .ended (.error error) hready hbuilt hr
            ⟨_, notes_onHost (Host.at_logText _), .refl _⟩
        · exact .broken hready trivial hr
        · exact .broken hready trivial hr
        · simp only [Action.perform_bind, perform_cleanUp]
          exact .ended (.ok result) hready hbuilt hr
            ⟨_, .refl _, notes_onHost (Host.at_logText _)⟩
    · rw [ho]
      exact .unreadable hready hd
    · rw [ho]
      exact .refused error hready hrefusal (.of_cleaned m)

/-! ## What all ways out have in common -/

variable {e : Executor} {outcome : Except Failure ExecutionResult}

/-- Where all questions are answered and the setting for debugging messages can be read, an execution
    ends with a result or with an error. -/
theorem Execution.outcome_eq (h : Execution e s outcome s') (hreports : e.Reports) {wanted : Bool}
    (hwanted : Settings.debugging s.host = .ok wanted)
    (hthere : ∀ fault, s.host.pathExists (s.input.getD "") ≠ .error fault) :
    ∃ x : Except Error ExecutionResult, outcome = x.mapError .reported := by
  cases h with
  | unanswered hasks => exact absurd hasks (hthere _)
  | unreadable hm hd => rw [hwanted] at hd; cases hd
  | refused error hm hrefusal hclean => exact ⟨.error error, rfl⟩
  | ended outcome hm hbuilt hexecute hclean => exact ⟨outcome, rfl⟩
  | @broken m c host f hm hescapes hexecute =>
    have hfails := congrArg Prod.fst hexecute
    cases f with
    | reported error => exact hescapes.elim
    | setting fault =>
      have hd := hreports.setting _ _ _ hfails
      rw [hm.host.debugging, hwanted] at hd
      cases hd
    | machine fault => exact absurd hfails (hreports.machine _ _ _)

/-- An execution that ends with a result or with an error cleans up. -/
theorem Execution.cleans (h : Execution e s outcome s') {x : Except Error ExecutionResult}
    (hx : outcome = x.mapError .reported) : ∃ m : Session, m.kept = s.kept ∧ m.CleansTo s' := by
  have hcaught {f : Failure} (hf : .error f = x.mapError .reported) : ¬ f.Escapes := by
    cases x with
    | ok result => cases hf
    | error error => cases hf; exact id
  cases h with
  | unanswered hasks => exact absurd trivial (hcaught hx)
  | unreadable hm hd => exact absurd trivial (hcaught hx)
  | refused error hm hrefusal hclean => exact ⟨_, hm.kept, hclean⟩
  | ended outcome hm hbuilt hexecute hclean =>
    refine ⟨_, ?_, hclean⟩
    exact hm.kept
  | broken hm hescapes hexecute => exact absurd hescapes (hcaught hx)

end Session

end Montage

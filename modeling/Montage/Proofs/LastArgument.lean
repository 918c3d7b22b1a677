import Mathlib.Logic.Relation
import Montage.Proofs.Passing
import Montage.Proofs.Rollback

/-!
# The last argument

The first build that succeeds puts the output behind the arguments. Nothing moves it from there: a call
that comes later adds its words behind it, and one that names another output changes only what the
command and the session know as the output.

* `Session.Call.words`, `Session.Call.targets`: the words that a call adds to such a command, and
  the output that it names.
* `Session.since`: what was added since the first build, the output that it put there included.
* `Session.InStep`: the last word and the last output since then are the same.
* `Session.Move`: what builds and executions can do to the command of a session.

Results:
* `Session.Call.grows`: calls extend the arguments, whether they fail or not.
* `Session.moving_build`, `Session.moving_execute`: builds and executions only move on.
* `Session.trails_after`: the invariant of the histories of a session.
* `Session.inStep_of_no_build`: without a build the two are in step.
* `Session.last_argument_iff`: a command that is built or run ends with its output just if the two are
  in step.
-/

namespace Montage

open Montage.Action (Contract)

/-- The words that an operation adds to a command with an input. Such a command takes no list file. -/
def Operation.words (op : Operation) : List String :=
  if op.list?.isSome then []
  else op.listing ++ (op.inputs none).flatMap (fun path => ["-i", path]) ++ op.settings

namespace Session

/-- The words that a call adds to a command with an input. -/
def Call.words : Call → List String
  | input path => ["-i", path]
  | concat r =>
    if r.strategy = some "demuxer" then [] else r.inputs.flatMap fun path => ["-i", path]
  | add op => op.words
  | output _ options => options.arguments

/-- The output that a call names. -/
def Call.targets : Call → List String
  | output path _ => [path]
  | _ => []

/-- Whether a call gets beyond its message. -/
def Call.isTaken (s : Session) (c : Call) : Bool := c.passes s && (Settings.debugging s.host).isOk

/-- The call of a step, if it is taken. -/
def Step.taken (s : Session) : Step → List Call
  | call c => if c.isTaken s then [c] else []
  | _ => []

/-- What the calls since the first build come with. The step that builds the command comes with the
    output. -/
def Step.since (own : Call → List String) (s : Session) (step : Step) : List String :=
  if s.draft.isBuilt then (step.taken s).flatMap own
  else if (step.after s).draft.isBuilt then (step.after s).output.toList
  else []

def since (own : Call → List String) (s : Session) : List Step → List String
  | [] => []
  | step :: rest => step.since own s ++ since own (step.after s) rest

/-- Since the first build, the last word and the last output are the same. -/
def InStep (s : Session) (steps : List Step) : Prop :=
  (since Call.words s steps).getLast? = (since Call.targets s steps).getLast?

theorem since_append (own : Call → List String) (s : Session) (steps rest : List Step) :
    since own s (steps ++ rest) = since own s steps ++ since own (after s steps) rest := by
  induction steps generalizing s with
  | nil => rfl
  | cons step steps ih =>
    rw [List.cons_append, since, since, ih, List.append_assoc]
    rfl

theorem since_snoc (own : Call → List String) (s : Session) (steps : List Step) (step : Step) :
    since own s (steps ++ [step]) = since own s steps ++ step.since own (after s steps) := by
  rw [since_append, since, since, List.append_nil]

end Session

/-! ## Calls -/

/-- The draft `d'` comes of `d` by a call with these words and outputs. -/
structure Draft.Grows (d : Draft) (words targets : List String) (d' : Draft) : Prop where
  isBuilt : d'.isBuilt = d.isBuilt
  isClosed : d'.command.isClosed = d.command.isClosed
  output : d'.command.output = targets.getLast?.or d.command.output
  arguments : d.hasInput = true → d'.command.arguments = d.command.arguments ++ words

theorem Draft.Grows.refl (d : Draft) : d.Grows [] [] d :=
  ⟨rfl, rfl, rfl, fun _ => (List.append_nil _).symm⟩

/-- An operation that edits a draft adds its words, if the command had an input. -/
theorem Edit.Makes.grows {op : Operation} {host : Host} {list : Option String} {d d' : Draft}
    (h : (Edit.operation op host list).Makes d d') : d.Grows op.words [] d' := by
  have hcommand := h.command_eq
  refine ⟨h.isBuilt_eq, by rw [hcommand], by rw [hcommand]; rfl, fun hin => ?_⟩
  have hnone : op.list? = none := by
    rcases hl : op.list? with _ | c
    · rfl
    obtain ⟨rfl, hs⟩ := Operation.list?_eq_some hl
    obtain ⟨-, hedits⟩ := h
    simp only [Operation.Edits, hs] at hedits
    rw [Draft.hasInput, hedits.1] at hin
    cases hin
  have hwords : (Edit.operation op host list).arguments = op.words := by
    simp only [Operation.words, hnone, Option.isSome_none, Bool.false_eq_true, if_false,
      ← Operation.inputs_of_list? hnone list]
    rfl
  rw [hcommand, ← hwords]

/-- An operation that passed its check adds its words even if it fails behind that. -/
theorem Bench.grows_add {op : Operation} {b : Bench} (hc : op.check b.host = .ok ()) :
    b.draft.Grows op.words [] ((Bench.add op).perform b).2.draft := by
  rcases hadd : (Bench.add op).perform b with ⟨f | _, b'⟩
  · -- What can fail behind its check adds no words, an overlay apart.
    have hkeeps (hwords : op.words = []) (hkeeps : KeepsDraft (Bench.add op) b) :
        b.draft.Grows op.words [] b'.draft := by
      rw [hwords, hkeeps f b' hadd]
      exact .refl b.draft
    have hrun := hadd
    rw [Bench.perform_add, hc] at hrun
    cases op with
    | overlay o =>
      rw [Operation.apply, Operation.perform_applyOverlay] at hrun
      have hdraft : b'.draft = (o.takeSource b.draft).2 := by
        rcases ho : o.overlayFilter b.host with f' | text
        · rw [ho] at hrun; cases hrun; rfl
        · rw [ho] at hrun; cases hrun
      have hcommand : b'.draft.command = (b.draft.command.addInput o.source).2 := by
        rw [hdraft, o.takeSource_command]
      refine ⟨?_, by rw [hcommand]; rfl, by rw [hcommand]; rfl, fun _ => by rw [hcommand]; rfl⟩
      rw [hdraft, o.takeSource_isBuilt]
    | concat c =>
      cases hs : c.strategy with
      | filter =>
        simp only [Operation.apply, Concatenation.apply, hs, c.perform_applyFilter] at hrun
        cases hrun
      | demuxer =>
        refine hkeeps (by simp [Operation.words, Operation.list?, hs]) ?_
        rw [keepsDraft_add_iff]
        rintro ⟨o, ⟨⟩, -⟩
    | caption c => exact hkeeps rfl ((keepsDraft_add_iff _ b).mpr (by rintro ⟨o, ⟨⟩, -⟩))
    | _ =>
      obtain ⟨draft, hok, -⟩ := Operation.perform_apply_of_isPlain rfl hc
      rw [hok] at hrun
      cases hrun
  · have hmakes : (Edit.operation op b.host b'.listFile).Makes b.draft b'.draft := Bench.add_ok hadd
    exact hmakes.grows

namespace Session

variable {s s' t : Session}

theorem grows_keep {op : Operation} {wanted : Bool} (hc : op.check s.host = .ok ())
    (hd : Settings.debugging s.host = .ok wanted) :
    s.draft.Grows op.words [] ((keep op).perform s).2.draft ∧
      ((keep op).perform s).2.output = s.output := by
  obtain ⟨host, hhost, hkeep⟩ := keep_of_readable op hd
  have hgrows := Bench.grows_add (b := ⟨host, s.draft, none⟩) ((hhost.check trivial op).trans hc)
  rw [hkeep]
  rcases hadd : (Bench.add op).perform ⟨host, s.draft, none⟩ with ⟨f | _, b⟩
  · rw [hadd] at hgrows; exact ⟨hgrows, rfl⟩
  · rw [hadd] at hgrows; exact ⟨hgrows, rfl⟩

/-- A concatenation that was made of a request has the words of the request. -/
theorem words_of_ofRequest {r : ConcatRequest} {folder : String} {h : Host} {c : Concatenation}
    (hc : Concatenation.ofRequest r folder h = .ok c) :
    (Operation.concat c).words = (Call.concat r).words := by
  obtain ⟨hinputs, hstrategy⟩ := Concatenation.ofRequest_ok hc
  cases hs : c.strategy with
  | filter =>
    have hr : r.strategy ≠ some "demuxer" := by rw [Ne, ← hstrategy, hs]; decide
    simp [Operation.words, Operation.list?, Operation.listing, Operation.inputs,
      Operation.settings, Call.words, hs, hr, hinputs]
  | demuxer =>
    have hr : r.strategy = some "demuxer" := hstrategy.mp hs
    simp [Operation.words, Operation.list?, Call.words, hs, hr]

/-- A call that is taken adds its words and names its output, whether it fails or not. Any other call
    does neither. -/
theorem Call.grows (c : Call) (s : Session) :
    s.draft.Grows (((Step.call c).taken s).flatMap words) (((Step.call c).taken s).flatMap targets)
        (c.action.perform s).2.draft ∧
      (c.action.perform s).2.output =
        (((Step.call c).taken s).flatMap targets).getLast?.or s.output := by
  rcases hp : c.passes s with _ | _
  · obtain ⟨host, -, hleft⟩ := (perform_of_not_passes hp).keeps
    simp only [hleft, Step.taken, isTaken, hp, Bool.false_and, Bool.false_eq_true, if_false]
    exact ⟨.refl s.draft, rfl⟩
  rcases hd : Settings.debugging s.host with fault | wanted
  · have htaken : (Step.call c).taken s = [] := by simp [Step.taken, isTaken, hd, Except.isOk,
      Except.toBool]
    rw [perform_of_unreadable hp hd, htaken]
    exact ⟨.refl s.draft, rfl⟩
  have htaken : (Step.call c).taken s = [c] := by simp [Step.taken, isTaken, hp, hd, Except.isOk,
    Except.toBool]
  rw [htaken, List.flatMap_singleton, List.flatMap_singleton]
  cases c with
  | input path =>
    obtain ⟨host, -, hinput⟩ := setInput_of_readable hp hd
    rw [action, hinput]
    exact ⟨⟨rfl, rfl, rfl, fun _ => rfl⟩, rfl⟩
  | output path options =>
    obtain ⟨host, -, houtput⟩ := setOutput_of_readable path options hd
    rw [action, houtput]
    exact ⟨⟨rfl, rfl, rfl, fun _ => rfl⟩, rfl⟩
  | concat r =>
    obtain ⟨c, hc, hconcat⟩ := concat_of_passes hp
    obtain ⟨hgrows, houtput⟩ := grows_keep (Concatenation.check_of_ofRequest hc) hd
    rw [action, hconcat, Action.perform_bind, ← words_of_ofRequest hc]
    rcases hk : (keep (.concat c)).perform s with ⟨f | _, t⟩
    · rw [hk] at hgrows houtput; exact ⟨hgrows, houtput⟩
    · rw [hk] at hgrows houtput; exact ⟨hgrows, houtput⟩
  | add op =>
    obtain ⟨-, -, hcheck⟩ := add_passes_iff.mp hp
    rw [action, add_of_passes hp]
    exact grows_keep hcheck hd

end Session

/-! ## Builds and executions -/

/-- A build is refused and leaves everything, or it gives the command of the draft, which is built
    then. -/
theorem Bench.build_cases (b : Bench) :
    (∃ f, Bench.build.perform b = (.error f, b)) ∨
      ∃ host draft, Bench.build.perform b = (.ok draft.command, { b with host, draft }) ∧
        ((b.draft.isBuilt = true ∧ draft = b.draft) ∨
          (b.draft.isBuilt = false ∧ b.draft.command.checkEnds = .ok () ∧
            draft = b.draft.built)) := by
  unfold Bench.build
  rw [Action.perform_bind, Action.perform_get]
  by_cases hbuilt : b.draft.isBuilt = true
  · right
    simp only [hbuilt, if_true, Action.perform_bind, Action.perform_get, Action.perform_pure]
    exact ⟨b.host, b.draft, rfl, .inl ⟨trivial, rfl⟩⟩
  have hnew : b.draft.isBuilt = false := by simpa using hbuilt
  simp only [hnew, Bool.false_eq_true, if_false]
  rcases hc : b.draft.command.checkEnds with e | _
  · left
    rw [Action.perform_bind]
    exact ⟨_, rfl⟩
  · right
    rw [Action.perform_bind, Action.perform_require_ok]
    obtain ⟨h₁, hw⟩ := perform_warn b.draft.leftOutWarning b
    simp only
    rw [Action.perform_bind_of_ok hw]
    obtain ⟨h₂, hw⟩ := perform_warn b.draft.repeatedFilterWarning { b with host := h₁ }
    rw [Action.perform_bind_of_ok hw]
    exact ⟨h₂, b.draft.built, rfl, .inr ⟨trivial, trivial, rfl⟩⟩

namespace Session

variable {s t u : Session}

theorem build_cases (s : Session) :
    (∃ f host, build.perform s = (.error f, { s with host })) ∨
      ∃ host draft, build.perform s = (.ok draft.command, { s with host, draft }) ∧
        ((s.draft.isBuilt = true ∧ draft = s.draft) ∨
          (s.draft.isBuilt = false ∧ s.draft.command.checkEnds = .ok () ∧
            draft = s.draft.built)) := by
  unfold build
  by_cases hsome : s.input.isSome = true
  swap
  · left
    rw [Action.perform_bind, requireInput_of_none (by simpa using hsome)]
    exact ⟨_, s.host, rfl⟩
  rw [Action.perform_bind_of_ok (requireInput_of_isSome hsome), Action.perform_bind,
    Action.perform_get]
  simp only
  rw [Action.perform_bind, onBench, Action.perform_within]
  rcases Bench.build_cases ⟨s.host, s.draft, none⟩ with ⟨f, hb⟩ | ⟨host, draft, hb, hdraft⟩
  · left
    rw [hb]
    exact ⟨f, s.host, rfl⟩
  · right
    rw [hb]
    exact ⟨_, draft, rfl, hdraft⟩

/-- A build gives the command of the session, which is built then. -/
theorem command_of_build {c : Command} (h : build.perform s = (.ok c, t)) :
    c = t.draft.command ∧ t.draft.isBuilt = true ∧ t.output = s.output := by
  rcases build_cases s with ⟨f, host, hb⟩ | ⟨host, draft, hb, hdraft⟩
  · rw [hb] at h; cases h
  · rw [hb] at h
    cases h
    refine ⟨rfl, ?_, rfl⟩
    rcases hdraft with ⟨hbuilt, hsame⟩ | ⟨-, -, hnew⟩
    · exact (congrArg Draft.isBuilt hsame).trans hbuilt
    · exact congrArg Draft.isBuilt hnew

/-- What a build or an execution can do at a time. -/
inductive Move : Session → Session → Prop
  /-- Nothing that concerns the command. -/
  | aside {s t : Session} (draft : t.draft = s.draft) (output : t.output = s.output)
      (runs : t.runs = s.runs) : Move s t
  /-- An output is named, where there was none. -/
  | name {s t : Session} {path : String} (unnamed : s.output = none)
      (draft : t.draft = s.draft.withOutput path {}) (output : t.output = some path)
      (runs : t.runs = s.runs) : Move s t
  /-- The command is built, for the first time. -/
  | close {s t : Session} (unbuilt : s.draft.isBuilt = false)
      (ends : s.draft.command.checkEnds = .ok ()) (draft : t.draft = s.draft.built)
      (output : t.output = s.output) (runs : t.runs = s.runs) : Move s t
  /-- The command that was built is handed to an executor. -/
  | hand {s t : Session} {r : Run} (built : s.draft.isBuilt = true)
      (command : r.command = s.draft.command) (draft : t.draft = s.draft)
      (output : t.output = s.output) (runs : t.runs = s.runs ++ [r]) : Move s t

def Moves : Session → Session → Prop := Relation.ReflTransGen Move

/-- The contract of actions that only move on. -/
def moving : Contract Session where
  leads := Moves
  allows _ _ := True
  refl _ := .refl
  trans := .trans
  allows_of_leads _ _ := trivial

theorem moving_of_move (h : Move s t) : moving.leads s t := Relation.ReflTransGen.single h

theorem moving_onHost {α : Type} (a : Action Host α) (s : Session) : moving.At s (onHost a) :=
  ⟨moving_of_move (.aside rfl rfl rfl), fun _ _ => trivial⟩

theorem moving_cleanUp (s : Session) : moving.At s cleanUp :=
  .of_ok (perform_cleanUp s) (moving_of_move (.aside rfl rfl rfl))

theorem moving_requireInput (s : Session) : moving.At s requireInput := by
  refine .get_bind ?_
  cases s.input with
  | none => exact .fail trivial
  | some path => exact .pure _

theorem moving_build (s : Session) : moving.At s build := by
  rcases build_cases s with ⟨f, host, hb⟩ | ⟨host, draft, hb, ⟨-, hdraft⟩ | ⟨hnew, hends, hdraft⟩⟩
  · exact .of_error hb (moving_of_move (.aside rfl rfl rfl)) trivial
  · exact .of_ok hb (moving_of_move (.aside hdraft rfl rfl))
  · exact .of_ok hb (moving_of_move (.close hnew hends hdraft rfl rfl))

theorem moving_ensureOutput (s : Session) : moving.At s (ensureOutput cleanUp) := by
  unfold ensureOutput
  refine .get_bind ?_
  by_cases ho : s.output.isNone = true
  · simp only [ho, if_true]
    rcases s.host.makeFolders s.options.tempFolder with ⟨host, fault⟩
    dsimp only
    refine .bind (.set (moving_of_move (.aside rfl rfl rfl))) ?_
    rintro _ _ ⟨⟩
    cases fault with
    | some fault => exact .bind (moving_cleanUp _) fun _ _ _ => .fail trivial
    | none =>
      obtain ⟨path, host', hpath, -⟩ := freshOutput_ok { s with host }
      refine .bind (.of_ok hpath (moving_of_move (.aside rfl rfl rfl))) ?_
      rintro _ _ hfresh
      rw [hpath] at hfresh
      cases hfresh
      rcases setOutput_cases path {} { s with host := host' } with
        ⟨fault, -, hset⟩ | ⟨host'', -, hset⟩
      · exact .of_error hset .refl trivial
      · exact .of_ok hset (moving_of_move (.name (by simpa using ho) rfl rfl rfl))
  · simp only [ho]
    exact .pure _

theorem moving_buildAndHand (e : Executor) (s : Session) : moving.At s (buildAndHand e) := by
  unfold buildAndHand
  refine .bind (moving_build s) fun c t hb => ?_
  obtain ⟨hcommand, hbuilt, -⟩ := command_of_build hb
  refine .get_bind ?_
  refine .bind (moving_onHost _ t) fun _ u hu => ?_
  obtain ⟨host, rfl⟩ := onHost_ok hu
  unfold hand
  refine .bind (.modify (moving_of_move (.hand hbuilt hcommand rfl rfl rfl))) ?_
  rintro _ _ ⟨⟩
  exact moving_onHost _ _

end Session

theorem Action.Contract.At.attempt {σ α : Type} {C : Contract σ} {a : Action σ α} {s : σ}
    (h : C.At s a) : C.At s (Action.attempt a) := by
  have hperform := Action.perform_attempt a s
  rcases ha : a.perform s with ⟨(error | fault | fault) | v, t⟩
  · rw [ha] at hperform; exact .of_ok hperform (h.leads_of_perform ha)
  · rw [ha] at hperform
    exact .of_error hperform (h.leads_of_perform ha) (h.allows _ (by rw [ha]))
  · rw [ha] at hperform
    exact .of_error hperform (h.leads_of_perform ha) (h.allows _ (by rw [ha]))
  · rw [ha] at hperform; exact .of_ok hperform (h.leads_of_perform ha)

namespace Session

variable {s t u : Session}

theorem moving_execute (e : Executor) (s : Session) : moving.At s (execute e) := by
  unfold execute
  refine .bind (moving_requireInput s) fun _ t _ => .get_bind ?_
  refine .bind (.expect fun _ _ => trivial) fun isThere t _ => ?_
  by_cases hthere : isThere = true
  · simp only [hthere, if_true]
    refine .bind (moving_ensureOutput t) fun _ u _ => ?_
    refine .bind (moving_buildAndHand e u).attempt fun x v _ => ?_
    cases x with
    | error error =>
      exact .bind (moving_onHost _ v) fun _ w _ => .bind (moving_cleanUp w) fun _ _ _ => .fail trivial
    | ok result =>
      exact .bind (moving_cleanUp v) fun _ w _ => .bind (moving_onHost _ w) fun _ _ _ => .pure _
  · simp only [hthere, Bool.false_eq_true, if_false]
    exact .bind (moving_cleanUp t) fun _ _ _ => .bind (.fail trivial) fun _ _ hfail => by cases hfail

/-! ## The invariant -/

/-- The command of the session was not built yet. -/
structure Open (s : Session) : Prop where
  isBuilt : s.draft.isBuilt = false
  isClosed : s.draft.command.isClosed = false
  output : s.draft.command.output = s.output

/-- The command of the session was built. Its arguments end with the words that were added since, and
    the last of the outputs is the one that all speak of. -/
structure Closed (s : Session) (words targets : List String) : Prop where
  isBuilt : s.draft.isBuilt = true
  hasInput : s.draft.hasInput = true
  output : s.draft.command.output = s.output
  target : s.output = targets.getLast?
  arguments : ∃ front, s.draft.command.arguments = front ++ words
  words_ne_nil : words ≠ []
  targets_ne_nil : targets ≠ []

variable {words targets : List String}

theorem Closed.isSome (h : Closed s words targets) : s.output.isSome = true := by
  rw [h.target, List.getLast?_isSome]
  exact h.targets_ne_nil

theorem Closed.getLast? (h : Closed s words targets) :
    s.draft.command.arguments.getLast? = words.getLast? := by
  obtain ⟨front, harguments⟩ := h.arguments
  rw [harguments, List.getLast?_append_of_ne_nil _ h.words_ne_nil]

/-- The first build puts the output behind the arguments. -/
theorem Open.close (h : Open s) (hends : s.draft.command.checkEnds = .ok ())
    (hdraft : t.draft = s.draft.built) (houtput : t.output = s.output) :
    Closed t t.output.toList t.output.toList := by
  obtain ⟨path, hpath⟩ := Option.isSome_iff_exists.mp (Command.output_of_checkEnds hends)
  have hrendered : s.draft.rendered.output = some path := hpath
  have hnew : s.draft.rendered.isClosed = false := h.isClosed
  have hcommand : t.draft.command =
      { s.draft.rendered.append [path] with isClosed := true } := by
    rw [hdraft, Draft.built]
    simp [Command.close, hrendered, hnew]
  have htarget : t.output = some path := by rw [houtput, ← h.output, hpath]
  have hinput : s.draft.command.input.isSome = true := by
    by_contra hnone
    rw [Command.checkEnds, if_pos (by simpa using hnone)] at hends
    cases hends
  refine ⟨by rw [hdraft]; rfl, ?_, ?_, ?_, ⟨s.draft.rendered.arguments, ?_⟩, ?_, ?_⟩
  · rw [Draft.hasInput, hcommand]; exact hinput
  · rw [hcommand, htarget]; exact hpath
  · rw [htarget]; rfl
  · rw [hcommand, htarget]; rfl
  · rw [htarget]; exact List.cons_ne_nil _ _
  · rw [htarget]; exact List.cons_ne_nil _ _

theorem Open.move (h : Open s) (hmove : Move s t) :
    Open t ∨ Closed t t.output.toList t.output.toList := by
  cases hmove with
  | aside hdraft houtput hruns =>
    left
    exact ⟨by rw [hdraft, h.isBuilt], by rw [hdraft, h.isClosed], by rw [hdraft, houtput, h.output]⟩
  | name hunnamed hdraft houtput hruns =>
    left
    refine ⟨by rw [hdraft]; exact h.isBuilt, by rw [hdraft]; exact h.isClosed, ?_⟩
    rw [hdraft, houtput]
    rfl
  | close hunbuilt hends hdraft houtput hruns => right; exact h.close hends hdraft houtput
  | hand hbuilt => rw [h.isBuilt] at hbuilt; cases hbuilt

/-- Once the command was built, nothing moves it any more. -/
theorem Closed.move (h : Closed s words targets) (hmove : Move s t) :
    t.draft = s.draft ∧ t.output = s.output := by
  cases hmove with
  | aside hdraft houtput hruns => exact ⟨hdraft, houtput⟩
  | name hunnamed =>
    have hsome := h.isSome
    rw [hunnamed] at hsome
    cases hsome
  | close hunbuilt => rw [h.isBuilt] at hunbuilt; cases hunbuilt
  | hand hbuilt hcommand hdraft houtput hruns => exact ⟨hdraft, houtput⟩

theorem Closed.congr (h : Closed s words targets) (hdraft : t.draft = s.draft)
    (houtput : t.output = s.output) : Closed t words targets := by
  refine ⟨?_, ?_, ?_, houtput.trans h.target, ?_, h.words_ne_nil, h.targets_ne_nil⟩
  · rw [hdraft, h.isBuilt]
  · rw [hdraft, h.hasInput]
  · rw [hdraft, houtput, h.output]
  · rw [hdraft]; exact h.arguments

theorem Closed.moves (h : Closed s words targets) (hmoves : Moves s t) :
    t.draft = s.draft ∧ t.output = s.output := by
  induction hmoves with
  | refl => exact ⟨rfl, rfl⟩
  | tail _ hmove ih =>
    obtain ⟨hdraft, houtput⟩ := ih
    obtain ⟨hdraft', houtput'⟩ := (h.congr hdraft houtput).move hmove
    exact ⟨hdraft'.trans hdraft, houtput'.trans houtput⟩

theorem Open.moves (h : Open s) (hmoves : Moves s t) :
    Open t ∨ Closed t t.output.toList t.output.toList := by
  induction hmoves with
  | refl => exact .inl h
  | tail _ hmove ih =>
    rcases ih with hopen | hclosed
    · exact hopen.move hmove
    · obtain ⟨hdraft, houtput⟩ := hclosed.move hmove
      rw [← houtput] at hclosed
      exact .inr (hclosed.congr hdraft houtput)

/-- What was added to the command since it was built; before that, nothing. -/
def Trails (s : Session) (words targets : List String) : Prop :=
  (Open s ∧ words = [] ∧ targets = []) ∨ Closed s words targets

theorem Trails.closed (h : Trails s words targets) (hbuilt : s.draft.isBuilt = true) :
    Closed s words targets := by
  rcases h with ⟨hopen, -, -⟩ | hclosed
  · rw [hopen.isBuilt] at hbuilt; cases hbuilt
  · exact hclosed

/-- Moves lead to a command that is not built yet, to one that is just built, or nowhere. -/
theorem Trails.moves (h : Trails s words targets) (hmoves : Moves s t) :
    ∃ words' targets', Trails t words' targets' ∧
      (t.draft.isBuilt = true →
        (words'.getLast? = targets'.getLast? ↔ words.getLast? = targets.getLast?)) := by
  rcases h with ⟨hopen, rfl, rfl⟩ | hclosed
  · rcases hopen.moves hmoves with hopen' | hclosed
    · exact ⟨[], [], .inl ⟨hopen', rfl, rfl⟩, fun _ => .rfl⟩
    · exact ⟨_, _, .inr hclosed, fun _ => iff_of_true rfl rfl⟩
  · obtain ⟨hdraft, houtput⟩ := hclosed.moves hmoves
    exact ⟨words, targets, .inr (hclosed.congr hdraft houtput), fun _ => .rfl⟩

/-- A command that was built ends with its output just if the last word and the last output that were
    added since are the same. -/
theorem Trails.last_iff (h : Trails s words targets) (hmoves : Moves s t)
    (hbuilt : t.draft.isBuilt = true) :
    t.draft.command.output = t.output ∧ t.output.isSome = true ∧
      (t.draft.command.arguments.getLast? = t.output ↔ words.getLast? = targets.getLast?) := by
  obtain ⟨words', targets', htrails, hsame⟩ := h.moves hmoves
  have hclosed := htrails.closed hbuilt
  refine ⟨hclosed.output, hclosed.isSome, ?_⟩
  rw [hclosed.getLast?, hclosed.target, hsame hbuilt]

/-- What is handed over on the way is the command that the session has in the end. -/
theorem Trails.runs (h : Trails s words targets) (hmoves : Moves s t) {r : Run} (hr : r ∈ t.runs) :
    r ∈ s.runs ∨ (t.draft.isBuilt = true ∧ r.command = t.draft.command) := by
  induction hmoves with
  | refl => exact .inl hr
  | @tail m t hmoves hmove ih =>
    obtain ⟨words', targets', htrails, -⟩ := h.moves hmoves
    have hbefore (hr : r ∈ m.runs) :
        r ∈ s.runs ∨ (t.draft.isBuilt = true ∧ r.command = t.draft.command) := by
      rcases ih hr with hr | ⟨hbuilt, hcommand⟩
      · exact .inl hr
      · rw [((htrails.closed hbuilt).move hmove).1]
        exact .inr ⟨hbuilt, hcommand⟩
    cases hmove with
    | aside hdraft houtput hruns => exact hbefore (hruns ▸ hr)
    | name hunnamed hdraft houtput hruns => exact hbefore (hruns ▸ hr)
    | close hunbuilt hends hdraft houtput hruns => exact hbefore (hruns ▸ hr)
    | hand hbuilt hcommand hdraft houtput hruns =>
      rw [hruns] at hr
      rcases List.mem_append.mp hr with hr | hr
      · exact hbefore hr
      · rw [List.mem_singleton.mp hr, hdraft]
        exact .inr ⟨hbuilt, hcommand⟩

/-! ## Histories -/

theorem Trails.call (h : Trails s words targets) (c : Call) :
    Trails ((Step.call c).after s) (words ++ (Step.call c).since Call.words s)
      (targets ++ (Step.call c).since Call.targets s) := by
  obtain ⟨hgrows, houtput⟩ := c.grows s
  have hcontinues : s.Continues ((Step.call c).after s) := (Call.at_action c s).leads
  rcases h with ⟨hopen, rfl, rfl⟩ | hclosed
  · have hstill : ((Step.call c).after s).draft.isBuilt = false := hgrows.isBuilt.trans hopen.isBuilt
    left
    refine ⟨⟨hstill, hgrows.isClosed.trans hopen.isClosed, ?_⟩, ?_, ?_⟩
    · have hnamed := hgrows.output
      rw [hopen.output] at hnamed
      exact hnamed.trans houtput.symm
    · simp [Step.since, hopen.isBuilt, hstill]
    · simp [Step.since, hopen.isBuilt, hstill]
  · right
    simp only [Step.since, hclosed.isBuilt, if_true]
    refine ⟨hgrows.isBuilt.trans hclosed.isBuilt, hcontinues.hasInput hclosed.hasInput, ?_, ?_, ?_,
      List.append_ne_nil_of_left_ne_nil hclosed.words_ne_nil _,
      List.append_ne_nil_of_left_ne_nil hclosed.targets_ne_nil _⟩
    · have hnamed := hgrows.output
      rw [hclosed.output] at hnamed
      exact hnamed.trans houtput.symm
    · rw [List.getLast?_append, ← hclosed.target]
      exact houtput
    · obtain ⟨front, harguments⟩ := hclosed.arguments
      have hadded := hgrows.arguments hclosed.hasInput
      rw [harguments, List.append_assoc] at hadded
      exact ⟨front, hadded⟩

/-- A step that is no call adds to a command only by building it. -/
theorem Trails.other (h : Trails s words targets) {step : Step} (htaken : step.taken s = [])
    (hmoves : Moves s (step.after s)) :
    Trails (step.after s) (words ++ step.since Call.words s)
      (targets ++ step.since Call.targets s) := by
  rcases h with ⟨hopen, rfl, rfl⟩ | hclosed
  · rcases hopen.moves hmoves with hopen' | hclosed
    · left
      exact ⟨hopen', by simp [Step.since, hopen.isBuilt, hopen'.isBuilt],
        by simp [Step.since, hopen.isBuilt, hopen'.isBuilt]⟩
    · right
      simpa [Step.since, hopen.isBuilt, hclosed.isBuilt] using hclosed
  · obtain ⟨hdraft, houtput⟩ := hclosed.moves hmoves
    right
    simpa [Step.since, hclosed.isBuilt, htaken] using hclosed.congr hdraft houtput

theorem Trails.step (h : Trails s words targets) (step : Step) :
    Trails (step.after s) (words ++ step.since Call.words s)
      (targets ++ step.since Call.targets s) := by
  cases step with
  | call c => exact h.call c
  | build => exact h.other rfl (moving_build s).leads
  | execute e => exact h.other rfl (moving_execute e s).leads
  | elsewhere tree clock => exact h.other rfl (moving_of_move (.aside rfl rfl rfl))

/-- The invariant holds in every history of a session. -/
theorem trails_after (so : SessionOptions) (h : Host) (steps : List Step) :
    Trails (after (start so h) steps) (since Call.words (start so h) steps)
      (since Call.targets (start so h) steps) := by
  -- From the end, since the invariant speaks of the steps before.
  induction steps using List.reverseRecOn with
  | nil => exact .inl ⟨⟨rfl, rfl, rfl⟩, rfl, rfl⟩
  | append_singleton steps step ih =>
    rw [after_append, since_snoc, since_snoc]
    exact ih.step step

/-- Calls and others build nothing, so a first build or execution behind them is in step. -/
theorem inStep_of_no_build (so : SessionOptions) (h : Host) {steps : List Step}
    (hbuild : Step.build ∉ steps) (hexecute : ∀ e, Step.execute e ∉ steps) :
    InStep (start so h) steps := by
  have hunbuilt (s : Session) (hs : s.draft.isBuilt = false) :
      (after s steps).draft.isBuilt = false := by
    induction steps generalizing s with
    | nil => exact hs
    | cons step steps ih =>
      rw [List.mem_cons, not_or] at hbuild
      have hrest := ih hbuild.2 fun e he => hexecute e (List.mem_cons_of_mem _ he)
      cases step with
      | call c => exact hrest _ ((c.grows s).1.isBuilt.trans hs)
      | build => exact absurd rfl hbuild.1
      | execute e => exact absurd List.mem_cons_self (hexecute e)
      | elsewhere tree clock => exact hrest _ hs
  rcases trails_after so h steps with ⟨-, hwords, htargets⟩ | hclosed
  · rw [InStep, hwords, htargets]
  · have hnew := hunbuilt (start so h) rfl
    rw [hclosed.isBuilt] at hnew
    cases hnew

/-- **The last argument.** Whatever was done with a session, whether it failed or not and whatever
    others did to the files: a command that a build returns or an execution hands over has the output
    of the session as its own. Its arguments end with that output just if the last word and the last
    output since the first build are the same. -/
theorem last_argument_iff (so : SessionOptions) (h : Host) (steps : List Step) :
    let s := after (start so h) steps
    (∀ c t, build.perform s = (.ok c, t) → c.output = s.output ∧ c.output.isSome = true ∧
      (c.arguments.getLast? = c.output ↔ InStep (start so h) steps)) ∧
    ∀ e, ∀ r ∈ ((Step.execute e).after s).runs, r ∈ s.runs ∨
      (r.command.output = ((Step.execute e).after s).output ∧ r.command.output.isSome = true ∧
        (r.command.arguments.getLast? = r.command.output ↔ InStep (start so h) steps)) := by
  intro s
  have htrails : Trails s _ _ := trails_after so h steps
  constructor
  · intro c t hb
    have hmoves : Moves s t := (moving_build s).leads_of_perform hb
    obtain ⟨rfl, hbuilt, houtput⟩ := command_of_build hb
    have hlast := htrails.last_iff hmoves hbuilt
    rw [hlast.1, ← houtput]
    exact ⟨rfl, hlast.2⟩
  · intro e r hr
    have hmoves : Moves s ((Step.execute e).after s) := (moving_execute e s).leads
    rcases htrails.runs hmoves hr with hr | ⟨hbuilt, hcommand⟩
    · exact .inl hr
    · have hlast := htrails.last_iff hmoves hbuilt
      rw [hcommand, hlast.1]
      exact .inr ⟨rfl, hlast.2⟩

/-- The same output is named again behind a build, and a filter is added: the command that is run ends
    with it. -/
theorem last_argument_iff_named_again :
    let so : SessionOptions := ⟨"ffmpeg", "temp", true, true⟩
    let h : Host := { tree := { entries := [(["in.mp4"], .file "" false)] } }
    let steps : List Step := [.call (.input "in.mp4"), .call (.output "a.mp4" {}), .build,
      .call (.add (.crop { width := 64, height := 32 })), .call (.output "a.mp4" {})]
    let e := ({} : Rehearsal).executor
    let s := after (start so h) steps
    InStep (start so h) steps ∧ s.runs = [] ∧
      ∃ r, ((Step.execute e).after s).runs = [r] ∧ r.command.output = some "a.mp4" ∧
        r.command.arguments.getLast? = some "a.mp4" := by
  intro so h steps e s
  have hstep : InStep (start so h) steps := by unfold InStep; decide +kernel
  have hnone : s.runs = [] := List.eq_nil_of_length_eq_zero (by decide +kernel)
  have hone : (((Step.execute e).after s).runs.map fun r => r.command.output) = [some "a.mp4"] := by
    decide +kernel
  obtain ⟨r, hruns, houtput⟩ := List.map_eq_singleton_iff.mp hone
  have hr : r ∈ ((Step.execute e).after s).runs := by rw [hruns]; exact List.mem_singleton_self r
  rcases (last_argument_iff so h steps).2 e r hr with hbefore | ⟨-, -, hlast⟩
  · rw [hnone] at hbefore; cases hbefore
  · exact ⟨hstep, hnone, r, hruns, houtput, houtput ▸ hlast.mpr hstep⟩

/-- Another output is named behind a build: the command that is run writes to the first. -/
theorem renamed_output_not_last :
    let so : SessionOptions := ⟨"ffmpeg", "temp", true, true⟩
    let h : Host := { tree := { entries := [(["in.mp4"], .file "" false)] } }
    let steps : List Step := [.call (.input "in.mp4"), .call (.output "a.mp4" {}), .build,
      .call (.output "b.mp4" {})]
    let t := (Step.execute ({} : Rehearsal).executor).after (after (start so h) steps)
    t.output = some "b.mp4" ∧
      t.runs.map (fun r => (r.command.arguments, r.command.output)) =
        [(["-hide_banner", "-y", "-i", "in.mp4", "a.mp4"], some "b.mp4")] ∧
      ∀ r ∈ t.runs, r.command.arguments.getLast? ≠ r.command.output := by
  intro so h steps t
  exact ⟨by decide +kernel, by decide +kernel, by decide +kernel⟩

end Session

end Montage

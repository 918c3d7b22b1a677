import Montage.Proofs.Passing
import Montage.Proofs.Rollback
import Montage.Proofs.Run

/-!
# What leaves a run without an exit code

Errors are logged and become an exit code. A setting that cannot be read is no error of that kind, and
neither is a question that the machine does not answer: no part of a run catches them, so they leave the
run. This happens just when the run comes to a place where such a setting is needed or such a question
is asked, and those places are few.

* `Operation.Blocked`: an operation that is added needs a distance that cannot be read, or a working
  directory that is gone.
* `Session.Call.Blocked`: a call stalls, or needs a setting for its message, or its operation is blocked.
* `CommandLine.Blocked`: so is a run.

Results:
* `Session.Call.escapes_iff`: a call fails with no error just if it is blocked.
* `CommandLine.ends_iff_not_blocked`: so does a run, and it fails in no other way.
* `CommandLine.not_mute_of_environment`: as long as the environment stays, errors can be reported.
-/

namespace Montage

open Montage.Action (Contract)

variable {f : Failure}

/-! ## Filters at an anchor -/

section Filters

variable {h : Host}

theorem Caption.coordinates_error_iff {p : Placement} :
    coordinates p h = .error f ↔ p.anchor.isSome = true ∧
      ∃ fault, f = .setting fault ∧ Settings.overlayPadding h = .error fault := by
  unfold coordinates
  rw [← Placement.distance_error_iff (p := p)]
  rcases p.anchor with _ | anchor
  · by_cases hp : (p.x.isSome || p.y.isSome) = true <;> simp [hp]
  · simp only [bind_eq_error, pure_ne_error, and_false, exists_false, or_false, Option.isSome_some,
      true_and]

/-- The bounds of a window are refused or rendered. -/
theorem Window.option_ne_error (w : Window) (hf : f.Escapes) :
    w.option.mapError Failure.reported ≠ .error f := by
  cases w.option with
  | error error => rintro ⟨⟩; exact hf
  | ok text => rintro ⟨⟩

theorem Overlay.overlayFilter_escapes_iff {o : Overlay} (hf : f.Escapes) :
    o.overlayFilter h = .error f ↔ o.place.anchor.isSome = true ∧
      ∃ fault, f = .setting fault ∧ Settings.overlayPadding h = .error fault := by
  simp only [overlayFilter, bind_eq_error, pure_ne_error, and_false, exists_false, or_false,
    coordinates_error_iff, Window.option_ne_error _ hf]

theorem Caption.filterText_escapes_iff {c : Caption} (hf : f.Escapes) :
    c.filterText h = .error f ↔ c.place.anchor.isSome = true ∧
      ∃ fault, f = .setting fault ∧ Settings.overlayPadding h = .error fault := by
  simp only [filterText, bind_eq_error, pure_ne_error, and_false, exists_false, or_false,
    coordinates_error_iff, Window.option_ne_error _ hf]

end Filters

/-! ## Operations -/

namespace Operation

/-- Whether an operation places something at an anchor. -/
def isAnchored : Operation → Bool
  | caption c => c.place.anchor.isSome
  | overlay o => o.place.anchor.isSome
  | _ => false

/-- What stops an operation that passed its check, other than an error. -/
inductive Blocked (op : Operation) (h : Host) (d : Draft) : Failure → Prop
  /-- It places something at an anchor, and the distance from the edges cannot be read. -/
  | distance {fault : Integer.Fault} (anchored : op.isAnchored = true)
      (padding : Settings.overlayPadding h = .error fault) : Blocked op h d (.setting fault)
  /-- It makes up a list of relative paths, and the working directory is gone. -/
  | list {c : Concatenation} {m : Host} {fault : FileFault} (writes : op.list? = some c)
      (unset : d.hasInput = false) (made : h.makeFolders c.tempFolder = (m, none))
      (relative : c.HasRelative) (directory : m.currentPath = .error fault) :
      Blocked op h d (.machine fault)

variable {op : Operation} {h h' : Host} {d : Draft}

theorem Blocked.escapes (hb : op.Blocked h d f) : f.Escapes := by
  cases hb <;> trivial

/-- An operation that places nothing is blocked by its list file alone. -/
theorem not_blocked (ha : op.isAnchored = false) (hl : op.list? = none) : ¬ op.Blocked h d f := by
  intro hb
  cases hb with
  | distance hanchored _ => rw [ha] at hanchored; cases hanchored
  | list hwrites => rw [hl] at hwrites; cases hwrites

/-- One that writes a list file and places nothing is blocked by the working directory alone. -/
theorem blocked_iff_of_list?_eq_some {c : Concatenation} (ha : op.isAnchored = false)
    (hl : op.list? = some c) :
    op.Blocked h d f ↔ d.hasInput = false ∧ ∃ m fault, f = .machine fault ∧
      h.makeFolders c.tempFolder = (m, none) ∧ c.HasRelative ∧ m.currentPath = .error fault := by
  constructor
  · intro hb
    cases hb with
    | distance hanchored _ => rw [ha] at hanchored; cases hanchored
    | list hwrites hunset hmade hrelative hgone =>
      rw [hl] at hwrites
      cases hwrites
      exact ⟨hunset, _, _, rfl, hmade, hrelative, hgone⟩
  · rintro ⟨hunset, m, fault, rfl, hmade, hrelative, hgone⟩
    exact .list hl hunset hmade hrelative hgone

theorem blocked_iff_of_list?_eq_none (hl : op.list? = none) :
    op.Blocked h d f ↔ op.isAnchored = true ∧
      ∃ fault, f = .setting fault ∧ Settings.overlayPadding h = .error fault := by
  constructor
  · intro hb
    cases hb with
    | distance hanchored hpadding => exact ⟨hanchored, _, rfl, hpadding⟩
    | list hwrites => rw [hl] at hwrites; cases hwrites
  · rintro ⟨hanchored, fault, rfl, hpadding⟩
    exact .distance hanchored hpadding

end Operation

/-- Folders are made alike in the same tree. -/
theorem Host.makeFolders_congr {h h' : Host} (htree : h'.tree = h.tree)
    (hdirectory : h'.directory = h.directory) (text : String) :
    h'.makeFolders text =
      ({ h' with tree := (h.makeFolders text).1.tree }, (h.makeFolders text).2) := by
  have hstart (path : Path) : h'.start path = h.start path := by
    unfold start
    rw [hdirectory]
  unfold makeFolders
  by_cases hlong : Path.isTooLong text = true
  · rw [if_pos hlong, if_pos hlong, ← htree]
  · rw [if_neg hlong, if_neg hlong]
    simp only [hstart, htree]

theorem Operation.Blocked.of_same {op : Operation} {h h' : Host} {d : Draft}
    (hb : op.Blocked h d f) (henvironment : h'.environment = h.environment)
    (htree : h'.tree = h.tree) (hdirectory : h'.directory = h.directory) : op.Blocked h' d f := by
  cases hb with
  | distance hanchored hpadding =>
    exact .distance hanchored ((Settings.overlayPadding_congr henvironment).trans hpadding)
  | @list c m fault hwrites hunset hmade hrelative hgone =>
    have hmade' := Host.makeFolders_congr htree hdirectory c.tempFolder
    rw [hmade] at hmade'
    refine .list hwrites hunset hmade' hrelative ?_
    obtain ⟨tree, hm⟩ := h.tree_of_makeFolders c.tempFolder
    rw [hmade] at hm
    have hsame : m.directory = h'.directory := by rw [show m = { h with tree } from hm, hdirectory]
    rw [← hgone, Host.currentPath, Host.currentPath, Host.directoryText, Host.directoryText, hsame]

namespace Concatenation

variable {c : Concatenation} {b : Bench} {wanted : Bool}

/-- Once messages can be logged, the demuxer strategy fails as the writing of its list does. -/
theorem applyDemuxer_escapes_iff (hd : Settings.debugging b.host = .ok wanted) (hf : f.Escapes) :
    (c.applyDemuxer.perform b).1 = .error f ↔
      b.draft.hasInput = false ∧ (c.writeList.perform b.host).1 = .error f := by
  unfold applyDemuxer
  rw [Action.perform_bind, Action.perform_get]
  by_cases hin : b.draft.command.input.isSome = true
  · simp only [hin, if_true, Action.perform_bind, Action.perform_fail, Draft.hasInput]
    exact iff_of_false (by rintro ⟨⟩; exact hf) fun hnone => by cases hnone.1
  have hnone : b.draft.hasInput = false := by simpa [Draft.hasInput] using hin
  simp only [hin, Bool.false_eq_true, if_false, hnone, true_and]
  rw [Action.perform_bind, Bench.perform_onHost]
  have hleads : b.host.Continues False (c.writeList.perform b.host).2 := (c.at_writeList b.host).leads
  rcases hw : c.writeList.perform b.host with ⟨f' | path, h⟩
  · constructor <;> (rintro ⟨⟩; rfl)
  · rw [hw] at hleads
    have hd' : Settings.debugging h = .ok wanted := hleads.debugging.trans hd
    simp only [Action.perform_bind, Action.perform_modify, Bench.perform_onHost, Log.perform_debug,
      hd', Bench.perform_edit]
    exact iff_of_false (by rintro ⟨⟩) (by rintro ⟨⟩)

end Concatenation

/-- An operation that passed its check fails with no error just if it is blocked. -/
theorem Bench.add_escapes_iff {op : Operation} {b : Bench} {wanted : Bool}
    (hc : op.check b.host = .ok ()) (hd : Settings.debugging b.host = .ok wanted)
    (hf : f.Escapes) :
    ((Bench.add op).perform b).1 = .error f ↔ op.Blocked b.host b.draft f := by
  have hnot {x : Except Failure Unit} (hx : x ≠ .error f) (ha : op.isAnchored = false)
      (hl : op.list? = none) : x = .error f ↔ op.Blocked b.host b.draft f :=
    iff_of_false hx (Operation.not_blocked ha hl)
  rw [Bench.perform_add, hc]
  simp only
  cases op with
  | caption c =>
    rw [Operation.blocked_iff_of_list?_eq_none rfl, Operation.isAnchored,
      ← Caption.filterText_escapes_iff hf, Operation.apply, Action.perform_bind,
      Bench.perform_requireText]
    cases c.filterText b.host <;> simp
  | overlay o =>
    rw [Operation.blocked_iff_of_list?_eq_none rfl, Operation.isAnchored,
      ← Overlay.overlayFilter_escapes_iff hf, Operation.apply, Operation.perform_applyOverlay]
    cases o.overlayFilter b.host <;> simp
  | concat c =>
    simp only [Operation.apply, Concatenation.apply]
    cases hs : c.strategy with
    | filter => exact hnot (by simp [c.perform_applyFilter]) rfl (by simp [Operation.list?, hs])
    | demuxer =>
      have hlist : (Operation.concat c).list? = some c := by simp [Operation.list?, hs]
      simp only
      rw [c.applyDemuxer_escapes_iff hd hf, c.writeList_escapes_iff hf,
        Operation.blocked_iff_of_list?_eq_some rfl hlist]
  | _ =>
    obtain ⟨draft, happly, -⟩ := Operation.perform_apply_of_isPlain rfl hc
    exact hnot (by rw [happly]; rintro ⟨⟩) rfl rfl

/-! ## Calls -/

namespace Session

variable {s : Session}

/-- The operation that a call adds. -/
def Call.Makes (s : Session) (op : Operation) : Call → Prop
  | concat r =>
    ∃ c, Concatenation.ofRequest r s.options.tempFolder s.host = .ok c ∧ op = .concat c
  | add op' => op = op'
  | _ => False

/-- What stops a call, other than an error. -/
inductive Call.Blocked (s : Session) (c : Call) : Failure → Prop
  /-- Its check gets no answer. -/
  | unanswered {fault : FileFault} (stalls : c.Stalls s fault) : Blocked s c (.machine fault)
  /-- It passes, and it is not known whether its message is wanted. -/
  | message {fault : Integer.Fault} (passes : c.passes s = true)
      (debugging : Settings.debugging s.host = .error fault) : Blocked s c (.setting fault)
  /-- Its message is dealt with, and its operation is stopped. -/
  | operation {f : Failure} {op : Operation} {wanted : Bool} (makes : c.Makes s op)
      (passes : c.passes s = true) (debugging : Settings.debugging s.host = .ok wanted)
      (blocked : op.Blocked s.host s.draft f) : Blocked s c f

theorem Call.Blocked.escapes {c : Call} (hb : c.Blocked s f) : f.Escapes := by
  cases hb with
  | unanswered => trivial
  | message => trivial
  | operation _ _ _ hblocked => exact hblocked.escapes

theorem keep_escapes_iff {op : Operation} {wanted : Bool} (hc : op.check s.host = .ok ())
    (hd : Settings.debugging s.host = .ok wanted) (hf : f.Escapes) :
    ((keep op).perform s).1 = .error f ↔ op.Blocked s.host s.draft f := by
  obtain ⟨host, hhost, hkeep⟩ := keep_of_readable op hd
  have hadd : ((Bench.add op).perform ⟨host, s.draft, none⟩).1 = .error f ↔
      op.Blocked host s.draft f :=
    Bench.add_escapes_iff ((hhost.check trivial op).trans hc) (hhost.debugging.trans hd) hf
  have hsame : op.Blocked host s.draft f ↔ op.Blocked s.host s.draft f := by
    have htree := hhost.tree trivial
    constructor
    · exact fun hb => hb.of_same hhost.environment.symm htree.symm hhost.directory.symm
    · exact fun hb => hb.of_same hhost.environment htree hhost.directory
  rw [hkeep, ← hsame, ← hadd]
  rcases (Bench.add op).perform ⟨host, s.draft, none⟩ with ⟨f' | _, b⟩
  · rfl
  · simp

/-- A call that does not pass is blocked just if its check stalls. -/
theorem Call.blocked_iff_of_not_passes {c : Call} (hp : c.passes s = false) :
    c.Blocked s f ↔ ∃ fault, f = .machine fault ∧ c.Stalls s fault := by
  constructor
  · intro hb
    cases hb with
    | unanswered hstalls => exact ⟨_, rfl, hstalls⟩
    | message hpasses _ => rw [hp] at hpasses; cases hpasses
    | operation _ hpasses _ _ => rw [hp] at hpasses; cases hpasses
  · rintro ⟨fault, rfl, hstalls⟩
    exact .unanswered hstalls

/-- One that passes is blocked by its message, if it is not known whether that is wanted. -/
theorem Call.blocked_iff_of_unreadable {c : Call} {unread : Integer.Fault} (hp : c.passes s = true)
    (hd : Settings.debugging s.host = .error unread) : c.Blocked s f ↔ f = .setting unread := by
  constructor
  · intro hb
    cases hb with
    | unanswered hstalls => exact absurd hstalls (not_stalls_of_passes hp)
    | message _ hfault => rw [hd] at hfault; cases hfault; rfl
    | operation _ _ hok _ => rw [hd] at hok; cases hok
  · rintro rfl
    exact .message hp hd

/-- One that passes, with a message that is dealt with, is blocked as its operation is. -/
theorem Call.blocked_iff_of_passes {c : Call} {wanted : Bool} (hp : c.passes s = true)
    (hd : Settings.debugging s.host = .ok wanted) :
    c.Blocked s f ↔ ∃ op, c.Makes s op ∧ op.Blocked s.host s.draft f := by
  constructor
  · intro hb
    cases hb with
    | unanswered hstalls => exact absurd hstalls (not_stalls_of_passes hp)
    | message _ hfault => rw [hd] at hfault; cases hfault
    | operation hmakes _ _ hblocked => exact ⟨_, hmakes, hblocked⟩
  · rintro ⟨op, hmakes, hblocked⟩
    exact .operation hmakes hp hd hblocked

theorem Call.makes_concat_iff {r : ConcatRequest} {c : Concatenation}
    (hc : Concatenation.ofRequest r s.options.tempFolder s.host = .ok c) {op : Operation} :
    (Call.concat r).Makes s op ↔ op = .concat c := by
  constructor
  · rintro ⟨c', hc', rfl⟩
    rw [hc] at hc'
    cases hc'
    rfl
  · rintro rfl
    exact ⟨c, hc, rfl⟩

/-- A call that passes, with a message that is dealt with, fails with no error just if the operation
    that it adds is blocked. -/
theorem Call.escapes_iff_of_passes {c : Call} {wanted : Bool} (hp : c.passes s = true)
    (hd : Settings.debugging s.host = .ok wanted) (hf : f.Escapes) :
    (c.action.perform s).1 = .error f ↔ ∃ op, c.Makes s op ∧ op.Blocked s.host s.draft f := by
  have hnone {x : Except Failure Unit} (hx : x = .ok ()) (hmakes : ∀ op, ¬ c.Makes s op) :
      x = .error f ↔ ∃ op, c.Makes s op ∧ op.Blocked s.host s.draft f := by
    refine iff_of_false (by rw [hx]; rintro ⟨⟩) ?_
    rintro ⟨op, hmade, -⟩
    exact hmakes op hmade
  cases c with
  | input path =>
    obtain ⟨host, -, hinput⟩ := setInput_of_readable hp hd
    exact hnone (congrArg Prod.fst hinput) fun op => id
  | output path options =>
    obtain ⟨host, -, houtput⟩ := setOutput_of_readable path options hd
    exact hnone (congrArg Prod.fst houtput) fun op => id
  | concat r =>
    obtain ⟨c, hc, hconcat⟩ := concat_of_passes hp
    simp only [Call.makes_concat_iff hc, exists_eq_left]
    rw [← keep_escapes_iff (Concatenation.check_of_ofRequest hc) hd hf]
    change ((Session.concat r).perform s).1 = _ ↔ _
    rw [hconcat, Action.perform_bind]
    rcases (keep (.concat c)).perform s with ⟨f' | _, t⟩
    · exact Iff.rfl
    · exact iff_of_false (by rintro ⟨⟩) (by rintro ⟨⟩)
  | add op =>
    obtain ⟨-, -, hcheck⟩ := add_passes_iff.mp hp
    change ((Session.add op).perform s).1 = _ ↔ ∃ op', op' = op ∧ _
    rw [add_of_passes hp, keep_escapes_iff hcheck hd hf, exists_eq_left]

/-- A call fails with no error just if it is blocked. -/
theorem Call.escapes_iff {c : Call} (hf : f.Escapes) :
    (c.action.perform s).1 = .error f ↔ c.Blocked s f := by
  rcases hp : c.passes s with _ | _
  · rw [(perform_of_not_passes hp).escapes f hf, blocked_iff_of_not_passes hp]
  rcases hd : Settings.debugging s.host with unread | wanted
  · rw [perform_of_unreadable hp hd, blocked_iff_of_unreadable hp hd, Except.error.injEq, eq_comm]
  · rw [escapes_iff_of_passes hp hd hf, blocked_iff_of_passes hp hd]

end Session

/-! ## Runs -/

/-- Several actions in a row fail just as one of them does that the others lead to. -/
theorem Action.forM_error_iff {σ γ : Type} {step : γ → Action σ PUnit} {xs : List γ} {s : σ} :
    ((forM xs step).perform s).1 = .error f ↔ ∃ before x behind t, xs = before ++ x :: behind ∧
      (forM before step).perform s = (.ok (), t) ∧ ((step x).perform t).1 = .error f := by
  induction xs generalizing s with
  | nil =>
    refine iff_of_false (by rintro ⟨⟩) ?_
    rintro ⟨before, x, behind, t, hxs, -⟩
    simp at hxs
  | cons x xs ih =>
    have hrow (before : List γ) (t : σ) : (forM (x :: before) step).perform s = (.ok (), t) ↔
        ∃ u, (step x).perform s = (.ok (), u) ∧ (forM before step).perform u = (.ok (), t) := by
      constructor
      · exact forM_cons_ok
      · rintro ⟨u, hx, hrest⟩; rw [List.forM_cons, perform_bind_of_ok hx]; exact hrest
    rcases hx : (step x).perform s with ⟨f' | _, u⟩
    · rw [List.forM_cons, perform_bind, hx]
      constructor
      · rintro ⟨⟩; exact ⟨[], x, xs, s, rfl, rfl, by rw [hx]⟩
      · rintro ⟨before, y, behind, t, hxs, hbefore, hy⟩
        rcases before with _ | ⟨z, before⟩
        · cases hxs; cases hbefore; rw [hx] at hy; exact hy
        · cases hxs
          obtain ⟨v, hv, -⟩ := (hrow before t).mp hbefore
          rw [hx] at hv; cases hv
    · rw [List.forM_cons, perform_bind_of_ok hx]
      refine ih.trans ⟨?_, ?_⟩
      · rintro ⟨before, y, behind, t, rfl, hbefore, hy⟩
        exact ⟨x :: before, y, behind, t, rfl, (hrow before t).mpr ⟨u, hx, hbefore⟩, hy⟩
      · rintro ⟨before, y, behind, t, hxs, hbefore, hy⟩
        rcases before with _ | ⟨z, before⟩
        · cases hxs; cases hbefore; rw [hx] at hy; cases hy
        · cases hxs
          obtain ⟨v, hv, hrest⟩ := (hrow before t).mp hbefore
          rw [hx] at hv
          cases hv
          exact ⟨before, y, behind, t, rfl, hrest, hy⟩

namespace CommandLine

open Session (start build execute)

variable {o : Options} {e : Executor} {h : Host} {s t : Session} {so : SessionOptions}

/-- A call that options lead to in a new session is stopped. -/
def Options.Stuck (o : Options) (so : SessionOptions) (h : Host) (f : Failure) : Prop :=
  ∃ before c behind s, o.calls = before ++ c :: behind ∧
    (Session.sequence before).perform (start so h) = (.ok (), s) ∧ Session.Call.Blocked s c f

/-- The command is to be executed, and the machine does not tell whether the input is there. -/
def Options.Unanswered (o : Options) (so : SessionOptions) (h : Host) (fault : FileFault) : Prop :=
  o.dryRun = false ∧ ∃ t path, (compile o).perform (start so h) = (.ok (), t) ∧
    t.input = some path ∧ t.host.pathExists path = .error fault

/-- The program failed, and on the host that it left it is not known whether the message with the
    command is wanted. -/
def Options.Mute (o : Options) (e : Executor) (so : SessionOptions) (h : Host)
    (fault : Integer.Fault) : Prop :=
  ∃ command output t, (fulfil o e).perform (start so h) =
    (.error (.reported (.executionFailed command output)), t) ∧
      Settings.debugging t.host = .error fault

/-- What stops a run, other than an error: a setting that it needs and that cannot be read, or a
    question that it asks and that the machine does not answer. -/
inductive Blocked (o : Options) (e : Executor) (h : Host) : Failure → Prop
  /-- The working directory is gone, and with it the folder for list files. -/
  | directory {fault : FileFault} (gone : h.currentPath = .error fault) :
      Blocked o e h (.machine fault)
  | overwrite {path : String} {fault : Integer.Fault} (directory : h.currentPath = .ok path)
      (setting : Settings.overwrite h = .error fault) : Blocked o e h (.setting fault)
  | banner {path : String} {wanted : Bool} {fault : Integer.Fault}
      (directory : h.currentPath = .ok path) (overwrite : Settings.overwrite h = .ok wanted)
      (setting : Settings.hideBanner h = .error fault) : Blocked o e h (.setting fault)
  | call {so : SessionOptions} {f : Failure} (options : SessionOptions.ofSettings h = .ok so)
      (stuck : o.Stuck so h f) : Blocked o e h f
  | input {so : SessionOptions} {fault : FileFault} (options : SessionOptions.ofSettings h = .ok so)
      (unanswered : o.Unanswered so h fault) : Blocked o e h (.machine fault)
  | report {so : SessionOptions} {fault : Integer.Fault}
      (options : SessionOptions.ofSettings h = .ok so) (mute : o.Mute e so h fault) :
      Blocked o e h (.setting fault)

/-- The options of a session fail with the first of the settings that cannot be read. -/
theorem ofSettings_error_iff : SessionOptions.ofSettings h = .error f ↔
    (∃ fault, f = .machine fault ∧ h.currentPath = .error fault) ∨
      ∃ path, h.currentPath = .ok path ∧
        ((∃ fault, f = .setting fault ∧ Settings.overwrite h = .error fault) ∨
          ∃ wanted, Settings.overwrite h = .ok wanted ∧
            ∃ fault, f = .setting fault ∧ Settings.hideBanner h = .error fault) := by
  unfold SessionOptions.ofSettings Settings.tempFolder
  rcases h.currentPath with fault | path
  · simp [Except.map, Except.mapError, eq_comm]
  rcases Settings.overwrite h with fault | wanted
  · simp [Except.map, Except.mapError, eq_comm]
  · cases Settings.hideBanner h <;> simp [Except.map, Except.mapError, eq_comm]

/-- Putting options into a session fails with no error just if a call is stuck. -/
theorem compile_escapes_iff (hf : f.Escapes) :
    ((compile o).perform (start so h)).1 = .error f ↔ o.Stuck so h f := by
  rw [compile_eq_sequence, Session.sequence, Action.forM_error_iff]
  simp only [Session.Call.escapes_iff hf]
  rfl

/-- Reporting an error fails only if the program failed and it is not known whether a message is
    wanted. -/
theorem report_error_iff {error : Error} :
    ((report error).perform h).1 = .error f ↔ ∃ command output fault,
      error = .executionFailed command output ∧ Settings.debugging h = .error fault ∧
        f = .setting fault := by
  cases error with
  | executionFailed command output =>
    unfold report Log.error Host.logText
    simp only [Action.perform_bind, Action.perform_modify, Log.perform_debug]
    generalize hh : ({ h with logged := _ } : Host) = h₁
    have hsame : Settings.debugging h₁ = Settings.debugging h := by rw [← hh]; rfl
    rw [hsame]
    cases Settings.debugging h <;> simp [eq_comm]
  | _ =>
    refine iff_of_false (by rintro ⟨⟩) ?_
    rintro ⟨_, _, _, ⟨⟩, -⟩

/-- The setting for messages can be read once the output was set. -/
theorem debugging_of_compile (hc : (compile o).perform s = (.ok (), t)) :
    ∃ wanted, Settings.debugging t.host = .ok wanted := by
  rw [compile_eq_sequence, Options.calls, Session.sequence] at hc
  obtain ⟨m, -, hlast⟩ := Action.forM_append_ok hc
  obtain ⟨m', hout, hnil⟩ := Action.forM_cons_ok hlast
  cases hnil
  rcases hd : Settings.debugging m.host with fault | wanted
  · have hfails := Session.Call.perform_of_unreadable (c := .output o.output {}) rfl hd
    rw [hfails] at hout
    cases hout
  · have hcontinues := (Session.Call.at_action _ m).leads_of_perform hout
    exact ⟨wanted, hcontinues.host.debugging.trans hd⟩

/-- An execution with a readable setting for messages fails with no error just if the machine does not
    tell whether the input is there. -/
theorem execute_escapes_iff (he : e.Reports) {wanted : Bool}
    (hd : Settings.debugging s.host = .ok wanted) (hf : f.Escapes) :
    ((execute e).perform s).1 = .error f ↔ ∃ path fault, f = .machine fault ∧
      s.input = some path ∧ s.host.pathExists path = .error fault := by
  rcases hin : s.input with _ | path
  · rw [Session.execute_of_no_input e hin]
    refine iff_of_false (by rintro ⟨⟩; exact hf) ?_
    rintro ⟨path, fault, -, ⟨⟩, -⟩
  have hinput : s.input.isSome = true := by rw [hin]; rfl
  have hpath : s.input.getD "" = path := by rw [hin]; rfl
  rcases hasks : s.host.pathExists path with fault | isThere
  · rw [Session.execute_of_unanswered e hinput (hpath ▸ hasks)]
    constructor
    · rintro ⟨⟩
      exact ⟨path, fault, rfl, rfl, hasks⟩
    · rintro ⟨path', fault', rfl, ⟨⟩, hfault⟩
      rw [hasks] at hfault
      cases hfault
      rfl
  · have hexecution := Session.execution_execute e hinput
    obtain ⟨x, hx⟩ := hexecution.outcome_eq he hd (by rw [hpath, hasks]; rintro fault ⟨⟩)
    rw [hx]
    constructor
    · intro herror
      cases x with
      | ok result => cases herror
      | error error => cases herror; exact hf.elim
    · rintro ⟨path', fault', rfl, ⟨⟩, hfault⟩
      rw [hasks] at hfault
      cases hfault

/-- Fulfilling the options fails with no error just if a call is stuck or the input is not told of. -/
theorem fulfil_escapes_iff (he : e.Reports) (hf : f.Escapes) :
    ((fulfil o e).perform (start so h)).1 = .error f ↔
      o.Stuck so h f ∨ ∃ fault, f = .machine fault ∧ o.Unanswered so h fault := by
  rw [← compile_escapes_iff hf]
  unfold Options.Unanswered
  rcases hc : (compile o).perform (start so h) with ⟨f' | _, t⟩
  · rw [fulfil_error hc]
    refine (or_iff_left ?_).symm
    rintro ⟨fault, -, -, u, path, ⟨⟩, -⟩
  rw [or_iff_right (by rintro ⟨⟩)]
  cases ho : o.dryRun with
  | true =>
    rw [fulfil_dry ho hc]
    refine iff_of_false ?_ (by rintro ⟨fault, -, ⟨⟩, -⟩)
    rcases hb : build.perform t with ⟨f | c, u⟩
    · obtain ⟨error, rfl, -⟩ := Session.build_error hb
      rintro ⟨⟩
      exact hf
    · rintro ⟨⟩
  | false =>
    obtain ⟨wanted, hd⟩ := debugging_of_compile hc
    have hexecute := execute_escapes_iff he hd hf
    have hsame : ((fulfil o e).perform (start so h)).1 = .error f ↔
        ((execute e).perform t).1 = .error f := by
      rw [fulfil_real ho hc]
      rcases (execute e).perform t with ⟨f' | result, u⟩
      · constructor <;> (rintro ⟨⟩; rfl)
      · exact iff_of_false (by rintro ⟨⟩) (by rintro ⟨⟩)
    rw [hsame, hexecute]
    constructor
    · rintro ⟨path, fault, rfl, hpath, hasks⟩
      exact ⟨fault, rfl, rfl, t, path, rfl, hpath, hasks⟩
    · rintro ⟨fault, rfl, -, u, path, ⟨⟩, hpath, hasks⟩
      exact ⟨path, fault, rfl, hpath, hasks⟩

/-- A run fails just as the options are not fulfilled for another reason than an error, or because an
    error cannot be reported. -/
theorem run_error_iff : ((run o e).perform (start so h)).1 = .error f ↔
    (f.Escapes ∧ ((fulfil o e).perform (start so h)).1 = .error f) ∨
      ∃ fault, f = .setting fault ∧ o.Mute e so h fault := by
  rw [perform_run]
  unfold Options.Mute
  rcases (fulfil o e).perform (start so h) with ⟨(error | fault | fault) | _, t⟩
  · change ((report error).perform t.host).1 = .error f ↔ _
    rw [report_error_iff]
    constructor
    · rintro ⟨command, output, fault, rfl, hd, rfl⟩
      exact .inr ⟨fault, rfl, command, output, t, rfl, hd⟩
    · rintro (⟨hf, ⟨⟩⟩ | ⟨fault, rfl, command, output, u, ⟨⟩, hd⟩)
      · exact hf.elim
      · exact ⟨command, output, fault, rfl, hd, rfl⟩
  · rw [or_iff_left (by rintro ⟨fault, -, command, output, u, ⟨⟩, -⟩)]
    constructor
    · rintro ⟨⟩
      exact ⟨trivial, rfl⟩
    · rintro ⟨-, ⟨⟩⟩
      rfl
  · rw [or_iff_left (by rintro ⟨fault, -, command, output, u, ⟨⟩, -⟩)]
    constructor
    · rintro ⟨⟩
      exact ⟨trivial, rfl⟩
    · rintro ⟨-, ⟨⟩⟩
      rfl
  · refine iff_of_false (by rintro ⟨⟩) ?_
    rintro (⟨-, ⟨⟩⟩ | ⟨fault, -, command, output, u, ⟨⟩, -⟩)

/-- The setting for messages stays readable through an execution by an executor that leaves the
    environment as it is. -/
theorem debugging_of_execute
    (henv : ∀ c h, ((e.execute c).perform h).2.environment = h.environment) {wanted : Bool}
    (hd : Settings.debugging s.host = .ok wanted) {command output : String}
    (hx : (execute e).perform s = (.error (.reported (.executionFailed command output)), t)) :
    Settings.debugging t.host = .ok wanted := by
  have hin : s.input.isSome = true := by
    by_contra hnone
    rw [Session.execute_of_no_input e (by simpa using hnone)] at hx
    cases hx
  have hexecution := Session.execution_execute e hin
  rw [hx] at hexecution
  generalize hout : (Except.error (.reported (.executionFailed command output)) :
    Except Failure ExecutionResult) = outcome at hexecution
  cases hexecution with
  | unanswered hasks => cases hout
  | unreadable hm hdebugging => cases hout
  | refused error hm hrefusal hclean => cases hout; cases hrefusal
  | broken hm hescapes hexecute => cases hout; exact hescapes.elim
  | @ended m _ c host outcome hm hbuilt hexecute hclean =>
    have hleft := henv c m.host
    rw [hexecute] at hleft
    calc Settings.debugging t.host
        = Settings.debugging host := hclean.host.debugging
      _ = Settings.debugging m.host := Settings.debugging_congr hleft
      _ = Settings.debugging s.host := hm.host.debugging
      _ = .ok wanted := hd

/-- It takes an executor that changes the environment to make a report fail. -/
theorem not_mute_of_environment
    (henv : ∀ c h, ((e.execute c).perform h).2.environment = h.environment)
    {fault : Integer.Fault} : ¬ o.Mute e so h fault := by
  rintro ⟨command, output, t, hf, hunread⟩
  have hcompile := (at_compile o (start so h)).allows
  rcases hc : (compile o).perform (start so h) with ⟨f | _, s⟩
  · rw [fulfil_error hc] at hf
    cases hf
    have hrefusal := hcompile _ (by rw [hc])
    cases hrefusal
  cases ho : o.dryRun with
  | true =>
    rw [fulfil_dry ho hc] at hf
    rcases hb : build.perform s with ⟨f | c, u⟩
    · obtain ⟨error, rfl, hrefusal⟩ := Session.build_error hb
      rw [hb] at hf
      cases hf
      cases hrefusal
    · rw [hb] at hf; cases hf
  | false =>
    rw [fulfil_real ho hc] at hf
    rcases hx : (execute e).perform s with ⟨f | result, u⟩
    · rw [hx] at hf
      cases hf
      obtain ⟨wanted, hd⟩ := debugging_of_compile hc
      rw [debugging_of_execute henv hd hx] at hunread
      cases hunread
    · rw [hx] at hf; cases hf

/-- With settings that give no options for the session, the run is blocked by them alone. -/
theorem blocked_iff_of_error {f' : Failure} (hs : SessionOptions.ofSettings h = .error f) :
    Blocked o e h f' ↔ f' = f := by
  constructor
  · intro hb
    have hsame : SessionOptions.ofSettings h = .error f' := by
      cases hb with
      | directory hgone => exact ofSettings_error_iff.mpr (.inl ⟨_, rfl, hgone⟩)
      | overwrite hpath hoverwrite =>
        exact ofSettings_error_iff.mpr (.inr ⟨_, hpath, .inl ⟨_, rfl, hoverwrite⟩⟩)
      | banner hpath hoverwrite hbanner =>
        exact ofSettings_error_iff.mpr (.inr ⟨_, hpath, .inr ⟨_, hoverwrite, _, rfl, hbanner⟩⟩)
      | call hok => rw [hs] at hok; cases hok
      | input hok => rw [hs] at hok; cases hok
      | report hok => rw [hs] at hok; cases hok
    rw [hs] at hsame
    cases hsame
    rfl
  · rintro rfl
    rcases ofSettings_error_iff.mp hs with ⟨fault, rfl, hgone⟩ |
      ⟨path, hpath, ⟨fault, rfl, hoverwrite⟩ | ⟨wanted, hoverwrite, fault, rfl, hbanner⟩⟩
    · exact .directory hgone
    · exact .overwrite hpath hoverwrite
    · exact .banner hpath hoverwrite hbanner

theorem blocked_iff_of_ok (hs : SessionOptions.ofSettings h = .ok so) :
    Blocked o e h f ↔ (o.Stuck so h f ∨ ∃ fault, f = .machine fault ∧ o.Unanswered so h fault) ∨
      ∃ fault, f = .setting fault ∧ o.Mute e so h fault := by
  have hnot {f : Failure} : SessionOptions.ofSettings h ≠ .error f := by rw [hs]; rintro ⟨⟩
  constructor
  · intro hb
    cases hb with
    | directory hgone => exact absurd (ofSettings_error_iff.mpr (.inl ⟨_, rfl, hgone⟩)) hnot
    | overwrite hpath hoverwrite =>
      exact absurd (ofSettings_error_iff.mpr (.inr ⟨_, hpath, .inl ⟨_, rfl, hoverwrite⟩⟩)) hnot
    | banner hpath hoverwrite hbanner =>
      exact absurd
        (ofSettings_error_iff.mpr (.inr ⟨_, hpath, .inr ⟨_, hoverwrite, _, rfl, hbanner⟩⟩)) hnot
    | call hok hstuck => rw [hs] at hok; cases hok; exact .inl (.inl hstuck)
    | input hok hasks => rw [hs] at hok; cases hok; exact .inl (.inr ⟨_, rfl, hasks⟩)
    | report hok hmute => rw [hs] at hok; cases hok; exact .inr ⟨_, rfl, hmute⟩
  · rintro ((hstuck | ⟨fault, rfl, hasks⟩) | ⟨fault, rfl, hmute⟩)
    · exact .call hs hstuck
    · exact .input hs hasks
    · exact .report hs hmute

theorem Blocked.escapes (hb : Blocked o e h f) : f.Escapes := by
  cases hb with
  | call _ hstuck =>
    obtain ⟨before, c, behind, s, -, -, hblocked⟩ := hstuck
    exact hblocked.escapes
  | _ => trivial

/-- A run fails if it is blocked, and in no other way. -/
theorem error_iff_blocked (he : e.Reports) (o : Options) (h : Host) (f : Failure) :
    ((runOnHost o e).perform h).1 = .error f ↔ Blocked o e h f := by
  rcases hs : SessionOptions.ofSettings h with f' | so
  · rw [perform_runOnHost_of_error hs, blocked_iff_of_error hs, Except.error.injEq]
    exact eq_comm
  have hstart := Session.ofSettings_eq_start_iff.mpr hs
  rw [perform_runOnHost hstart]
  change ((run o e).perform (start so h)).1 = .error f ↔ _
  rw [run_error_iff]
  constructor
  · rintro (⟨hf, hfails⟩ | hmute)
    · exact (blocked_iff_of_ok hs).mpr (.inl ((fulfil_escapes_iff he hf).mp hfails))
    · exact (blocked_iff_of_ok hs).mpr (.inr hmute)
  · intro hb
    rcases (blocked_iff_of_ok hs).mp hb with hstops | hmute
    · exact .inl ⟨hb.escapes, (fulfil_escapes_iff he hb.escapes).mpr hstops⟩
    · exact .inr hmute

/-- **What leaves a run.** Whatever is asked for, and on whatever host, a run ends with an exit code
    unless it needs a setting that is no integer or asks what the machine does not answer. Then it
    fails, and with nothing else than the fault of that setting or of the machine. A report is in the
    way only with an executor that changes the environment. -/
theorem ends_iff_not_blocked (he : e.Reports) (o : Options) (h : Host) :
    ((∃ code, ((runOnHost o e).perform h).1 = .ok code) ↔ ¬ ∃ f, Blocked o e h f) ∧
      (∀ f, ((runOnHost o e).perform h).1 = .error f ↔ Blocked o e h f) ∧
      ((∀ c h, ((e.execute c).perform h).2.environment = h.environment) →
        ∀ so fault, ¬ o.Mute e so h fault) := by
  have herror (f : Failure) := error_iff_blocked he o h f
  refine ⟨?_, herror, fun henv so fault => not_mute_of_environment henv⟩
  rcases hrun : ((runOnHost o e).perform h).1 with f | code
  · refine iff_of_false (by rintro ⟨code, ⟨⟩⟩) (not_not_intro ⟨f, ?_⟩)
    exact (herror f).mp hrun
  · refine iff_of_true ⟨code, rfl⟩ ?_
    rintro ⟨f, hblocked⟩
    have hfails := (herror f).mpr hblocked
    rw [hrun] at hfails
    cases hfails

/-- A distance that cannot be read blocks a caption at an anchor and no other. -/
theorem ends_iff_not_blocked_at_anchor :
    let asked (anchor : Option Anchor) : Options :=
      { input := some "in.mp4", output := "out.mp4", dryRun := true
        caption := some { text := "Hi", place := { anchor } } }
    let h : Host := { environment := [("OVERLAY_PADDING", "wide")] }
    let e := ({} : Rehearsal).executor
    e.Reports ∧ ¬ (∃ f, Blocked (asked none) e h f) ∧
      Blocked (asked (some .topLeft)) e h (.setting .notANumber) := by
  intro asked h e
  have he : e.Reports := (Rehearsal.runsPrograms _).reports
  have hends : ((runOnHost (asked none) e).perform h).1 = .ok .success := by decide +kernel
  have hfails : ((runOnHost (asked (some .topLeft)) e).perform h).1 =
      .error (.setting .notANumber) := by decide +kernel
  exact ⟨he, (ends_iff_not_blocked he _ h).1.mp ⟨_, hends⟩,
    ((ends_iff_not_blocked he _ h).2.1 _).mp hfails⟩

/-- A word where a number should say whether outputs are overwritten leaves even a dry run. -/
theorem overwrite_word_leaves_run :
    let o : Options := { input := some "in.mp4", output := "out.mp4", dryRun := true }
    let h : Host :=
      { environment := [("OVERWRITE_OUTPUT", "yes")]
        tree := { entries := [(["in.mp4"], .file "" false)] } }
    let e := ({} : Rehearsal).executor
    e.Reports ∧ ((runOnHost o e).perform h).1 = .error (.setting .notANumber) ∧
      ¬ ∃ code, ((runOnHost o e).perform h).1 = .ok code := by
  intro o h e
  have hfails : ((runOnHost o e).perform h).1 = .error (.setting .notANumber) := by decide +kernel
  refine ⟨(Rehearsal.runsPrograms _).reports, hfails, ?_⟩
  rintro ⟨code, hends⟩
  rw [hfails] at hends
  cases hends

end CommandLine

end Montage

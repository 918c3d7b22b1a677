import Montage.Proofs.Execution

/-!
# The phases of a session

As far as list files are concerned a session goes through three phases. Without an input it keeps
nothing. With an input, every demuxer concatenation that it keeps owns its list file. After an execution
no operation owns a list file, and none is written any more. Others who change files do not take a
session from one phase to another.

* `KeptOperation.Owns`: an operation owns its list file if it writes one.
* `KeptOperation.Stands`: what an operation owns stands in the folder.
* `Session.Step`, `Session.after`: what happens to a session, step by step. A step that fails leaves
  its session to the next.
* `Session.AllSpare`: steps that leave the folder of the lists alone.
* `Session.Phase`: the phases.

Results:
* `Session.Phase.step`: every step goes from one phase to the same or to a later one.
* `Session.phase_after`, `Session.unspent_after`: the phases that a new session reaches, and those
  that it reaches without an execution.
* `Session.Phase.stands_after`: while the folder is left alone, the lists that are owned stand in it.
-/

namespace Montage

/-- A demuxer concatenation owns its list file, any other operation none. -/
structure KeptOperation.Owns (k : KeptOperation) (folder : String) : Prop where
  isSome : k.listFile.isSome = k.operation.list?.isSome
  named : ∀ path, k.listFile = some path → IsListPath folder path

/-- The list file that an operation owns stands in the folder, with its content. -/
def KeptOperation.Stands (k : KeptOperation) (folder : String) (h : Host) : Prop :=
  ∀ path, k.listFile = some path →
    ∃ c, k.operation.list? = some c ∧ c.tempFolder = folder ∧ c.Lists path h

namespace KeptOperation

variable {k : KeptOperation} {folder : String} {h h' : Host}

/-- An operation that writes no list file owns none. -/
theorem owns_of_list? (hlist : k.operation.list? = none) (hnone : k.listFile = none) :
    k.Owns folder :=
  ⟨by rw [hlist, hnone]; rfl, fun path hpath => by rw [hnone] at hpath; cases hpath⟩

theorem stands_of_none (hnone : k.listFile = none) : k.Stands folder h := by
  intro path hpath
  rw [hnone] at hpath
  cases hpath

theorem Stands.continues {still : Prop} (hk : k.Stands folder h) (hh : h.Continues still h')
    (hs : still) : k.Stands folder h' := by
  intro path hpath
  obtain ⟨c, hlist, hfolder, hlists⟩ := hk path hpath
  exact ⟨c, hlist, hfolder, hlists.continues hh hs⟩

/-- It stays while others leave the folder alone. -/
theorem Stands.spared (hk : k.Stands folder h) (hh : h.Spared folder h')
    (hd : h'.directory = h.directory) : k.Stands folder h' := by
  intro path hpath
  obtain ⟨c, hlist, rfl, hlists⟩ := hk path hpath
  refine ⟨c, hlist, rfl, hlists.named, ?_, hh.isFolder hlists.folder⟩
  rw [hh.find hlists.folder path hlists.named, Concatenation.listContent_congr hd]
  exact hlists.file

end KeptOperation

theorem Concatenation.inputs_ne_nil_of_ofRequest {r : ConcatRequest} {folder : String} {h : Host}
    {c : Concatenation} (hc : ofRequest r folder h = .ok c) : c.inputs ≠ [] := by
  obtain ⟨_, strategy, -, hcheck, -, rfl⟩ := ofRequest_eq_ok.mp hc
  exact inputs_ne_nil_of_check hcheck

/-- A concatenation that was added gives the command its primary input. It owns its list file if it
    writes one, and the file stands in the folder. -/
theorem Bench.add_concat_ok {c : Concatenation} {b b' : Bench} (hfolder : c.tempFolder ≠ "")
    (hnone : b.listFile = none) (h : (Bench.add (.concat c)).perform b = (.ok (), b')) :
    b'.draft.hasInput = true ∧
      (KeptOperation.mk (.concat c) b'.listFile).Owns c.tempFolder ∧
      (KeptOperation.mk (.concat c) b'.listFile).Stands c.tempFolder b'.host := by
  obtain ⟨hcheck, hedits⟩ := Bench.add_ok h
  have hcheck : c.check b.host = .ok () := hcheck
  rw [Bench.perform_add] at h
  simp only [Operation.check, hcheck, Operation.apply, Concatenation.apply] at h
  cases hs : c.strategy with
  | filter =>
    simp only [hs, c.perform_applyFilter] at h
    cases h
    have hlist : (Operation.concat c).list? = none := by simp [Operation.list?, hs]
    refine ⟨?_, KeptOperation.owns_of_list? hlist hnone, KeptOperation.stands_of_none hnone⟩
    obtain ⟨extra, hadded⟩ := Concatenation.addInputs_draft c.inputs b.draft
    obtain ⟨path, rest, hinputs⟩ :=
      List.exists_cons_of_ne_nil (Concatenation.inputs_ne_nil_of_check hcheck)
    rw [Draft.hasInput, c.joined_command, hadded, hinputs]
    cases b.draft.command.input <;> rfl
  | demuxer =>
    simp only [hs] at h
    obtain ⟨path, hpath, hlists⟩ := Concatenation.applyDemuxer_ok hfolder h
    simp only [Operation.Edits, hs] at hedits
    obtain ⟨-, path', -, hdraft⟩ := hedits
    have hlist : (Operation.concat c).list? = some c := by simp [Operation.list?, hs]
    refine ⟨by rw [hdraft]; rfl, ⟨?_, ?_⟩, ?_⟩
    · rw [hlist, hpath]; rfl
    · intro p hp
      cases hpath.symm.trans hp
      exact hlists.named
    · intro p hp
      cases hpath.symm.trans hp
      exact ⟨c, hlist, rfl, hlists⟩

namespace Session

/-! ## Steps -/

/-- What can happen to a session. Executions may have executors of their own. -/
inductive Step where
  | call (c : Call)
  | build
  | execute (e : Executor)
  /-- Others change files, and time passes. -/
  | elsewhere (tree : Tree) (clock : Nat)

/-- The session after a step, also after one that failed. -/
def Step.after (s : Session) : Step → Session
  | call c => (c.action.perform s).2
  | build => (Session.build.perform s).2
  | execute e => ((Session.execute e).perform s).2
  | elsewhere tree clock => { s with host := { s.host with tree, clock } }

/-- The session after several steps. -/
def after (s : Session) (steps : List Step) : Session := steps.foldl Step.after s

theorem after_append (s : Session) (steps steps' : List Step) :
    after s (steps ++ steps') = after (after s steps) steps' := List.foldl_append

/-- In a step, executors and others leave a folder and the list files in it as they are. -/
def Step.Spares (folder : String) (s : Session) : Step → Prop
  | call _ | build => True
  | execute e => e.Spares folder
  | elsewhere tree clock => s.host.Spared folder { s.host with tree, clock }

/-- They do so in every one of several steps. -/
def AllSpare (folder : String) : Session → List Step → Prop
  | _, [] => True
  | s, step :: rest => step.Spares folder s ∧ AllSpare folder (step.after s) rest

variable {o : SessionOptions} {folder : String} {s s' m : Session}

/-- A session without an input. -/
structure Fresh (o : SessionOptions) (folder : String) (s : Session) : Prop where
  options : s.options = o
  input : s.input = none
  kept : s.kept = []
  folder : o.listFolder s.host = folder

/-- A session with an input that was not executed. -/
structure Going (o : SessionOptions) (folder : String) (s : Session) : Prop where
  options : s.options = o
  input : s.input.isSome = true
  hasInput : s.draft.hasInput = true
  debugging : ∃ wanted, Settings.debugging s.host = .ok wanted
  kept : ∀ k ∈ s.kept, k.Owns folder

/-- A session whose list files were removed. -/
structure Done (o : SessionOptions) (s : Session) : Prop where
  options : s.options = o
  input : s.input.isSome = true
  hasInput : s.draft.hasInput = true
  kept : ∀ k ∈ s.kept, k.listFile = none

/-- The phases before an execution. -/
def Unspent (o : SessionOptions) (folder : String) (s : Session) : Prop :=
  Fresh o folder s ∨ Going o folder s

/-- The phases with an input. -/
def Begun (o : SessionOptions) (folder : String) (s : Session) : Prop :=
  Going o folder s ∨ Done o s

theorem Begun.given (h : Begun o folder s) :
    s.options = o ∧ s.input.isSome = true ∧ s.draft.hasInput = true := by
  rcases h with h | h
  · exact ⟨h.options, h.input, h.hasInput⟩
  · exact ⟨h.options, h.input, h.hasInput⟩

/-- All phases. -/
def Phase (o : SessionOptions) (folder : String) (s : Session) : Prop :=
  Fresh o folder s ∨ Begun o folder s

theorem fresh_start (o : SessionOptions) (h : Host) : Fresh o (o.listFolder h) (start o h) :=
  ⟨rfl, rfl, rfl, rfl⟩

theorem Fresh.lists (h : Fresh o folder s) : s.lists = [] := by
  rw [Session.lists, h.kept]; rfl

theorem Done.lists (h : Done o s) : s.lists = [] := by
  rw [Session.lists, List.filterMap_eq_nil_iff]
  exact h.kept

theorem Going.named {path : String} (h : Going o folder s) (hp : path ∈ s.lists) :
    IsListPath folder path := by
  obtain ⟨k, hk, hpath⟩ := mem_lists.mp hp
  exact (h.kept k hk).named path hpath

/-- The list files that are owned stand in the folder. -/
def Stands (folder : String) (s : Session) : Prop := ∀ k ∈ s.kept, k.Stands folder s.host

theorem Stands.lists {path : String} (h : s.Stands folder) (hp : path ∈ s.lists) :
    ∃ c : Concatenation, c.tempFolder = folder ∧ c.Lists path s.host := by
  obtain ⟨k, hk, hpath⟩ := mem_lists.mp hp
  obtain ⟨c, -, hfolder, hlists⟩ := h k hk path hpath
  exact ⟨c, hfolder, hlists⟩

theorem stands_of_kept_nil (h : s.kept = []) : s.Stands folder := by
  intro k hk
  rw [h] at hk
  cases hk

theorem Done.stands (h : Done o s) : s.Stands folder := fun k hk =>
  KeptOperation.stands_of_none (h.kept k hk)

theorem Fresh.readies (h : Fresh o folder s) (hm : s.Readies m) : Fresh o folder m :=
  ⟨hm.options.trans h.options, hm.input.trans h.input, hm.kept.trans h.kept,
    by rw [o.listFolder_congr hm.host, h.folder]⟩

theorem Going.continues (h : Going o folder s) (hs : s.Continues s') : Going o folder s' := by
  have hinput := hs.input h.input
  refine ⟨hs.options.trans h.options, by rw [hinput]; exact h.input, hs.hasInput h.hasInput,
    by rw [hs.host.debugging]; exact h.debugging, ?_⟩
  obtain ⟨more, hmore, hfree⟩ := hs.kept
  rw [hmore]
  intro k hk
  rcases List.mem_append.mp hk with hk | hk
  · exact h.kept k hk
  · obtain ⟨hlist, hnone⟩ := hfree h.hasInput k hk
    exact KeptOperation.owns_of_list? hlist hnone

theorem Done.continues (h : Done o s) (hs : s.Continues s') : Done o s' := by
  have hinput := hs.input h.input
  refine ⟨hs.options.trans h.options, by rw [hinput]; exact h.input, hs.hasInput h.hasInput, ?_⟩
  obtain ⟨more, hmore, hfree⟩ := hs.kept
  rw [hmore]
  intro k hk
  rcases List.mem_append.mp hk with hk | hk
  · exact h.kept k hk
  · exact (hfree h.hasInput k hk).2

/-- Once there is an input, calls write no list file and leave those alone that there are. -/
theorem Stands.continues (h : s.Stands folder) (hs : s.Continues s')
    (hin : s.draft.hasInput = true) : s'.Stands folder := by
  obtain ⟨more, hmore, hfree⟩ := hs.kept
  unfold Stands
  rw [hmore]
  intro k hk
  rcases List.mem_append.mp hk with hk | hk
  · exact (h k hk).continues hs.host hin
  · exact KeptOperation.stands_of_none (hfree hin k hk).2

/-! ## From one phase to the next -/

/-- A session to which a call adds nothing stays without an input. -/
theorem Fresh.stays (h : Fresh o folder s) (hs : s.Continues s') (hinput : s'.input = s.input)
    (hkept : s'.kept = s.kept) : Fresh o folder s' :=
  ⟨hs.options.trans h.options, hinput.trans h.input, hkept.trans h.kept,
    by rw [o.listFolder_congr hs.host, h.folder]⟩

theorem debugging_of_onHost_debug {message : String}
    (h : (onHost (Log.debug message)).perform s = (.ok (), s')) :
    ∃ wanted, Settings.debugging s.host = .ok wanted := by
  rw [onHost, Action.perform_within, Log.perform_debug] at h
  rcases hd : Settings.debugging s.host with fault | wanted
  · rw [hd] at h; cases h
  · exact ⟨wanted, rfl⟩

theorem debugging_of_setInput {path : String} (h : (setInput path).perform s = (.ok (), s')) :
    ∃ wanted, Settings.debugging s.host = .ok wanted := by
  unfold setInput at h
  rw [Action.perform_bind, Action.perform_get] at h
  cases hi : s.input with
  | some given => simp [hi, Action.perform_bind] at h
  | none =>
    simp only [hi, Option.isSome_none, Bool.false_eq_true, if_false] at h
    obtain ⟨⟨⟩, t, hlog, -⟩ := Action.bind_ok h
    exact debugging_of_onHost_debug hlog

/-- A concatenation that is kept owns its list file if it writes one. -/
theorem keep_concat_ok {c : Concatenation} (hfolder : c.tempFolder ≠ "")
    (h : (keep (.concat c)).perform s = (.ok (), s')) :
    (∃ wanted, Settings.debugging s.host = .ok wanted) ∧ s'.draft.hasInput = true ∧
      ∃ list, s'.kept = s.kept ++ [⟨.concat c, list⟩] ∧
        (KeptOperation.mk (.concat c) list).Owns c.tempFolder ∧
        (KeptOperation.mk (.concat c) list).Stands c.tempFolder s'.host := by
  unfold keep at h
  obtain ⟨⟨⟩, s₁, hlog, hrest⟩ := Action.bind_ok h
  have hdebugging := debugging_of_onHost_debug hlog
  obtain ⟨host, rfl⟩ := onHost_ok hlog
  obtain ⟨list, s₂, hbench, hrest⟩ := Action.bind_ok hrest
  obtain ⟨b, hb, rfl⟩ := onBench_ok hbench
  obtain ⟨⟨⟩, b₁, hadd, hb⟩ := Action.bind_ok hb
  cases hrest
  cases hb
  obtain ⟨hin, howns, hstands⟩ := Bench.add_concat_ok hfolder rfl hadd
  exact ⟨hdebugging, hin, b.listFile, rfl, howns, hstands⟩

/-- An input begins a session that keeps nothing yet. -/
theorem Fresh.going_input {path : String} (h : Fresh o folder s) (hs : s.Continues s')
    (hc : (setInput path).perform s = (.ok (), s')) : Going o folder s' ∧ s'.Stands folder := by
  obtain ⟨-, hdraft, hkept, hinput⟩ := setInput_ok hc
  have hnone : s'.kept = [] := hkept.trans h.kept
  refine ⟨⟨hs.options.trans h.options, by rw [hinput]; rfl, by rw [hdraft]; rfl, ?_,
    by simp [hnone]⟩, stands_of_kept_nil hnone⟩
  rw [hs.host.debugging]
  exact debugging_of_setInput hc

/-- A concatenation begins a session that keeps it, with its list file. -/
theorem Fresh.going_concat {r : ConcatRequest} (h : Fresh o folder s) (hs : s.Continues s')
    (hc : (Session.concat r).perform s = (.ok (), s')) :
    Going o folder s' ∧ s'.Stands folder := by
  obtain ⟨c, t, hmade, hkeep, rfl⟩ := concat_keep hc
  have htemp : c.tempFolder = folder := by
    rw [h.options] at hmade
    rw [Concatenation.tempFolder_of_ofRequest hmade, h.folder]
  have hne : c.tempFolder ≠ "" := by
    rw [htemp, ← h.folder]
    exact o.listFolder_ne_empty s.host
  obtain ⟨hdebugging, hin, list, hkept, howns, hstands⟩ := keep_concat_ok hne hkeep
  have hone : t.kept = [⟨.concat c, list⟩] := by rw [hkept, h.kept]; rfl
  obtain ⟨path, rest, hinputs⟩ : ∃ path rest, r.inputs = path :: rest := by
    rw [← (Concatenation.ofRequest_ok hmade).1]
    exact List.exists_cons_of_ne_nil (Concatenation.inputs_ne_nil_of_ofRequest hmade)
  rw [htemp] at howns hstands
  refine ⟨⟨hs.options.trans h.options, ?_, hin, by rw [hs.host.debugging]; exact hdebugging, ?_⟩, ?_⟩
  · rw [hinputs]
    cases t.input <;> rfl
  · simp only [hone, List.forall_mem_singleton]
    exact howns
  · simp only [Stands, hone, List.forall_mem_singleton]
    exact hstands

/-- From a session without an input a call leads to one with an input, or nothing is kept. -/
theorem Fresh.call (h : Fresh o folder s) (c : Call) :
    Unspent o folder (Step.after s (.call c)) ∧ (Step.after s (.call c)).Stands folder := by
  have hs := (c.at_action s).leads
  change s.Continues _ at hs
  rw [Step.after]
  rcases hc : c.action.perform s with ⟨f | _, s'⟩
  · rw [hc] at hs
    obtain ⟨hkept, hinput⟩ := Call.error hc
    exact ⟨.inl (h.stays hs hinput hkept), stands_of_kept_nil (hkept.trans h.kept)⟩
  rw [hc] at hs
  cases c with
  | input path => exact (h.going_input hs hc).imp .inr id
  | concat r => exact (h.going_concat hs hc).imp .inr id
  | add op =>
    obtain ⟨hsome, -⟩ := add_ok hc
    rw [h.input] at hsome
    cases hsome
  | output path options =>
    obtain ⟨-, hkept, hinput⟩ := setOutput_ok hc
    exact ⟨.inl (h.stays hs hinput hkept), stands_of_kept_nil (hkept.trans h.kept)⟩

/-! ## Others -/

section

variable (tree : Tree) (clock : Nat)

/-- Others change neither the settings nor what the session keeps. -/
theorem Fresh.elsewhere (h : Fresh o folder s) :
    Fresh o folder (Step.after s (.elsewhere tree clock)) :=
  ⟨h.options, h.input, h.kept, h.folder⟩

theorem Going.elsewhere (h : Going o folder s) :
    Going o folder (Step.after s (.elsewhere tree clock)) :=
  ⟨h.options, h.input, h.hasInput, h.debugging, h.kept⟩

theorem Done.elsewhere (h : Done o s) : Done o (Step.after s (.elsewhere tree clock)) :=
  ⟨h.options, h.input, h.hasInput, h.kept⟩

end

/-! ## Executions -/

theorem CleansTo.done (h : m.CleansTo s') (hoptions : m.options = o)
    (hinput : m.input.isSome = true) (hin : m.draft.hasInput = true) : Done o s' := by
  have hkept := h.kept
  obtain ⟨t, ⟨host, -, rfl⟩, ⟨host', -, rfl⟩⟩ := h
  refine ⟨hoptions, hinput, hin, ?_⟩
  rw [hkept]
  intro k hk
  obtain ⟨k', -, rfl⟩ := List.mem_map.mp hk
  rfl

/-- An execution that does not clean up had no list file to remove. -/
theorem Begun.done_of_fault (hs : Begun o folder s) (hm : s.Readies m) {fault : Integer.Fault}
    (hd : Settings.debugging s.host = .error fault) :
    Done o m ∧ m.kept = s.kept.map KeptOperation.released := by
  rcases hs with hs | hs
  · obtain ⟨wanted, hwanted⟩ := hs.debugging
    rw [hwanted] at hd
    cases hd
  · have hreleased : ∀ k ∈ s.kept, k.released = id k := fun k hk =>
      KeptOperation.released_of_none (hs.kept k hk)
    refine ⟨⟨hm.options.trans hs.options, by rw [hm.input]; exact hs.input,
      hm.hasInput hs.hasInput, by rw [hm.kept]; exact hs.kept⟩, ?_⟩
    rw [hm.kept, List.map_congr_left hreleased, List.map_id]

/-- An execution of a session with an input does nothing, because the machine does not answer, or it
    leaves no list file owned. The operations that are kept stay. -/
theorem Execution.done {e : Executor} {outcome : Except Failure ExecutionResult}
    (h : Execution e s outcome s') (hreports : e.Reports) (hs : Begun o folder s) :
    (s' = s ∧ ∃ fault, s.host.pathExists (s.input.getD "") = .error fault) ∨
      (Done o s' ∧ s'.kept = s.kept.map KeptOperation.released) := by
  obtain ⟨hoptions, hinput, hin⟩ := hs.given
  have hready {m : Session} (hm : s.Readies m) :
      m.options = o ∧ m.input.isSome = true ∧ m.draft.hasInput = true :=
    ⟨hm.options.trans hoptions, by rw [hm.input]; exact hinput, hm.hasInput hin⟩
  cases h with
  | unanswered hasks => exact .inl ⟨rfl, _, hasks⟩
  | unreadable hm hd => exact .inr (hs.done_of_fault hm hd)
  | refused error hm hrefusal hclean =>
    obtain ⟨hoptions, hinput, hin⟩ := hready hm
    exact .inr ⟨hclean.done hoptions hinput hin, by rw [hclean.kept, hm.kept]⟩
  | ended outcome hm hbuilt hexecute hclean =>
    obtain ⟨hoptions, hinput, hin⟩ := hready hm
    refine .inr ⟨hclean.done hoptions hinput hin, ?_⟩
    rw [hclean.kept, ← hm.kept]
    rfl
  | @broken m c host f hm hescapes hexecute =>
    have hfails := congrArg Prod.fst hexecute
    cases f with
    | reported error => exact hescapes.elim
    | machine fault => exact absurd hfails (hreports.machine _ _ _)
    | setting fault =>
      have hd := hreports.setting _ _ _ hfails
      rw [hm.host.debugging] at hd
      obtain ⟨hdone, hkept⟩ := hs.done_of_fault hm hd
      exact .inr ⟨⟨hdone.options, hdone.input, hdone.hasInput, hdone.kept⟩, hkept⟩

theorem Unspent.phase (h : Unspent o folder s) : Phase o folder s := h.imp id .inl

/-- Without an execution a session does not come to its last phase. -/
theorem Unspent.step (h : Unspent o folder s) (step : Step) (hstep : ∀ e, step ≠ .execute e) :
    Unspent o folder (step.after s) := by
  cases step with
  | call c =>
    rcases h with hs | hs
    · exact (hs.call c).1
    · exact .inr (hs.continues (c.at_action s).leads)
  | build =>
    rcases h with hs | hs
    · exact .inl (hs.readies (readies_build s))
    · exact .inr (hs.continues (at_build s).leads)
  | execute e => exact absurd rfl (hstep e)
  | elsewhere tree clock =>
    exact h.imp (fun hs => hs.elsewhere tree clock) fun hs => hs.elsewhere tree clock

/-- A session with an input keeps it, and its lists until they are removed. -/
theorem Begun.step (h : Begun o folder s) (step : Step)
    (hreports : ∀ e, step = .execute e → e.Reports) : Begun o folder (step.after s) := by
  have hcontinues {s' : Session} (hs : s.Continues s') : Begun o folder s' :=
    h.imp (fun h => h.continues hs) fun h => h.continues hs
  cases step with
  | call c => exact hcontinues (c.at_action s).leads
  | build => exact hcontinues (at_build s).leads
  | execute e =>
    obtain ⟨-, hinput, -⟩ := h.given
    rcases (execution_execute e hinput).done (hreports e rfl) h with ⟨hsame, -⟩ | ⟨hdone, -⟩
    · rw [Step.after, hsame]
      exact h
    · exact .inr hdone
  | elsewhere tree clock =>
    exact h.imp (fun hs => hs.elsewhere tree clock) fun hs => hs.elsewhere tree clock

/-- Every step goes from one phase to the same or to a later one. -/
theorem Phase.step (h : Phase o folder s) (step : Step)
    (hreports : ∀ e, step = .execute e → e.Reports) : Phase o folder (step.after s) := by
  rcases h with hs | hs
  · cases step with
    | call c => exact (hs.call c).1.phase
    | build => exact .inl (hs.readies (readies_build s))
    | execute e =>
      rw [Step.after, execute_of_no_input e hs.input]
      exact .inl hs
    | elsewhere tree clock => exact .inl (hs.elsewhere tree clock)
  · exact .inr (hs.step step hreports)

/-- The list files that are owned stand in their folder after every step that leaves it alone. -/
theorem Phase.stands_step (h : Phase o folder s) (hstands : s.Stands folder) (step : Step)
    (hreports : ∀ e, step = .execute e → e.Reports) (hspares : step.Spares folder s) :
    (step.after s).Stands folder := by
  rcases h with hs | hs
  · cases step with
    | call c => exact (hs.call c).2
    | build => exact stands_of_kept_nil (hs.readies (readies_build s)).kept
    | execute e =>
      rw [Step.after, execute_of_no_input e hs.input]
      exact hstands
    | elsewhere tree clock => exact stands_of_kept_nil hs.kept
  · obtain ⟨-, hinput, hin⟩ := hs.given
    cases step with
    | call c => exact hstands.continues (c.at_action s).leads hin
    | build => exact hstands.continues (at_build s).leads hin
    | execute e =>
      rcases (execution_execute e hinput).done (hreports e rfl) hs with ⟨hsame, -⟩ | ⟨hdone, -⟩
      · rw [Step.after, hsame]
        exact hstands
      · exact hdone.stands
    | elsewhere tree clock => exact fun k hk => (hstands k hk).spared hspares rfl

end Session

end Montage

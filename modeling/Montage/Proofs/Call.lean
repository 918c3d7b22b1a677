import Mathlib.Data.List.Forall2
import Montage.Session
import Montage.Proofs.Build

/-!
# Calls

What can be called on a bench and in a session, and what a call that succeeds does to the draft.

* `Bench.sequence`, `Session.sequence`: several calls, one after the other.
* `Bench.Call.ok`: a call on a bench makes one edit.
* `Session.Call.ok`: a call of a session makes one edit, or none if it asks for nothing.
* `Bench.build_ok`, `Session.build_ok`: the arguments of the command that is built.
-/

namespace Montage

/-! ## Benches -/

namespace Bench

/-- A call on a bench. -/
inductive Call where
  | input (path : String)
  | output (path : String) (options : OutputOptions)
  | add (op : Operation)

def Call.action : Call → Action Bench Unit
  | input path => edit fun d => d.withInput path
  | output path options => edit fun d => d.withOutput path options
  | add op => Bench.add op

/-- Calls on a bench, one after the other. -/
def sequence (calls : List Call) : Action Bench PUnit := forM calls Call.action

end Bench

/-- The call that makes an edit. -/
def Edit.call : Edit → Bench.Call
  | input path => .input path
  | output path options => .output path options
  | operation op _ _ => .add op

namespace Bench

theorem Call.ok {c : Call} {b b' : Bench} (h : c.action.perform b = (.ok (), b')) :
    ∃ e : Edit, e.call = c ∧ e.Makes b.draft b'.draft := by
  cases c with
  | input path => cases h; exact ⟨.input path, rfl, rfl⟩
  | output path options => cases h; exact ⟨.output path options, rfl, rfl⟩
  | add op => exact ⟨.operation op b.host b'.listFile, rfl, add_ok h⟩

/-- Calls that succeed make as many edits. -/
theorem sequence_ok {calls : List Call} {b b' : Bench}
    (h : (sequence calls).perform b = (.ok (), b')) :
    ∃ es : List Edit, es.map Edit.call = calls ∧ Edits b.draft es b'.draft := by
  let I (calls : List Call) (m : Bench) : Prop :=
    ∃ es : List Edit, es.map Edit.call = calls ∧ Edits b.draft es m.draft
  have start : I [] b := ⟨[], rfl, rfl⟩
  refine Action.forM_invariant (I := I) start ?_ h
  rintro calls c m m' ⟨es, rfl, hes⟩ hc
  obtain ⟨e, rfl, he⟩ := Call.ok hc
  exact ⟨es ++ [e], by simp, Edits.snoc_iff.mpr ⟨m.draft, hes, he⟩⟩

/-- A build of a new draft closes the rendered command, and the output that it puts behind the
    arguments is not read. -/
theorem build_ok {b b' : Bench} {c : Command} (h : build.perform b = (.ok c, b'))
    (hnew : b.draft.isBuilt = false) (hopen : b.draft.command.isClosed = false) :
    c = b.draft.rendered.close ∧ c.read = Argument.read b.draft.rendered.arguments := by
  unfold build at h
  rw [Action.perform_bind, Action.perform_get] at h
  simp only [hnew, Bool.false_eq_true, if_false] at h
  obtain ⟨⟨⟩, b₁, hcheck, h⟩ := Action.bind_ok h
  obtain ⟨hends, rfl⟩ := Action.require_ok hcheck
  obtain ⟨h₂, hw⟩ := perform_warn b₁.draft.leftOutWarning b₁
  rw [Action.perform_bind_of_ok hw] at h
  obtain ⟨h₃, hw⟩ := perform_warn b₁.draft.repeatedFilterWarning { b₁ with host := h₂ }
  rw [Action.perform_bind_of_ok hw] at h
  cases h
  exact ⟨rfl, Draft.read_close (Command.output_of_checkEnds hends) hopen⟩

end Bench

/-! ## Sessions -/

namespace Concatenation

/-- A request that is granted has passed its three checks. -/
theorem ofRequest_eq_ok {r : ConcatRequest} {tempFolder : String} {h : Host} {c : Concatenation} :
    ofRequest r tempFolder h = .ok c ↔
      ∃ folder strategy, folderOf tempFolder h = .ok folder ∧ checkInputs r.inputs h = .ok () ∧
        strategyOf r.strategy = .ok strategy ∧ c = ⟨r.inputs, strategy, r.videoOnly, folder⟩ := by
  unfold ofRequest
  constructor
  · intro hc
    obtain ⟨folder, hfolder, hc⟩ := bind_eq_ok.mp hc
    obtain ⟨⟨⟩, hcheck, hc⟩ := bind_eq_ok.mp hc
    obtain ⟨strategy, hstrategy, hc⟩ := bind_eq_ok.mp hc
    exact ⟨folder, strategy, hfolder, hcheck, hstrategy, (pure_eq_ok.mp hc).symm⟩
  · rintro ⟨folder, strategy, hfolder, hcheck, hstrategy, rfl⟩
    rw [hfolder, ok_bind, hcheck, ok_bind, hstrategy, ok_bind]
    rfl

/-- The demuxer has to be asked for. -/
theorem strategyOf_ok {name : Option String} {strategy : ConcatStrategy}
    (h : strategyOf name = .ok strategy) : strategy = .demuxer ↔ name = some "demuxer" := by
  cases name with
  | none => cases h; simp
  | some name =>
    have hname := mapError_eq_ok.mp h
    unfold ConcatStrategy.ofName at hname
    by_cases hf : name = "filter"
    · subst hf; cases hname; simp
    by_cases hd : name = "demuxer"
    · subst hd; cases hname; simp
    · simp [hf, hd] at hname

theorem ofRequest_ok {r : ConcatRequest} {folder : String} {h : Host} {c : Concatenation}
    (hc : ofRequest r folder h = .ok c) :
    c.inputs = r.inputs ∧ (c.strategy = .demuxer ↔ r.strategy = some "demuxer") := by
  obtain ⟨_, strategy, -, -, hstrategy, rfl⟩ := ofRequest_eq_ok.mp hc
  exact ⟨rfl, strategyOf_ok hstrategy⟩

end Concatenation

namespace Session

theorem openingFlags_subset (o : SessionOptions) : openingFlags o ⊆ flagNames := by
  unfold openingFlags
  cases o.hideBanner <;> cases o.overwrite <;> decide

section Parts

variable {α : Type} {s s' : Session} {v : α}

/-- An action on the host leaves the rest of the session. -/
theorem onHost_ok {a : Action Host α} (h : (onHost a).perform s = (.ok v, s')) :
    ∃ host, s' = { s with host } := by
  rw [onHost, Action.perform_within] at h
  exact ⟨_, (congrArg Prod.snd h).symm⟩

theorem onBench_ok {a : Action Bench α} (h : (onBench a).perform s = (.ok v, s')) :
    ∃ b, a.perform ⟨s.host, s.draft, none⟩ = (.ok v, b) ∧
      s' = { s with host := b.host, draft := b.draft } := by
  rw [onBench, Action.perform_within] at h
  have hv : (a.perform ⟨s.host, s.draft, none⟩).1 = .ok v := congrArg Prod.fst h
  exact ⟨_, Prod.ext hv rfl, (congrArg Prod.snd h).symm⟩

end Parts

variable {s s' : Session}

theorem requireInput_ok (h : requireInput.perform s = (.ok (), s')) :
    s.input.isSome = true ∧ s' = s := by
  unfold requireInput at h
  rw [Action.perform_bind, Action.perform_get] at h
  cases hi : s.input with
  | none => simp [hi] at h
  | some path => simp [hi] at h; exact ⟨rfl, h.symm⟩

/-- An operation that is kept makes one edit. -/
theorem keep_ok {op : Operation} (h : (keep op).perform s = (.ok (), s')) :
    ∃ host list, (Edit.operation op host list).Makes s.draft s'.draft ∧
      s'.kept = s.kept ++ [⟨op, list⟩] ∧ s'.input = s.input := by
  unfold keep at h
  obtain ⟨⟨⟩, s₁, hlog, h⟩ := Action.bind_ok h
  obtain ⟨host, rfl⟩ := onHost_ok hlog
  obtain ⟨list, s₂, hbench, h⟩ := Action.bind_ok h
  obtain ⟨b, hb, rfl⟩ := onBench_ok hbench
  obtain ⟨⟨⟩, b₁, hadd, hb⟩ := Action.bind_ok hb
  cases h
  cases hb
  exact ⟨host, b.listFile, Bench.add_ok hadd, rfl, rfl⟩

theorem setInput_ok {path : String} (h : (setInput path).perform s = (.ok (), s')) :
    s.input = none ∧ s'.draft = s.draft.withInput path ∧ s'.kept = s.kept ∧
      s'.input = some path := by
  unfold setInput at h
  rw [Action.perform_bind, Action.perform_get] at h
  cases hi : s.input with
  | some path => simp [hi, Action.perform_bind] at h
  | none =>
    simp only [hi, Option.isSome_none, Bool.false_eq_true, if_false] at h
    obtain ⟨⟨⟩, s₁, hlog, h⟩ := Action.bind_ok h
    obtain ⟨host, rfl⟩ := onHost_ok hlog
    cases h
    exact ⟨rfl, rfl, rfl, rfl⟩

/-- A concatenation that was asked for is made and kept. -/
theorem concat_keep {r : ConcatRequest} (h : (Session.concat r).perform s = (.ok (), s')) :
    ∃ c t, Concatenation.ofRequest r s.options.tempFolder s.host = .ok c ∧
      (keep (.concat c)).perform s = (.ok (), t) ∧
      s' = { t with input := t.input <|> r.inputs.head? } := by
  unfold Session.concat at h
  rw [Action.perform_bind, Action.perform_get] at h
  obtain ⟨c, s₁, hmade, hrest⟩ := Action.bind_ok h
  obtain ⟨hc, rfl⟩ := Action.expect_ok hmade
  obtain ⟨⟨⟩, t, hkeep, hset⟩ := Action.bind_ok hrest
  cases hset
  exact ⟨c, t, hc, hkeep, rfl⟩

theorem concat_ok {r : ConcatRequest} (h : (Session.concat r).perform s = (.ok (), s')) :
    ∃ c host list, Concatenation.ofRequest r s.options.tempFolder s.host = .ok c ∧
      (Edit.operation (.concat c) host list).Makes s.draft s'.draft ∧
      s'.kept = s.kept ++ [⟨.concat c, list⟩] ∧ s'.input = (s.input <|> r.inputs.head?) := by
  obtain ⟨c, t, hc, hkeep, rfl⟩ := concat_keep h
  obtain ⟨host, list, hmakes, hkept, hinput⟩ := keep_ok hkeep
  exact ⟨c, host, list, hc, hmakes, hkept, by rw [← hinput]⟩

/-- An operation that was added is kept, unless it asks for nothing. -/
theorem add_keep {op : Operation} (hw : skipWarning op = none)
    (h : (Session.add op).perform s = (.ok (), s')) : (keep op).perform s = (.ok (), s') := by
  unfold Session.add at h
  obtain ⟨⟨⟩, s₁, hinput, hrest⟩ := Action.bind_ok h
  obtain ⟨-, rfl⟩ := requireInput_ok hinput
  simp only [hw] at hrest
  rw [Action.perform_bind, Action.perform_get] at hrest
  obtain ⟨op', s₂, hmade, hkeep⟩ := Action.bind_ok hrest
  obtain ⟨hchecked, rfl⟩ := Action.expect_ok hmade
  obtain ⟨⟨⟩, -, hop⟩ := bind_eq_ok.mp hchecked
  cases hop
  exact hkeep

/-- An operation that asks for nothing is skipped; any other is kept. -/
theorem add_ok {op : Operation} (h : (Session.add op).perform s = (.ok (), s')) :
    s.input.isSome = true ∧ s'.input = s.input ∧
      ((skipWarning op ≠ none ∧ s'.draft = s.draft ∧ s'.kept = s.kept) ∨
        (skipWarning op = none ∧ ∃ host list,
          (Edit.operation op host list).Makes s.draft s'.draft ∧
          s'.kept = s.kept ++ [⟨op, list⟩])) := by
  have hadd := h
  unfold Session.add at h
  obtain ⟨⟨⟩, s₁, hinput, hrest⟩ := Action.bind_ok h
  obtain ⟨hsome, rfl⟩ := requireInput_ok hinput
  refine ⟨hsome, ?_⟩
  rcases hw : skipWarning op with _ | warning
  · obtain ⟨host, list, hmakes, hkept, hinput⟩ := keep_ok (add_keep hw hadd)
    exact ⟨hinput, .inr ⟨rfl, host, list, hmakes, hkept⟩⟩
  · simp only [hw] at hrest
    obtain ⟨host, rfl⟩ := onHost_ok hrest
    exact ⟨rfl, .inl ⟨by simp, rfl, rfl⟩⟩

theorem setOutput_ok {path : String} {options : OutputOptions}
    (h : (setOutput path options).perform s = (.ok (), s')) :
    s'.draft = s.draft.withOutput path options ∧ s'.kept = s.kept ∧ s'.input = s.input := by
  unfold setOutput at h
  obtain ⟨⟨⟩, s₁, hlog, hrest⟩ := Action.bind_ok h
  obtain ⟨host, rfl⟩ := onHost_ok hlog
  cases hrest
  exact ⟨rfl, rfl, rfl⟩

theorem build_ok {c : Command} (h : Session.build.perform s = (.ok c, s'))
    (hnew : s.draft.isBuilt = false) (hopen : s.draft.command.isClosed = false) :
    s.input.isSome = true ∧ c = s.draft.rendered.close ∧
      c.read = Argument.read s.draft.rendered.arguments := by
  unfold Session.build at h
  obtain ⟨⟨⟩, s₁, hinput, hrest⟩ := Action.bind_ok h
  obtain ⟨hsome, rfl⟩ := requireInput_ok hinput
  rw [Action.perform_bind, Action.perform_get] at hrest
  obtain ⟨c', s₂, hbench, hrecord⟩ := Action.bind_ok hrest
  obtain ⟨b, hb, rfl⟩ := onBench_ok hbench
  obtain ⟨⟨⟩, s₃, -, hpure⟩ := Action.bind_ok hrecord
  cases hpure
  exact ⟨hsome, Bench.build_ok hb hnew hopen⟩

/-- A call of a session. -/
inductive Call where
  | input (path : String)
  | concat (r : ConcatRequest)
  | add (op : Operation)
  | output (path : String) (options : OutputOptions)

namespace Call

def action : Call → Action Session Unit
  | input path => setInput path
  | concat r => Session.concat r
  | add op => Session.add op
  | output path options => setOutput path options

/-- The row of edits is what the call makes if it succeeds. -/
def Stands : Call → List Edit → Prop
  | input path, es => es = [.input path]
  | concat r, es => ∃ c host list, es = [.operation (.concat c) host list] ∧ c.inputs = r.inputs ∧
      (c.strategy = .demuxer ↔ r.strategy = some "demuxer")
  | add op, es => (skipWarning op ≠ none ∧ es = []) ∨
      (skipWarning op = none ∧ ∃ host list, es = [.operation op host list])
  | output path options, es => es = [.output path options]

/-- How a call that succeeds changes the input of the session. -/
def Moves (given after : Option String) : Call → Prop
  | input path => given = none ∧ after = some path
  | concat r => after = (given <|> r.inputs.head?)
  | add _ => given.isSome = true ∧ after = given
  | output .. => after = given

end Call

/-- The operation that an edit keeps in the session. -/
def keptOf : Edit → Option KeptOperation
  | .operation op _ list => some ⟨op, list⟩
  | _ => none

theorem Call.ok {c : Call} (h : c.action.perform s = (.ok (), s')) :
    ∃ es, c.Stands es ∧ Edits s.draft es s'.draft ∧ s'.kept = s.kept ++ es.filterMap keptOf ∧
      c.Moves s.input s'.input := by
  cases c with
  | input path =>
    obtain ⟨hnone, hdraft, hkept, hinput⟩ := setInput_ok h
    exact ⟨_, rfl, ⟨_, hdraft, rfl⟩, by simp [hkept, keptOf], hnone, hinput⟩
  | concat r =>
    obtain ⟨c, host, list, hc, hmakes, hkept, hinput⟩ := concat_ok h
    refine ⟨_, ⟨c, host, list, rfl, ?_⟩, ⟨_, hmakes, rfl⟩, hkept, hinput⟩
    exact Concatenation.ofRequest_ok hc
  | add op =>
    obtain ⟨hsome, hinput, ⟨hw, hdraft, hkept⟩ | ⟨hw, host, list, hmakes, hkept⟩⟩ := add_ok h
    · exact ⟨[], .inl ⟨hw, rfl⟩, hdraft, by simp [hkept], hsome, hinput⟩
    · exact ⟨_, .inr ⟨hw, host, list, rfl⟩, ⟨_, hmakes, rfl⟩, hkept, hsome, hinput⟩
  | output path options =>
    obtain ⟨hdraft, hkept, hinput⟩ := setOutput_ok h
    exact ⟨_, rfl, ⟨_, hdraft, rfl⟩, by simp [hkept, keptOf], hinput⟩

/-- Calls of a session, one after the other. -/
def sequence (calls : List Call) : Action Session PUnit := forM calls Call.action

/-- The edits that calls in a row make are those of each call, in order. -/
theorem sequence_ok {calls : List Call} (h : (sequence calls).perform s = (.ok (), s')) :
    ∃ ess : List (List Edit), List.Forall₂ Call.Stands calls ess ∧
      Edits s.draft ess.flatten s'.draft := by
  let I (calls : List Call) (m : Session) : Prop :=
    ∃ ess : List (List Edit), List.Forall₂ Call.Stands calls ess ∧ Edits s.draft ess.flatten m.draft
  have start : I [] s := ⟨[], .nil, rfl⟩
  refine Action.forM_invariant (I := I) start ?_ h
  rintro calls c m m' ⟨ess, hstand, hess⟩ hc
  obtain ⟨es, hes, hmakes, -⟩ := Call.ok hc
  refine ⟨ess ++ [es], List.rel_append hstand (.cons hes .nil), ?_⟩
  rw [List.flatten_append, List.flatten_singleton]
  exact Edits.append_iff.mpr ⟨m.draft, hess, hmakes⟩

end Session

end Montage

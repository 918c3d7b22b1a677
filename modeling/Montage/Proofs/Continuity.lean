import Montage.Proofs.Call
import Montage.Proofs.Contract

/-!
# What calls leave of a session

A call may go wrong half way, and a session goes on all the same. What every call leaves as it was is
said once, for calls that succeed and for calls that fail.

* `Session.Continues`: options, runs and what was kept stay; once the command has its primary
  input, no list file is written and the file tree stays as it is.

Results:
* `Session.Call.at_action`, `Session.at_build`: calls and builds continue the session.
* `Session.Call.error`: a call that fails keeps no operation and sets no input.
* `Session.build_error`: a build fails only by refusing.
-/

namespace Montage

open Montage.Action (Contract)

/-- The concatenation that an operation writes a list file for. -/
def Operation.list? : Operation → Option Concatenation
  | concat c => if c.strategy = .demuxer then some c else none
  | _ => none

theorem Operation.list?_eq_some {op : Operation} {c : Concatenation} (h : op.list? = some c) :
    op = .concat c ∧ c.strategy = .demuxer := by
  cases op with
  | concat c' =>
    by_cases hs : c'.strategy = .demuxer
    · simp only [list?, hs, if_true, Option.some.injEq] at h
      subst h
      exact ⟨rfl, hs⟩
    · simp [list?, hs] at h
  | _ => cases h

/-- Only a concatenation that writes a list file takes notice of it. -/
theorem Operation.inputs_of_list? {op : Operation} (h : op.list? = none) (list : Option String) :
    op.inputs list = op.inputs none := by
  cases op with
  | concat c =>
    simp only [inputs]
    cases hs : c.strategy with
    | filter => rfl
    | demuxer => simp [list?, hs] at h
  | _ => rfl

/-- An operation writes its list file only for a command without a primary input. -/
theorem Bench.list?_of_add_ok {op : Operation} {b b' : Bench}
    (h : (Bench.add op).perform b = (.ok (), b')) (hin : b.draft.hasInput = true) :
    op.list? = none := by
  rcases hl : op.list? with _ | c
  · rfl
  · obtain ⟨rfl, hs⟩ := Operation.list?_eq_some hl
    obtain ⟨-, hedits⟩ := Bench.add_ok h
    simp only [Operation.Edits, hs] at hedits
    rw [Draft.hasInput, hedits.1] at hin
    cases hin

namespace Session

variable {α : Type}

/-- The session `s'` comes of `s` by calls. Operations that are kept after the command has its
    primary input own no list file. -/
structure Continues (s s' : Session) : Prop where
  options : s'.options = s.options
  runs : s'.runs = s.runs
  input : s.input.isSome = true → s'.input = s.input
  hasInput : s.draft.hasInput = true → s'.draft.hasInput = true
  host : s.host.Continues (s.draft.hasInput = true) s'.host
  kept : ∃ more, s'.kept = s.kept ++ more ∧
    (s.draft.hasInput = true → ∀ k ∈ more, k.operation.list? = none ∧ k.listFile = none)

namespace Continues

theorem refl (s : Session) : s.Continues s :=
  ⟨rfl, rfl, fun _ => rfl, id, .refl _ _, [], by simp, by simp⟩

theorem trans {s t u : Session} (hst : s.Continues t) (htu : t.Continues u) : s.Continues u := by
  obtain ⟨more, hmore, hfree⟩ := hst.kept
  obtain ⟨more', hmore', hfree'⟩ := htu.kept
  refine ⟨htu.options.trans hst.options, htu.runs.trans hst.runs, ?_,
    fun h => htu.hasInput (hst.hasInput h), hst.host.trans (htu.host.mono hst.hasInput),
    more ++ more', by rw [hmore', hmore, List.append_assoc], ?_⟩
  · intro h
    have ht := hst.input h
    exact (htu.input (by rw [ht]; exact h)).trans ht
  · intro h k hk
    rcases List.mem_append.mp hk with hk | hk
    · exact hfree h k hk
    · exact hfree' (hst.hasInput h) k hk

/-- A session of which only the host and the draft went on. -/
theorem of_parts {s : Session} {host : Host} {draft : Draft}
    (hhost : s.host.Continues (s.draft.hasInput = true) host)
    (hdraft : s.draft.hasInput = true → draft.hasInput = true) :
    s.Continues { s with host, draft } :=
  ⟨rfl, rfl, fun _ => rfl, hdraft, hhost, [], by simp, by simp⟩

end Continues

/-- The contract of calls. -/
def continuing : Contract Session where
  leads := Continues
  allows s := s.host.Explains
  refl := Continues.refl
  trans := Continues.trans
  allows_of_leads hs := hs.host.explains

variable {s s' : Session}

theorem at_onHost {a : Action Host α}
    (h : (Host.continuing (s.draft.hasInput = true)).At s.host a) : continuing.At s (onHost a) :=
  .within h (fun _ ht => .of_parts ht id) fun _ hf => hf

theorem at_onBench {a : Action Bench α} (h : Bench.continuing.At ⟨s.host, s.draft, none⟩ a) :
    continuing.At s (onBench a) :=
  .within h (fun _ ht => .of_parts ht.host ht.hasInput) fun _ hf => hf

theorem at_requireInput (s : Session) : continuing.At s requireInput := by
  refine .get_bind ?_
  cases s.input with
  | none => exact .fail rfl
  | some path => exact .pure _

theorem at_keep (op : Operation) (s : Session) : continuing.At s (keep op) := by
  unfold keep
  refine .bind (at_onHost (Log.at_debug _)) fun _ t _ => ?_
  -- Whether the operation owns a list file is known only from the bench it was added on.
  have hadd := Bench.at_add op ⟨t.host, t.draft, none⟩
  rcases hb : (Bench.add op).perform ⟨t.host, t.draft, none⟩ with ⟨outcome, b⟩
  have hleads : Bench.Continues ⟨t.host, t.draft, none⟩ b := hadd.leads_of_perform hb
  cases outcome with
  | error f =>
    have hcontinues : t.Continues { t with host := b.host, draft := b.draft } :=
      .of_parts hleads.host hleads.hasInput
    refine .of_error ?_ hcontinues (hadd.allows f (by rw [hb]))
    rw [Action.perform_bind, onBench, Action.perform_within, Action.perform_bind, hb]
  | ok _ =>
    have hcontinues : t.Continues { t with
        host := b.host, draft := b.draft, kept := t.kept ++ [⟨op, b.listFile⟩] } := by
      refine ⟨rfl, rfl, fun _ => rfl, hleads.hasInput, hleads.host, _, rfl, ?_⟩
      intro hin k hk
      rw [List.mem_singleton.mp hk]
      exact ⟨Bench.list?_of_add_ok hb hin, hleads.listFile hin⟩
    refine .of_ok (v := ()) ?_ hcontinues
    rw [Action.perform_bind, onBench, Action.perform_within, Action.perform_bind, hb]
    rfl

/-- Calls continue the session, whatever is called and however it ends. -/
theorem Call.at_action (c : Call) (s : Session) : continuing.At s c.action := by
  cases c with
  | input path =>
    unfold Call.action setInput
    refine .get_bind ?_
    rcases hi : s.input with _ | given
    · simp only [Option.isSome_none, Bool.false_eq_true, if_false]
      refine .bind (at_onHost (Log.at_debug _)) fun _ t ht => ?_
      obtain ⟨host, rfl⟩ := onHost_ok ht
      refine .of_ok (v := ()) rfl ?_
      have hnone : ({ s with host } : Session).input.isSome = false := by rw [hi]; rfl
      exact ⟨rfl, rfl, fun h => absurd h (by rw [hnone]; decide), fun _ => rfl, .refl _ _, [],
        by simp, by simp⟩
    · simp only [Option.isSome_some, if_true]
      exact .bind (.fail rfl) fun _ t ht => by cases ht
  | concat r =>
    unfold Call.action Session.concat
    refine .get_bind ?_
    refine .bind (.expect fun f hf => ?_) fun c t _ => ?_
    · exact Host.explains_of_check (Concatenation.checks_ofRequest _ _ _ f hf)
    refine .bind (at_keep _ t) fun _ u hu => ?_
    refine .modify ⟨rfl, rfl, ?_, id, .refl _ _, [], by simp, by simp⟩
    intro h
    obtain ⟨path, hp⟩ := Option.isSome_iff_exists.mp h
    simp [hp]
  | add op =>
    unfold Call.action Session.add
    refine .bind (at_requireInput s) fun _ t _ => ?_
    rcases skipWarning op with _ | warning
    · refine .get_bind (.bind (.expect fun f hf => ?_) fun _ u _ => at_keep _ u)
      rcases bind_eq_error.mp hf with hf | ⟨_, -, ⟨⟩⟩
      exact Host.explains_of_check (op.checks_check _ f hf)
    · exact at_onHost (Host.at_logText _)
  | output path options =>
    unfold Call.action setOutput
    refine .bind (at_onHost (Log.at_debug _)) fun _ t _ => ?_
    exact .of_ok (v := ()) rfl ⟨rfl, rfl, fun _ => rfl, id, .refl _ _, [], by simp, by simp⟩

theorem at_sequence (calls : List Call) (s : Session) : continuing.At s (sequence calls) :=
  .forM Call.at_action calls s

end Session

/-! ## Builds -/

theorem Draft.hasInput_built (d : Draft) (h : d.hasInput = true) : d.built.hasInput = true := by
  have hclosed : d.built.command.input = d.command.input := by
    unfold built Command.close
    cases d.rendered.output with
    | none => rfl
    | some path => cases d.rendered.isClosed <;> rfl
  rw [hasInput, hclosed]
  exact h

theorem Bench.at_build (b : Bench) : Bench.continuing.At b Bench.build := by
  unfold Bench.build
  refine .get_bind ?_
  by_cases hbuilt : b.draft.isBuilt = true
  · simp only [hbuilt, if_true]
    exact .get_bind (.pure _)
  · simp only [hbuilt, Bool.false_eq_true, if_false]
    refine .bind (.require fun e he => Command.refuses_checkEnds _ e he) fun _ t _ => ?_
    refine .bind (Bench.at_warn _) fun _ t _ => ?_
    refine .bind (Bench.at_warn _) fun _ t _ => ?_
    exact .bind (Bench.at_edit t.draft.hasInput_built) fun _ t _ => .get_bind (.pure _)

/-- A build fails only because an end of the command is missing. -/
theorem Bench.build_error {b b' : Bench} {f : Failure} (h : Bench.build.perform b = (.error f, b')) :
    ∃ e, f = .reported e ∧ e.isRefusal = true := by
  unfold Bench.build at h
  rw [Action.perform_bind, Action.perform_get] at h
  by_cases hbuilt : b.draft.isBuilt = true
  · simp only [hbuilt, if_true] at h
    rw [Action.perform_bind, Action.perform_get] at h
    cases h
  simp only [hbuilt, Bool.false_eq_true, if_false] at h
  rcases hc : b.draft.command.checkEnds with e | _
  · rw [hc, Action.perform_bind] at h
    cases h
    exact ⟨e, rfl, b.draft.command.refuses_checkEnds e hc⟩
  · rw [hc, Action.perform_bind, Action.perform_require_ok] at h
    obtain ⟨h₁, hw⟩ := perform_warn b.draft.leftOutWarning b
    simp only at h
    rw [Action.perform_bind_of_ok hw] at h
    obtain ⟨h₂, hw⟩ := perform_warn b.draft.repeatedFilterWarning { b with host := h₁ }
    rw [Action.perform_bind_of_ok hw] at h
    cases h

namespace Session

variable {s s' : Session}

theorem at_build (s : Session) : continuing.At s Session.build := by
  unfold Session.build
  refine .bind (at_requireInput s) fun _ t _ => .get_bind ?_
  refine .bind (at_onBench (Bench.at_build _)) fun _ u _ => ?_
  exact .bind (at_onHost (Host.at_recordPhase _ _)) fun _ v _ => .pure _

theorem build_error {f : Failure} (h : Session.build.perform s = (.error f, s')) :
    ∃ e, f = .reported e ∧ e.isRefusal = true := by
  unfold Session.build at h
  rcases Action.bind_error h with hinput | ⟨_, t, -, h⟩
  · unfold requireInput at hinput
    rw [Action.perform_bind, Action.perform_get] at hinput
    cases hi : s.input with
    | none =>
      simp only [hi, Option.isNone_none, if_true] at hinput
      cases hinput
      exact ⟨_, rfl, rfl⟩
    | some path => simp [hi] at hinput
  rw [Action.perform_bind, Action.perform_get] at h
  rcases Action.bind_error h with hbuild | ⟨_, u, -, h⟩
  · rw [onBench, Action.perform_within] at hbuild
    exact Bench.build_error (Prod.ext (Prod.mk.inj hbuild).1 rfl)
  · cases h

/-! ## Calls that fail -/

theorem onHost_error {α : Type} {a : Action Host α} {f : Failure}
    (h : (onHost a).perform s = (.error f, s')) : s'.kept = s.kept ∧ s'.input = s.input := by
  rw [onHost, Action.perform_within] at h
  cases (Prod.mk.inj h).2
  exact ⟨rfl, rfl⟩

theorem onBench_error {α : Type} {a : Action Bench α} {f : Failure}
    (h : (onBench a).perform s = (.error f, s')) : s'.kept = s.kept ∧ s'.input = s.input := by
  rw [onBench, Action.perform_within] at h
  cases (Prod.mk.inj h).2
  exact ⟨rfl, rfl⟩

theorem keep_error {op : Operation} {f : Failure} (h : (keep op).perform s = (.error f, s')) :
    s'.kept = s.kept ∧ s'.input = s.input := by
  unfold keep at h
  rcases Action.bind_error h with h | ⟨_, t, ht, h⟩
  · exact onHost_error h
  obtain ⟨host, rfl⟩ := onHost_ok ht
  rcases Action.bind_error h with h | ⟨_, u, -, h⟩
  · have hsame := onBench_error h
    exact hsame
  · cases h

theorem requireInput_error {f : Failure} (h : requireInput.perform s = (.error f, s')) :
    s.input = none ∧ s' = s ∧ f = .reported (.missingParameter "input") := by
  unfold requireInput at h
  rw [Action.perform_bind, Action.perform_get] at h
  cases hi : s.input with
  | none =>
    simp only [hi, Option.isNone_none, if_true] at h
    cases h
    exact ⟨rfl, rfl, rfl⟩
  | some path => simp [hi] at h

/-- A call that fails keeps no operation and sets no input. -/
theorem Call.error {c : Call} {f : Failure} (h : c.action.perform s = (.error f, s')) :
    s'.kept = s.kept ∧ s'.input = s.input := by
  cases c with
  | input path =>
    unfold Call.action setInput at h
    rw [Action.perform_bind, Action.perform_get] at h
    rcases hi : s.input with _ | given
    · simp only [hi, Option.isSome_none, Bool.false_eq_true, if_false] at h
      rcases Action.bind_error h with h | ⟨_, t, ht, h⟩
      · rw [← hi]; exact onHost_error h
      · cases h
    · simp only [hi, Option.isSome_some, if_true, Action.perform_bind, Action.perform_fail] at h
      cases h
      exact ⟨rfl, hi⟩
  | concat r =>
    unfold Call.action Session.concat at h
    rw [Action.perform_bind, Action.perform_get] at h
    rcases Action.bind_error h with h | ⟨c, t, ht, h⟩
    · cases (Action.expect_error h).2
      exact ⟨rfl, rfl⟩
    · cases (Action.expect_ok ht).2
      rcases Action.bind_error h with h | ⟨_, u, -, h⟩
      · exact keep_error h
      · cases h
  | add op =>
    unfold Call.action Session.add at h
    rcases Action.bind_error h with hinput | ⟨_, t, ht, hrest⟩
    · obtain ⟨-, rfl, -⟩ := requireInput_error hinput
      exact ⟨rfl, rfl⟩
    obtain ⟨-, rfl⟩ := requireInput_ok ht
    rcases hw : skipWarning op with _ | warning
    · simp only [hw] at hrest
      rw [Action.perform_bind, Action.perform_get] at hrest
      rcases Action.bind_error hrest with hmade | ⟨_, u, hu, hkeep⟩
      · cases (Action.expect_error hmade).2
        exact ⟨rfl, rfl⟩
      · cases (Action.expect_ok hu).2
        exact keep_error hkeep
    · simp only [hw] at hrest
      exact onHost_error hrest
  | output path options =>
    unfold Call.action setOutput at h
    rcases Action.bind_error h with h | ⟨_, t, -, h⟩
    · exact onHost_error h
    · cases h

end Session

end Montage

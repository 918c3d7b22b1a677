import Montage.Executor.Basic
import Montage.Proofs.Effect
import Montage.Proofs.ListWriting

/-!
# What an action leaves alone

A contract says what an action may do to its state, however it ends, and what it may fail with. An
action that is put together of parts keeps a contract if its parts do, so the contracts of long
actions follow from those of single steps.

* `Action.Contract`, `Contract.At`: contracts, and an action that keeps one from a state on.
* `Host.Continues`: the settings and what was printed stay as they are, and the log grows.
* `Bench.Continues`: once a command has its primary input, the file tree stays as it is too.

Results:
* `Log.at_debug`, `Concatenation.at_writeList`: contracts of the steps on a host.
* `Bench.at_add`: adding an operation, whatever kind it is and however it ends.
-/

namespace Montage

namespace Action

variable {σ τ α β γ : Type}

/-- What actions may do to a state, and what they may fail with in one. -/
structure Contract (σ : Type) where
  leads : σ → σ → Prop
  allows : σ → Failure → Prop
  refl : ∀ s, leads s s
  trans : ∀ {s t u}, leads s t → leads t u → leads s u
  /-- What is allowed later was allowed before. -/
  allows_of_leads : ∀ {s t f}, leads s t → allows t f → allows s f

/-- An action that keeps a contract if it is performed in the state `s`. -/
structure Contract.At (C : Contract σ) (s : σ) (a : Action σ α) : Prop where
  leads : C.leads s (a.perform s).2
  allows : ∀ f, (a.perform s).1 = .error f → C.allows s f

namespace Contract

variable {C : Contract σ} {D : Contract τ} {s t : σ}

theorem At.leads_of_perform {a : Action σ α} {outcome : Except Failure α} (ha : C.At s a)
    (h : a.perform s = (outcome, t)) : C.leads s t := by
  have := ha.leads
  rwa [h] at this

theorem At.of_ok {a : Action σ α} {v : α} (h : a.perform s = (.ok v, t)) (ht : C.leads s t) :
    C.At s a := by
  constructor
  · rw [h]; exact ht
  · rw [h]; rintro f ⟨⟩

theorem At.of_error {a : Action σ α} {f : Failure} (h : a.perform s = (.error f, t))
    (ht : C.leads s t) (hf : C.allows s f) : C.At s a := by
  constructor
  · rw [h]; exact ht
  · rw [h]; rintro f' ⟨⟩; exact hf

theorem At.pure (v : α) : C.At s (pure v) := .of_ok rfl (C.refl s)

theorem At.modify {f : σ → σ} (h : C.leads s (f s)) : C.At s (modify f) := .of_ok rfl h

theorem At.set (h : C.leads s t) : C.At s (set t) := .of_ok rfl h

theorem At.fail {e : Error} (h : C.allows s (.reported e)) : C.At s (fail e : Action σ α) :=
  .of_error rfl (C.refl s) h

theorem At.require {x : Except Error α} (h : ∀ e, x = .error e → C.allows s (.reported e)) :
    C.At s (require x) := by
  cases x with
  | ok v => exact .pure v
  | error e => exact .fail (h e rfl)

theorem At.expect {x : Except Failure α} (h : ∀ f, x = .error f → C.allows s f) :
    C.At s (expect x) := by
  cases x with
  | ok v => exact .pure v
  | error f => exact .of_error rfl (C.refl s) (h f rfl)

/-- A sequence keeps a contract if its second part keeps it wherever the first part leads. -/
theorem At.bind {a : Action σ α} {f : α → Action σ β} (ha : C.At s a)
    (hf : ∀ v t, a.perform s = (.ok v, t) → C.At t (f v)) : C.At s (a >>= f) := by
  rcases h : a.perform s with ⟨e | v, t⟩
  · have hseq : (a >>= f).perform s = (.error e, t) := by rw [perform_bind, h]
    exact .of_error hseq (ha.leads_of_perform h) (ha.allows e (by rw [h]))
  · have hfirst := ha.leads_of_perform h
    have hrest := hf v t h
    have hseq : (a >>= f).perform s = (f v).perform t := perform_bind_of_ok h
    constructor
    · rw [hseq]; exact C.trans hfirst hrest.leads
    · rw [hseq]; intro e he; exact C.allows_of_leads hfirst (hrest.allows e he)

theorem At.get_bind {f : σ → Action σ β} (h : C.At s (f s)) : C.At s (get >>= f) := by
  refine .bind (.of_ok (perform_get s) (C.refl s)) ?_
  rintro v t ht
  cases ht
  exact h

theorem At.within {part : σ → τ} {put : σ → τ → σ} {a : Action τ α} (h : D.At (part s) a)
    (hleads : ∀ t, D.leads (part s) t → C.leads s (put s t))
    (hallows : ∀ f, D.allows (part s) f → C.allows s f) : C.At s (within part put a) := by
  constructor
  · exact hleads _ h.leads
  · intro f hf; exact hallows f (h.allows f hf)

theorem At.forM {step : γ → Action σ PUnit} (h : ∀ x s, C.At s (step x)) (xs : List γ) (s : σ) :
    C.At s (forM xs step) := by
  induction xs generalizing s with
  | nil => exact .pure ()
  | cons x xs ih =>
    rw [List.forM_cons]
    exact .bind (h x s) fun _ t _ => ih t

end Contract

end Action

open Montage.Action (Contract)

/-! ## Hosts -/

namespace Settings

variable {h h' : Host}

theorem debugging_congr (he : h'.environment = h.environment) : debugging h' = debugging h := by
  simp only [debugging, switch, integer, Host.valueOf?, he]

theorem overlayPadding_congr (he : h'.environment = h.environment) :
    overlayPadding h' = overlayPadding h := by
  simp only [overlayPadding, integer, Host.valueOf?, he]

end Settings

namespace Host

/-- What an operation may fail with on a host: it refuses, a setting cannot be read, or the machine
    does not answer. -/
def Explains (h : Host) : Failure → Prop
  | .reported e => e.isRefusal = true
  | .setting fault =>
    Settings.debugging h = .error fault ∨ Settings.overlayPadding h = .error fault
  | .machine _ => True

theorem explains_of_check {h : Host} {f : Failure} (hf : f.IsOfCheck) : h.Explains f := by
  cases f with
  | reported e => exact hf
  | setting fault => exact hf.elim
  | machine fault => trivial

/-- The host `h'` comes of `h` by steps that change no setting, print nothing, take back nothing
    that was logged and, if it is to be `still`, leave the file tree as it is. -/
structure Continues (still : Prop) (h h' : Host) : Prop where
  environment : h'.environment = h.environment
  directory : h'.directory = h.directory
  printed : h'.printed = h.printed
  logged : ∃ more, h'.logged = h.logged ++ more
  tree : still → h'.tree = h.tree

namespace Continues

variable {still still' : Prop} {h h' h'' : Host}

theorem refl (still : Prop) (h : Host) : Continues still h h :=
  ⟨rfl, rfl, rfl, ⟨"", by simp⟩, fun _ => rfl⟩

theorem trans (a : Continues still h h') (b : Continues still h' h'') : Continues still h h'' := by
  obtain ⟨more, hmore⟩ := a.logged
  obtain ⟨more', hmore'⟩ := b.logged
  exact ⟨b.environment.trans a.environment, b.directory.trans a.directory,
    b.printed.trans a.printed, ⟨more ++ more', by rw [hmore', hmore, String.append_assoc]⟩,
    fun hs => (b.tree hs).trans (a.tree hs)⟩

theorem mono (hs : still' → still) (a : Continues still h h') : Continues still' h h' :=
  ⟨a.environment, a.directory, a.printed, a.logged, fun h => a.tree (hs h)⟩

/-- The settings are those of the host before. -/
theorem valueOf? (a : Continues still h h') (name : String) : h'.valueOf? name = h.valueOf? name := by
  rw [Host.valueOf?, a.environment, Host.valueOf?]

theorem debugging (a : Continues still h h') : Settings.debugging h' = Settings.debugging h :=
  Settings.debugging_congr a.environment

theorem overlayPadding (a : Continues still h h') :
    Settings.overlayPadding h' = Settings.overlayPadding h :=
  Settings.overlayPadding_congr a.environment

theorem explains (a : Continues still h h') {f : Failure} (hf : h'.Explains f) : h.Explains f := by
  cases f with
  | reported e => exact hf
  | setting fault =>
    rw [Explains, a.debugging, a.overlayPadding] at hf
    exact hf
  | machine fault => trivial

/-- In an unchanged tree each path leads where it led. -/
theorem find (a : Continues still h h') (hs : still) (path : String) : h'.find path = h.find path := by
  simp only [Host.find, Host.start, a.directory, a.tree hs]

end Continues

/-- The contract of steps on a host. -/
def continuing (still : Prop) : Contract Host where
  leads := Continues still
  allows := Explains
  refl := Continues.refl still
  trans := Continues.trans
  allows_of_leads a hf := a.explains hf

variable {still : Prop} {h : Host}

theorem continues_log (still : Prop) (h : Host) (text : String) :
    Continues still h { h with logged := h.logged ++ text } :=
  ⟨rfl, rfl, rfl, ⟨text, rfl⟩, fun _ => rfl⟩

theorem at_logText (text : String) : (continuing still).At h (logText text) :=
  .modify (continues_log still h text)

theorem at_recordPhase (phase : String) (started : Nat) :
    (continuing still).At h (recordPhase phase started) :=
  .modify ⟨rfl, rfl, rfl, ⟨"", by simp⟩, fun _ => rfl⟩

end Host

/-- A message for debugging fails just if the setting for such messages cannot be read. -/
theorem Log.perform_debug (message : String) (h : Host) :
    (Log.debug message).perform h =
      match Settings.debugging h with
      | .ok wanted =>
        (.ok (), if wanted then { h with logged := h.logged ++ s!"[DEBUG] {message}\n" } else h)
      | .error fault => (.error (.setting fault), h) := by
  unfold Log.debug
  rw [Action.perform_bind, Action.perform_get]
  simp only
  rw [Action.perform_bind]
  rcases Settings.debugging h with fault | wanted
  · rfl
  · cases wanted <;> rfl

theorem Log.at_debug {still : Prop} {h : Host} (message : String) :
    (Host.continuing still).At h (Log.debug message) := by
  have hperform := Log.perform_debug message h
  rcases hd : Settings.debugging h with fault | wanted
  · rw [hd] at hperform
    exact .of_error hperform (.refl still h) (.inl hd)
  · rw [hd] at hperform
    refine .of_ok hperform ?_
    cases wanted
    · exact .refl still h
    · exact Host.continues_log still h _

theorem Host.continues_tree (h : Host) (tree : Tree) : h.Continues False { h with tree } :=
  ⟨rfl, rfl, rfl, ⟨"", String.append_empty.symm⟩, False.elim⟩

theorem Host.continues_listName (h : Host) : h.Continues True h.listName.2 :=
  ⟨rfl, rfl, rfl, ⟨"", String.append_empty.symm⟩, fun _ => rfl⟩

/-- Writing a list file may make folders and a file. -/
theorem Concatenation.at_writeList (c : Concatenation) (h : Host) :
    (Host.continuing False).At h c.writeList := by
  have hwrites := c.writesList h
  have hmade {m : Host} {fault : Option FileFault} (hm : h.makeFolders c.tempFolder = (m, fault)) :
      h.Continues False m := by
    obtain ⟨tree, htree⟩ := h.tree_of_makeFolders c.tempFolder
    rw [hm] at htree
    cases htree
    exact h.continues_tree tree
  have hnamed {m : Host} {fault : Option FileFault}
      (hm : h.makeFolders c.tempFolder = (m, fault)) : h.Continues False m.listName.2 :=
    (hmade hm).trans (m.continues_listName.mono False.elim)
  have hwritten {m h' : Host} {path content : String} {fault : Option FileFault}
      (hm : h.makeFolders c.tempFolder = (m, fault))
      (hw : m.listName.2.write path content = .ok h') : h.Continues False h' := by
    obtain ⟨tree, htree⟩ := Host.tree_of_write hw
    rw [htree]
    exact (hnamed hm).trans (Host.continues_tree _ tree)
  rcases hrun : c.writeList.perform h with ⟨outcome, h'⟩
  rw [hrun] at hwrites
  cases hwrites with
  | noFolder error hrefusal hm => exact .of_error hrun (hmade hm) hrefusal
  | unopened error hrefusal hm ht => exact .of_error hrun (hnamed hm) hrefusal
  | unmade hm ht hleft =>
    refine .of_error hrun ?_ trivial
    rcases hleft with rfl | hw
    · exact hnamed hm
    · exact hwritten hm hw
  | written hm ht hw => exact .of_ok hrun (hwritten hm hw)

/-! ## Texts of filters -/

theorem Host.explains_option {h : Host} {w : Window} {f : Failure}
    (hf : w.option.mapError .reported = .error f) : h.Explains f := by
  rcases hw : w.option with e | text
  · rw [hw] at hf
    cases hf
    exact w.refuses_option e hw
  · rw [hw] at hf; cases hf

theorem Placement.distance_error {p : Placement} {h : Host} {f : Failure}
    (hf : p.distance h = .error f) : h.Explains f := by
  unfold distance at hf
  rcases hp : Settings.overlayPadding h with fault | n
  · rw [hp] at hf
    cases hf
    exact .inr hp
  · rw [hp] at hf; cases hf

/-- The filter of an overlay cannot be rendered if a bound cannot, or if the padding is not read. -/
theorem Overlay.overlayFilter_error {o : Overlay} {h : Host} {f : Failure}
    (hf : o.overlayFilter h = .error f) : h.Explains f := by
  rcases bind_eq_error.mp hf with hf | ⟨_, -, hf⟩
  · unfold coordinates at hf
    rcases ha : o.place.anchor with _ | anchor
    · rw [ha] at hf; cases hf
    · rw [ha] at hf
      rcases bind_eq_error.mp hf with hf | ⟨_, -, hf⟩
      · exact Placement.distance_error hf
      · cases hf
  · rcases bind_eq_error.mp hf with hf | ⟨_, -, hf⟩
    · exact Host.explains_option hf
    · cases hf

theorem Caption.filterText_error {c : Caption} {h : Host} {f : Failure}
    (hf : c.filterText h = .error f) : h.Explains f := by
  rcases bind_eq_error.mp hf with hf | ⟨_, -, hf⟩
  · unfold coordinates at hf
    rcases ha : c.place.anchor with _ | anchor
    · simp only [ha] at hf
      split at hf <;> cases hf
    · rw [ha] at hf
      rcases bind_eq_error.mp hf with hf | ⟨_, -, hf⟩
      · exact Placement.distance_error hf
      · cases hf
  · rcases bind_eq_error.mp hf with hf | ⟨_, -, hf⟩
    · exact Host.explains_option hf
    · cases hf

/-! ## Benches -/

namespace Draft

/-- Whether the command has its primary input. -/
def hasInput (d : Draft) : Bool := d.command.input.isSome

end Draft

namespace Bench

variable {α : Type}

/-- The bench `b'` comes of `b` by steps that, once the command has its primary input, write no
    list file and change nothing in the file tree. -/
structure Continues (b b' : Bench) : Prop where
  host : b.host.Continues (b.draft.hasInput = true) b'.host
  hasInput : b.draft.hasInput = true → b'.draft.hasInput = true
  listFile : b.draft.hasInput = true → b'.listFile = b.listFile

namespace Continues

theorem refl (b : Bench) : b.Continues b := ⟨.refl _ _, id, fun _ => rfl⟩

theorem trans {a b c : Bench} (hab : a.Continues b) (hbc : b.Continues c) : a.Continues c :=
  ⟨hab.host.trans (hbc.host.mono hab.hasInput), fun h => hbc.hasInput (hab.hasInput h),
    fun h => (hbc.listFile (hab.hasInput h)).trans (hab.listFile h)⟩

end Continues

/-- The contract of steps on a bench. -/
def continuing : Contract Bench where
  leads := Continues
  allows b := b.host.Explains
  refl := Continues.refl
  trans := Continues.trans
  allows_of_leads hb := hb.host.explains

variable {b : Bench}

theorem at_onHost {a : Action Host α} (h : (Host.continuing (b.draft.hasInput = true)).At b.host a) :
    continuing.At b (onHost a) :=
  .within h (fun _ ht => ⟨ht, id, fun _ => rfl⟩) fun _ hf => hf

theorem at_edit {change : Draft → Draft}
    (h : b.draft.hasInput = true → (change b.draft).hasInput = true) :
    continuing.At b (edit change) :=
  .modify ⟨.refl _ _, h, fun _ => rfl⟩

theorem at_warn (messages : List String) : continuing.At b (warn messages) :=
  at_onHost (.forM (fun _ _ => Host.at_logText _) messages b.host)

theorem at_requireText {text : Host → Except Failure String}
    (h : ∀ f, text b.host = .error f → b.host.Explains f) : continuing.At b (requireText text) := by
  have hperform := perform_requireText text b
  rcases ht : text b.host with f | value
  · rw [ht] at hperform
    exact .of_error hperform (.refl b) (h f ht)
  · rw [ht] at hperform
    exact .of_ok hperform (.refl b)

end Bench

/-! ## Operations -/

theorem Concatenation.joined_hasInput (c : Concatenation) (d : Draft) (h : d.hasInput = true) :
    (c.joined d).hasInput = true := by
  have hadded (paths : List String) (d : Draft) (h : d.hasInput = true) :
      (addInputs paths d).2.hasInput = true := by
    induction paths generalizing d with
    | nil => exact h
    | cons path rest ih =>
      rw [addInputs]
      by_cases hn : d.command.input.isNone = true
      · simp only [hn, if_true]
        exact ih (d.withInput path) rfl
      · simp only [hn, Bool.false_eq_true, if_false]
        exact ih (d.addInput path).2 h
  unfold joined
  cases c.videoOnly <;> exact hadded c.inputs d h

/-- A list file is written only for a command without a primary input. -/
theorem Concatenation.at_applyDemuxer (c : Concatenation) (b : Bench) :
    Bench.continuing.At b c.applyDemuxer := by
  unfold applyDemuxer
  refine .get_bind ?_
  by_cases hin : b.draft.command.input.isSome = true
  · simp only [hin, if_true]
    exact .fail rfl
  simp only [hin, Bool.false_eq_true, if_false]
  have hwrite := c.at_writeList b.host
  have hnone : b.draft.hasInput = true → False := hin
  refine .bind (Bench.at_onHost ⟨hwrite.leads.mono hnone, hwrite.allows⟩) ?_
  intro path t ht
  have hdraft : t.draft = b.draft := by
    rw [Bench.perform_onHost] at ht
    rw [← (Prod.mk.inj ht).2]
  refine .bind (.modify ⟨.refl _ _, id, fun h => absurd (hdraft ▸ h) hnone⟩) fun _ u _ => ?_
  refine .bind (Bench.at_onHost (Log.at_debug _)) fun _ u _ => ?_
  refine .bind (Bench.at_edit id) fun _ u _ => ?_
  refine .bind (Bench.at_edit fun _ => rfl) fun _ u _ => ?_
  exact Bench.at_edit id

theorem Operation.at_applyOverlay (o : Overlay) (b : Bench) :
    Bench.continuing.At b (applyOverlay o) := by
  have hperform := perform_applyOverlay o b
  have hsource : b.draft.hasInput = true → (o.takeSource b.draft).2.hasInput = true := by
    intro h
    rw [Draft.hasInput, o.takeSource_command]
    exact h
  rcases hf : o.overlayFilter b.host with f | text
  · rw [hf] at hperform
    exact .of_error hperform ⟨.refl _ _, hsource, fun _ => rfl⟩ (Overlay.overlayFilter_error hf)
  · rw [hf] at hperform
    exact .of_ok hperform ⟨.refl _ _, hsource, fun _ => rfl⟩

theorem Concatenation.at_apply (c : Concatenation) (b : Bench) :
    Bench.continuing.At b c.apply := by
  unfold apply
  cases c.strategy with
  | filter =>
    exact .of_ok (c.perform_applyFilter b) ⟨.refl _ _, c.joined_hasInput b.draft, fun _ => rfl⟩
  | demuxer => exact c.at_applyDemuxer b

theorem Speed.apply_input (s : Speed) (c : Command) : (s.apply c).input = c.input := by
  unfold apply
  by_cases h : s.audioFilter.isEmpty = true
  · simp only [h, if_true]; rfl
  · simp only [h]; rfl

theorem Operation.at_apply (op : Operation) (b : Bench) : Bench.continuing.At b op.apply := by
  cases op with
  | resize r =>
    refine .bind (.require fun e he => r.refuses_filter? e he) fun size t _ => ?_
    cases size with
    | some text => exact .modify ⟨.refl _ _, id, fun _ => rfl⟩
    | none => exact Bench.at_warn _
  | crop c =>
    refine .bind (.require fun e he => c.refuses_check e he) fun _ t _ => ?_
    exact .modify ⟨.refl _ _, id, fun _ => rfl⟩
  | rotate r =>
    refine .bind (.require fun e he => r.refuses_check e he) fun _ t _ => ?_
    exact .modify ⟨.refl _ _, id, fun _ => rfl⟩
  | speed s =>
    refine .modify ⟨.refl _ _, fun h => ?_, fun _ => rfl⟩
    rw [Draft.hasInput, s.apply_input]
    exact h
  | caption c =>
    refine .bind (Bench.at_requireText fun f hf => Caption.filterText_error hf) fun text t _ => ?_
    exact .modify ⟨.refl _ _, id, fun _ => rfl⟩
  | overlay o => exact at_applyOverlay o b
  | concat c => exact c.at_apply b
  | trim t => exact .modify ⟨.refl _ _, id, fun _ => rfl⟩
  | adjustColor a => exact .modify ⟨.refl _ _, id, fun _ => rfl⟩
  | encode e => exact .modify ⟨.refl _ _, id, fun _ => rfl⟩

/-- Adding an operation continues the bench, and fails only in ways that the host explains. -/
theorem Bench.at_add (op : Operation) (b : Bench) : Bench.continuing.At b (Bench.add op) := by
  unfold Bench.add
  refine .get_bind (.bind (.expect fun f hf => ?_) fun _ t _ => op.at_apply t)
  exact Host.explains_of_check (op.checks_check b.host f hf)

end Montage

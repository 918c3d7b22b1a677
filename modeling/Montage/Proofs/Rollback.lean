import Montage.Proofs.Effect

/-!
# Failed calls and the draft

A call that fails should leave the draft as it was. Nearly all calls do: they fail before their
first edit. The exception is an overlay, which registers its source before it renders its filter.

Results:
* `Window.option_error_iff`: what keeps the bounds of a checked window from being written.
* `Overlay.overlayFilter_error_iff`: the same for the filter of a checked overlay.
* `Bench.keepsDraft_of_failure`: which failing calls leave the draft unchanged, exactly.
-/

namespace Montage

/-! ## What cannot be written -/

/-- Whether a time that has a value can be written: a number has to be finite and not negative. -/
def Time.isWritable : Time → Bool
  | seconds n => n.isFinite && !decide (n < 0)
  | clock _ => true
  | parts _ => true

theorem Time.check_of_toSeconds {t : Time} {n : Binary64} (h : t.toSeconds = .ok n) :
    t.check = .ok () ↔ t.isWritable = true := by
  cases t with
  | seconds m => simp [check, checkNumber, isWritable]
  | clock text =>
    obtain ⟨_, hc, -⟩ := bind_eq_ok.mp h
    simp [check, hc, isWritable]
  | parts p => simp [check, isWritable]

/-- A bound that has a value is written unless it is a number that cannot be. -/
theorem Window.boundText_error_iff (missing : String) {bound : Option Time}
    (h : ∀ t, bound = some t → ∃ n, t.toSeconds = .ok n) :
    (∃ e, boundText missing bound = .error e) ↔ ∃ t, bound = some t ∧ t.isWritable = false := by
  rcases bound with _ | t
  · simp [boundText]
  obtain ⟨n, hn⟩ := h t rfl
  have hcheck := Time.check_of_toSeconds hn
  simp only [boundText, Time.secondsText, Option.some.injEq, exists_eq_left']
  rcases hc : t.check with e | _
  · have hw : t.isWritable = false := by
      cases hw : t.isWritable with
      | false => rfl
      | true => rw [hcheck.mpr hw] at hc; cases hc
    simp [hw]
  · have hw : t.isWritable = true := hcheck.mp hc
    simp [hw, hn]

/-- Some bound of a window is a number that cannot be written. -/
def Window.HasUnwritableBound (w : Window) : Prop :=
  ∃ t, (w.start = some t ∨ w.stop = some t) ∧ t.isWritable = false

/-- The bounds of a checked window have values. -/
theorem Window.toSeconds_of_check {w : Window} (h : w.check = .ok ()) :
    (∀ t, w.start = some t → ∃ n, t.toSeconds = .ok n) ∧
      ∀ t, w.stop = some t → ∃ n, t.toSeconds = .ok n := by
  obtain ⟨start, stop⟩ := w
  cases start <;> cases stop <;>
    simp [check, refuse_eq_ok, bind_eq_ok] at h ⊢ <;> grind

/-- The check of a window lets numbers through that no bound can be written with. -/
theorem Window.option_error_iff {w : Window} (h : w.check = .ok ()) :
    (∃ e, w.option = .error e) ↔ w.HasUnwritableBound := by
  obtain ⟨hstart, hstop⟩ := Window.toSeconds_of_check h
  have h0 := boundText_error_iff "0" hstart
  have h1 := boundText_error_iff openEnd hstop
  have hsplit : w.HasUnwritableBound ↔
      (∃ e, boundText "0" w.start = .error e) ∨ ∃ e, boundText openEnd w.stop = .error e := by
    rw [h0, h1, HasUnwritableBound, ← exists_or]
    exact exists_congr fun t => or_and_right
  rw [hsplit, option]
  by_cases hnone : (w.start.isNone && w.stop.isNone) = true
  · simp only [Bool.and_eq_true, Option.isNone_iff_eq_none] at hnone
    simp [hnone.1, hnone.2, boundText]
  · simp only [hnone, Bool.false_eq_true, if_false, bind_eq_error, pure_ne_error, and_false,
      exists_false, or_false]
    constructor
    · rintro ⟨e, he | ⟨_, -, he⟩⟩
      · exact .inl ⟨e, he⟩
      · exact .inr ⟨e, he⟩
    · rintro (⟨e, he⟩ | ⟨e, he⟩)
      · exact ⟨e, .inl he⟩
      · rcases hs : boundText "0" w.start with e' | text
        · exact ⟨e', .inl rfl⟩
        · exact ⟨e, .inr ⟨text, rfl, he⟩⟩

/-! ## Overlays that cannot be drawn -/

/-- What keeps a checked overlay from being drawn: it stands at an anchor and the padding setting
    cannot be read, or a bound of its window cannot be written. -/
def Overlay.IsUndrawable (o : Overlay) (h : Host) : Prop :=
  (o.place.anchor ≠ none ∧ ∃ fault, Settings.overlayPadding h = .error fault) ∨
    o.window.HasUnwritableBound

theorem Placement.distance_error_iff {p : Placement} {h : Host} {f : Failure} :
    p.distance h = .error f ↔
      ∃ fault, f = .setting fault ∧ Settings.overlayPadding h = .error fault := by
  unfold distance
  cases Settings.overlayPadding h <;> simp [eq_comm]

theorem Overlay.coordinates_error_iff {p : Placement} {h : Host} {f : Failure} :
    coordinates p h = .error f ↔ p.anchor.isSome = true ∧
      ∃ fault, f = .setting fault ∧ Settings.overlayPadding h = .error fault := by
  unfold coordinates
  rw [← Placement.distance_error_iff (p := p)]
  rcases p.anchor with _ | anchor
  · simp
  · simp only [bind_eq_error, pure_ne_error, and_false, exists_false, or_false, Option.isSome_some,
      true_and]

theorem Overlay.coordinates_fails_iff (p : Placement) (h : Host) :
    (∃ f, coordinates p h = .error f) ↔
      p.anchor ≠ none ∧ ∃ fault, Settings.overlayPadding h = .error fault := by
  simp only [coordinates_error_iff, Option.isSome_iff_ne_none]
  constructor
  · rintro ⟨_, hanchor, fault, rfl, hfault⟩
    exact ⟨hanchor, fault, hfault⟩
  · rintro ⟨hanchor, fault, hfault⟩
    exact ⟨.setting fault, hanchor, fault, rfl, hfault⟩

theorem Overlay.overlayFilter_error_iff {o : Overlay} {h : Host} (hc : o.check h = .ok ()) :
    (∃ f, o.overlayFilter h = .error f) ↔ o.IsUndrawable h := by
  rw [IsUndrawable, ← coordinates_fails_iff, ← Window.option_error_iff (window_check hc)]
  simp only [overlayFilter, bind_eq_error, pure_ne_error, and_false, exists_false, or_false]
  constructor
  · rintro ⟨f, hf | ⟨_, -, hf⟩⟩
    · exact .inl ⟨f, hf⟩
    · right
      rcases hw : o.window.option with e | text
      · exact ⟨e, rfl⟩
      · rw [hw] at hf; cases hf
  · rintro (⟨f, hf⟩ | ⟨e, he⟩)
    · exact ⟨f, .inl hf⟩
    · rcases hx : coordinates o.place h with f | xy
      · exact ⟨f, .inl rfl⟩
      · exact ⟨.reported e, .inr ⟨xy, rfl, by rw [he]; rfl⟩⟩

/-! ## Calls on the bench -/

namespace Bench

variable {α : Type}

/-- An action that leaves the draft as it was if it fails on this bench. -/
def KeepsDraft (a : Action Bench α) (b : Bench) : Prop :=
  ∀ f b', a.perform b = (.error f, b') → b'.draft = b.draft

/-- What fails on an unchanged bench keeps the draft. -/
theorem KeepsDraft.of_error {a : Action Bench α} {b : Bench} {f : Failure}
    (h : a.perform b = (.error f, b)) : KeepsDraft a b := by
  rintro f' b' h'
  rw [h] at h'; cases h'; rfl

theorem KeepsDraft.of_ok {a : Action Bench α} {b b' : Bench} {v : α}
    (h : a.perform b = (.ok v, b')) : KeepsDraft a b := by
  rintro f' b₁ h'
  rw [h] at h'; cases h'

/-- A step that can fail, before an edit that cannot. -/
theorem KeepsDraft.require_bind (x : Except Error α) (change : α → Draft → Draft) (b : Bench) :
    KeepsDraft (Action.require x >>= fun a => edit (change a)) b := by
  cases x with
  | error e => exact .of_error (f := .reported e) (by rw [Action.perform_bind]; rfl)
  | ok a => exact .of_ok (Action.perform_bind_of_ok (Action.perform_require_ok a b))

theorem keepsDraft_resize (r : Resize) (b : Bench) : KeepsDraft (resize r) b := by
  unfold resize
  rcases r.filter? with e | _ | text
  · exact .of_error (f := .reported e) (by rw [Action.perform_bind]; rfl)
  · obtain ⟨h, hw⟩ := perform_warn ["Resize without width or height ignored"] b
    exact .of_ok (by rw [Action.perform_bind, Action.perform_require_ok]; exact hw)
  · exact .of_ok (Action.perform_bind_of_ok (Action.perform_require_ok (some text) b))

theorem keepsDraft_crop (c : Crop) (b : Bench) : KeepsDraft (crop c) b :=
  .require_bind c.check (fun _ d => d.addSimple c.filterText) b

theorem keepsDraft_rotate (r : Rotation) (b : Bench) : KeepsDraft (rotate r) b :=
  .require_bind r.check (fun _ d => d.addSimple r.filterText) b

theorem keepsDraft_editOrFail (change : Draft → Except Error Draft) (b : Bench) :
    KeepsDraft (editOrFail change) b := by
  unfold editOrFail
  rintro f b' h
  rw [Action.perform_bind, Action.perform_get] at h
  exact KeepsDraft.require_bind (change b.draft) (fun draft _ => draft) b f b' h

/-- Both ends of the command are checked before anything is built. -/
theorem keepsDraft_build (b : Bench) : KeepsDraft build b := by
  rintro f b' h
  unfold build at h
  rw [Action.perform_bind, Action.perform_get] at h
  by_cases hb : b.draft.isBuilt = true
  · simp only [hb, if_true] at h
    rw [Action.perform_bind, Action.perform_get] at h
    cases h
  · simp only [hb, Bool.false_eq_true, if_false] at h
    rcases Action.bind_error h with h | ⟨_, b₁, h₁, h⟩
    · rw [Action.require_error h]
    obtain ⟨_, rfl⟩ := Action.require_ok h₁
    obtain ⟨h₂, hw⟩ := perform_warn b₁.draft.leftOutWarning b₁
    rw [Action.perform_bind_of_ok hw] at h
    obtain ⟨h₃, hw⟩ := perform_warn b₁.draft.repeatedFilterWarning { b₁ with host := h₂ }
    rw [Action.perform_bind_of_ok hw] at h
    cases h

theorem keepsDraft_concat (c : Concatenation) (b : Bench) : KeepsDraft c.apply b := by
  unfold Concatenation.apply
  rcases c.strategy with _ | _
  · exact .of_ok (c.perform_applyFilter b)
  · rcases c.applyDemuxer_cases b with ⟨f, b₁, hb, hd⟩ | ⟨path, b₁, hb, -⟩
    · rintro f' b' h
      rw [hb] at h; cases h; exact hd
    · exact .of_ok hb

/-- An overlay that cannot be drawn leaves its source behind as one more input. -/
theorem keepsDraft_overlay_iff {o : Overlay} {b : Bench} (hc : o.check b.host = .ok ()) :
    KeepsDraft (Operation.applyOverlay o) b ↔ ¬ o.IsUndrawable b.host := by
  rw [← Overlay.overlayFilter_error_iff hc]
  have happly := Operation.perform_applyOverlay o b
  rcases hf : o.overlayFilter b.host with f | text
  · rw [hf] at happly
    -- By now the source is registered, and nothing takes it back.
    have hcount : (o.takeSource b.draft).2.command.inputCount = b.draft.command.inputCount + 1 := by
      rw [Overlay.takeSource_command]; rfl
    constructor
    · intro hkeeps
      have := hkeeps f _ happly
      simp only at this
      rw [this] at hcount
      omega
    · intro h; exact absurd ⟨f, rfl⟩ h
  · rw [hf] at happly
    constructor
    · rintro - ⟨f, ⟨⟩⟩
    · intro _; exact .of_ok happly

/-- An operation that is refused keeps the draft; one that passes its check keeps it unless it is
    an overlay that cannot be drawn. -/
theorem keepsDraft_add_iff (op : Operation) (b : Bench) :
    KeepsDraft (add op) b ↔
      ¬ ∃ o, op = .overlay o ∧ o.check b.host = .ok () ∧ o.IsUndrawable b.host := by
  have hadd := perform_add op b
  rcases hc : op.check b.host with e | _
  · rw [hc] at hadd
    refine iff_of_true (.of_error hadd) ?_
    rintro ⟨o, rfl, ho, -⟩
    have hc' : o.check b.host = .error e := hc
    rw [hc'] at ho; cases ho
  rw [hc] at hadd
  have happly : KeepsDraft (add op) b ↔ KeepsDraft op.apply b := by
    unfold KeepsDraft; rw [hadd]
  rw [happly]
  cases op with
  | overlay o =>
    have hc' : o.check b.host = .ok () := hc
    rw [Operation.apply, keepsDraft_overlay_iff hc']
    simp [hc']
  | caption c =>
    refine iff_of_true ?_ (by rintro ⟨o, ⟨⟩, -⟩)
    unfold Operation.apply
    rintro f b' h
    rw [Action.perform_bind, perform_requireText] at h
    rcases hf : c.filterText b.host with f' | text
    · rw [hf] at h; cases h; rfl
    · rw [hf] at h; cases h
  | concat c => exact iff_of_true (keepsDraft_concat c b) (by rintro ⟨o, ⟨⟩, -⟩)
  | _ =>
    obtain ⟨draft, hok, -⟩ := Operation.perform_apply_of_isPlain rfl hc
    exact iff_of_true (.of_ok hok) (by rintro ⟨o, ⟨⟩, -⟩)

/-- **Failed calls.** An operation that is added and fails leaves the whole draft as it was:
    arguments, inputs, filters, labels and audio. The only exception is an overlay that passes its
    check and cannot be drawn. A size, a crop, a rotation, a source filter and a build that fail
    always leave the draft as it was. -/
theorem keepsDraft_of_failure (b : Bench) :
    (∀ op : Operation, KeepsDraft (add op) b ↔
      ¬ ∃ o, op = .overlay o ∧ o.check b.host = .ok () ∧ o.IsUndrawable b.host) ∧
    (∀ r : Resize, KeepsDraft (resize r) b) ∧
    (∀ c : Crop, KeepsDraft (crop c) b) ∧
    (∀ r : Rotation, KeepsDraft (rotate r) b) ∧
    (∀ (text : String) (inputs outputs : List String),
      KeepsDraft (editOrFail fun d => d.addSource text inputs outputs) b) ∧
    KeepsDraft build b :=
  ⟨fun op => keepsDraft_add_iff op b, fun r => keepsDraft_resize r b,
    fun c => keepsDraft_crop c b, fun r => keepsDraft_rotate r b,
    fun text inputs outputs => keepsDraft_editOrFail (·.addSource text inputs outputs) b,
    keepsDraft_build b⟩

/-- An overlay that never ends passes its check, cannot be drawn, and leaves its source among the
    inputs. -/
theorem endless_overlay_changes_draft :
    let o : Overlay :=
      { source := "logo.png", window := { stop := some (.seconds (.infinity false)) } }
    let b : Bench :=
      { host := { tree := { entries := [(["logo.png"], .file "" false)] } }
        draft := (Draft.ofProgram "ffmpeg").withInput "in.mp4" }
    ((Operation.overlay o).check b.host).isOk = true ∧ ¬ KeepsDraft (add (.overlay o)) b ∧
      b.draft.command.arguments = ["-i", "in.mp4"] ∧
      ((add (.overlay o)).perform b).1.isOk = false ∧
      ((add (.overlay o)).perform b).2.draft.command.arguments =
        ["-i", "in.mp4", "-i", "logo.png"] := by
  intro o b
  have hfails : ((add (.overlay o)).perform b).1.isOk = false := by decide +kernel
  have hleft : ((add (.overlay o)).perform b).2.draft.command.arguments =
      ["-i", "in.mp4", "-i", "logo.png"] := by decide +kernel
  refine ⟨by decide +kernel, ?_, rfl, hfails, hleft⟩
  intro hkeeps
  rcases hrun : (add (.overlay o)).perform b with ⟨f | _, b'⟩
  · have hsame := hkeeps f b' hrun
    rw [hrun] at hleft
    simp only [hsame] at hleft
    exact absurd hleft (by decide)
  · rw [hrun] at hfails; cases hfails

end Bench

end Montage

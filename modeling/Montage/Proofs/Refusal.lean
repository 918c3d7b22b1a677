import Montage.Proofs.Check

/-!
# Refusals

Errors tell two things apart: a request that was refused, and a program that could not be started or
failed. All that is checked and rendered before a program runs fails by refusing, or because a
setting cannot be read or the machine does not answer.

* `Error.isRefusal`: the errors that say what is wrong with a request.
* `Refuses`: something that fails in no other way. The lemmas `refuses_check` of the operations say
  that their checks do so.
* `Failure.Escapes`, `Handled`: the failures that are no errors, and an outcome without them.
* `Checks`: something that looks at the host and fails by refusing, or for want of an answer.
-/

namespace Montage

/-- Whether an error says that a request was refused. The others tell how a program ran. -/
def Error.isRefusal : Error → Bool
  | programNotFound _ | executionFailed .. => false
  | invalidParameter .. | missingParameter _ | unusableInput .. | usage _ | refused _ => true

/-- If it fails, a request was refused. -/
def Refuses {α : Type} (x : Except Error α) : Prop := ∀ e, x = .error e → e.isRefusal = true

section Laws

variable {α β : Type}

@[simp] theorem refuses_ok (a : α) : Refuses (.ok a : Except Error α) := by rintro e ⟨⟩

@[simp] theorem refuses_pure (a : α) : Refuses (pure a : Except Error α) := refuses_ok a

@[simp] theorem refuses_error {e : Error} :
    Refuses (.error e : Except Error α) ↔ e.isRefusal = true := by
  constructor
  · intro h; exact h e rfl
  · rintro h e' ⟨⟩; exact h

@[simp] theorem refuses_bind {x : Except Error α} {f : α → Except Error β} :
    Refuses (x >>= f) ↔ Refuses x ∧ ∀ a, x = .ok a → Refuses (f a) := by
  cases x with
  | error e => simp
  | ok a => simp

@[simp] theorem refuses_map {x : Except Error α} {f : α → β} : Refuses (f <$> x) ↔ Refuses x := by
  cases x with
  | error e => exact refuses_error.trans refuses_error.symm
  | ok a => exact iff_of_true (refuses_ok _) (refuses_ok a)

@[simp] theorem refuses_ite {p : Prop} [Decidable p] {x y : Except Error α} :
    Refuses (if p then x else y) ↔ (p → Refuses x) ∧ (¬ p → Refuses y) := by
  by_cases hp : p <;> simp [hp]

end Laws

/-! ## Times -/

namespace Time

@[simp] theorem refuses_checkClock (text : String) : Refuses (checkClock text) := by
  simp [checkClock, Error.isRefusal]

@[simp] theorem refuses_checkNumber (n : Binary64) : Refuses (checkNumber n) := by
  simp [checkNumber, Error.isRefusal]

@[simp] theorem refuses_fieldNumber (text : String) (field : List Char) :
    Refuses (fieldNumber text field) := by
  unfold fieldNumber
  split <;> simp [Error.isRefusal]

@[simp] theorem refuses_fieldSum (text : String) (fields : List (List Char)) :
    Refuses (fieldSum text fields) := by
  unfold fieldSum
  split <;> simp

@[simp] theorem refuses_toSeconds (t : Time) : Refuses t.toSeconds := by
  cases t <;> simp [toSeconds, clockSeconds]

@[simp] theorem refuses_check (t : Time) : Refuses t.check := by
  cases t <;> simp [check]

@[simp] theorem refuses_secondsText (t : Time) : Refuses t.secondsText := by
  simp [secondsText]

end Time

/-! ## Windows and placements -/

namespace Window

@[simp] theorem refuses_check (w : Window) : Refuses w.check := by
  obtain ⟨start, stop⟩ := w
  cases start <;> cases stop <;> simp [check, Error.isRefusal]

@[simp] theorem refuses_boundText (missing : String) (bound : Option Time) :
    Refuses (boundText missing bound) := by
  cases bound <;> simp [boundText]

@[simp] theorem refuses_option (w : Window) : Refuses w.option := by
  simp [option]

end Window

@[simp] theorem Placement.refuses_check (p : Placement) : Refuses p.check := by
  simp [check, Error.isRefusal]

/-! ## Operations -/

@[simp] theorem Trim.refuses_boundSeconds (bound : Option Time) : Refuses (boundSeconds bound) := by
  cases bound <;> simp [boundSeconds]

theorem Trim.refuses_check (t : Trim) : Refuses t.check := by
  simp [check, Error.isRefusal]

theorem Resize.refuses_check (r : Resize) : Refuses r.check := by
  simp [check, Error.isRefusal]

theorem Resize.refuses_filter? (r : Resize) : Refuses r.filter? := by
  obtain ⟨width, height, keepsAspect⟩ := r
  cases width <;> cases height <;> simp [filter?, Error.isRefusal]

theorem Crop.refuses_check (c : Crop) : Refuses c.check := by
  simp [check, Error.isRefusal]

theorem Rotation.refuses_check (r : Rotation) : Refuses r.check := by
  simp [check, Error.isRefusal]

theorem Speed.refuses_check (s : Speed) : Refuses s.check := by
  simp [check, Error.isRefusal]

@[simp] theorem ColorAdjustment.refuses_checkRange (parameter label : String)
    (low high : Binary64) (value : Option Binary64) :
    Refuses (checkRange parameter label low high value) := by
  cases value <;> simp [checkRange, Error.isRefusal]

theorem ColorAdjustment.refuses_check (a : ColorAdjustment) : Refuses a.check := by
  simp [check, Error.isRefusal]

theorem Caption.refuses_check (c : Caption) : Refuses c.check := by
  obtain ⟨text, place, fontFile, fontSize, fontColor, background, border, window⟩ := c
  cases fontSize <;> cases border <;> simp [check, Error.isRefusal]

theorem Overlay.refuses_checkValues (o : Overlay) : Refuses o.checkValues := by
  obtain ⟨source, place, scale, width, height, opacity, window⟩ := o
  cases scale <;> cases width <;> cases height <;> cases opacity <;>
    simp [checkValues, Error.isRefusal]

theorem Encoding.refuses_check (e : Encoding) : Refuses e.check := by
  obtain ⟨codec, bitrate, quality, preset⟩ := e
  cases quality <;> cases preset <;> simp [check, Error.isRefusal]

theorem ConcatStrategy.refuses_ofName (text : String) : Refuses (ofName text) := by
  simp [ofName, Error.isRefusal]

theorem Command.refuses_checkEnds (c : Command) : Refuses c.checkEnds := by
  simp [checkEnds, Error.isRefusal]

/-! ## Checks that look at the host -/

/-- Nothing catches a failure that is no error. -/
def Failure.Escapes : Failure → Prop
  | .reported _ => False
  | .setting _ | .machine _ => True

/-- Nothing escapes: there is a result, or an error. -/
def Handled {α : Type} (outcome : Except Failure α) : Prop := ∀ f, outcome = .error f → ¬ f.Escapes

/-- What a check fails with: a refusal, or a question that the machine does not answer. -/
def Failure.IsOfCheck : Failure → Prop
  | .reported e => e.isRefusal = true
  | .setting _ => False
  | .machine _ => True

/-- If it fails, it fails as checks do. -/
def Checks {α : Type} (x : Except Failure α) : Prop := ∀ f, x = .error f → f.IsOfCheck

section Laws

variable {α β : Type}

theorem checks_ok (a : α) : Checks (.ok a) := by rintro f ⟨⟩

theorem checks_reported {x : Except Error α} (h : Refuses x) : Checks (x.mapError .reported) := by
  cases x with
  | ok a => exact checks_ok a
  | error e =>
    rintro f ⟨⟩
    exact h e rfl

theorem checks_machine (x : Except FileFault α) : Checks (x.mapError .machine) := by
  cases x with
  | ok a => exact checks_ok a
  | error fault =>
    rintro f ⟨⟩
    trivial

theorem checks_bind {x : Except Failure α} {g : α → Except Failure β} (hx : Checks x)
    (hg : ∀ a, Checks (g a)) : Checks (x >>= g) := by
  intro f hf
  rcases bind_eq_error.mp hf with hf | ⟨a, -, hf⟩
  · exact hx f hf
  · exact hg a f hf

end Laws

theorem Host.checks_requireFile (h : Host) (path details : String) :
    Checks (h.requireFile path details) := by
  unfold requireFile
  rcases h.pathExists path with fault | _ | _
  · rintro f ⟨⟩
    trivial
  · rintro f ⟨⟩
    rfl
  · exact checks_ok ()

theorem Overlay.checks_check (o : Overlay) (h : Host) : Checks (o.check h) := by
  unfold check
  by_cases hempty : o.source.isEmpty = true
  · simp only [hempty, if_true]
    rintro f ⟨⟩
    rfl
  · simp only [hempty]
    exact checks_bind (h.checks_requireFile _ _) fun _ => checks_reported o.refuses_checkValues

namespace Concatenation

theorem checks_checkInputs (inputs : List String) (h : Host) : Checks (checkInputs inputs h) := by
  unfold checkInputs
  by_cases hempty : inputs.isEmpty = true
  · simp only [hempty, if_true]
    rintro f ⟨⟩
    rfl
  simp only [hempty]
  change Checks (inputs.forM fun path => h.requireFile path s!"File does not exist: {path}")
  clear hempty
  induction inputs with
  | nil => exact checks_ok ()
  | cons path rest ih => exact checks_bind (h.checks_requireFile _ _) fun _ => ih

theorem checks_folderOf (tempFolder : String) (h : Host) : Checks (folderOf tempFolder h) := by
  unfold folderOf
  by_cases hempty : tempFolder.isEmpty = true
  · simp only [hempty, if_true]
    exact checks_machine _
  · simp only [hempty]
    exact checks_ok _

theorem checks_strategyOf (strategy : Option String) : Checks (strategyOf strategy) := by
  cases strategy with
  | none => exact checks_ok _
  | some name => exact checks_reported (ConcatStrategy.refuses_ofName name)

theorem checks_ofRequest (r : ConcatRequest) (folder : String) (h : Host) :
    Checks (ofRequest r folder h) :=
  checks_bind (checks_folderOf folder h) fun _ =>
    checks_bind (checks_checkInputs r.inputs h) fun _ =>
      checks_bind (checks_strategyOf r.strategy) fun _ => checks_ok _

end Concatenation

/-- A check that fails refuses the request, or it asked for what the machine does not tell. -/
theorem Operation.checks_check (op : Operation) (h : Host) : Checks (op.check h) := by
  cases op with
  | trim t => exact checks_reported t.refuses_check
  | resize r => exact checks_reported r.refuses_check
  | crop c => exact checks_reported c.refuses_check
  | rotate r => exact checks_reported r.refuses_check
  | speed s => exact checks_reported s.refuses_check
  | adjustColor a => exact checks_reported a.refuses_check
  | caption c => exact checks_reported c.refuses_check
  | overlay o => exact o.checks_check h
  | encode e => exact checks_reported e.refuses_check
  | concat c => exact Concatenation.checks_checkInputs c.inputs h

end Montage

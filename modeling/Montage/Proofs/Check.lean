import Montage.Operation

/-!
# What a passed check says

A check is a row of guards. Each lemma `check_ok` of an operation gives the facts that its check
establishes; the laws on `Except` take the guards apart.
-/

namespace Montage

/-! ## Guards -/

section Guards

variable {ε α β : Type}

theorem bind_eq_ok {x : Except ε α} {f : α → Except ε β} {b : β} :
    (x >>= f) = .ok b ↔ ∃ a, x = .ok a ∧ f a = .ok b := by
  cases x with
  | error e =>
    constructor
    · rintro ⟨⟩
    · rintro ⟨_, ⟨⟩, _⟩
  | ok a =>
    constructor
    · intro h; exact ⟨a, rfl, h⟩
    · rintro ⟨_, ⟨⟩, h⟩; exact h

theorem bind_eq_error {x : Except ε α} {f : α → Except ε β} {e : ε} :
    (x >>= f) = .error e ↔ x = .error e ∨ ∃ a, x = .ok a ∧ f a = .error e := by
  cases x with
  | error e' =>
    constructor
    · rintro ⟨⟩; exact .inl rfl
    · rintro (⟨⟨⟩⟩ | ⟨_, ⟨⟩, _⟩); rfl
  | ok a =>
    constructor
    · intro h; exact .inr ⟨a, rfl, h⟩
    · rintro (⟨⟨⟩⟩ | ⟨_, ⟨⟩, h⟩); exact h

@[simp] theorem pure_eq_ok {a b : α} : (pure a : Except ε α) = .ok b ↔ a = b := by
  constructor
  · rintro ⟨⟩; rfl
  · rintro rfl; rfl

@[simp] theorem pure_ne_error {a : α} {e : ε} : (pure a : Except ε α) ≠ .error e := by
  rintro ⟨⟩

@[simp] theorem throw_eq_error {e : ε} : (throw e : Except ε α) = .error e := rfl

@[simp] theorem error_bind {e : ε} {f : α → Except ε β} :
    ((.error e : Except ε α) >>= f) = .error e := rfl

@[simp] theorem ok_bind {a : α} {f : α → Except ε β} : ((.ok a : Except ε α) >>= f) = f a := rfl

theorem mapError_eq_ok {ε' : Type} {f : ε → ε'} {x : Except ε α} {a : α} :
    x.mapError f = .ok a ↔ x = .ok a := by
  cases x with
  | error e => constructor <;> rintro ⟨⟩
  | ok b => constructor <;> (rintro ⟨⟩; rfl)

/-- Several checks in a row fail as the first of them does that fails. -/
theorem forM_eq_error {check : α → Except ε PUnit} {xs : List α} {e : ε} :
    forM xs check = .error e ↔ ∃ before x behind, xs = before ++ x :: behind ∧
      (∀ y ∈ before, check y = .ok ()) ∧ check x = .error e := by
  induction xs with
  | nil =>
    refine iff_of_false (by rintro ⟨⟩) ?_
    rintro ⟨before, x, behind, hxs, -⟩
    simp at hxs
  | cons x xs ih =>
    rw [List.forM_cons, bind_eq_error, ih]
    constructor
    · rintro (hx | ⟨⟨⟩, hx, before, y, behind, rfl, hbefore, hy⟩)
      · exact ⟨[], x, xs, rfl, by rintro y ⟨⟩, hx⟩
      · exact ⟨x :: before, y, behind, rfl, List.forall_mem_cons.mpr ⟨hx, hbefore⟩, hy⟩
    · rintro ⟨_ | ⟨z, before⟩, y, behind, hxs, hbefore, hy⟩
      · cases hxs
        exact .inl hy
      · cases hxs
        obtain ⟨hx, hbefore⟩ := List.forall_mem_cons.mp hbefore
        exact .inr ⟨(), hx, before, y, behind, rfl, hbefore, hy⟩

/-- A guard that refuses what has the property `p`. -/
theorem refuse_eq_ok {p : Prop} [Decidable p] {e : ε} {x : Except ε α} {a : α} :
    (if p then .error e else x) = .ok a ↔ ¬ p ∧ x = .ok a := by
  by_cases hp : p <;> simp [hp]

/-- A guard that refuses what lacks the property `p`. -/
theorem demand_eq_ok {p : Prop} [Decidable p] {e : ε} {x : Except ε α} {a : α} :
    (if p then x else .error e) = .ok a ↔ p ∧ x = .ok a := by
  by_cases hp : p <;> simp [hp]

end Guards

/-! ## Operations -/

theorem Resize.check_ok {r : Resize} (h : r.check = .ok ()) :
    ¬ (r.width = none ∧ r.height = none) ∧ isNonPositive r.width = false ∧
      isNonPositive r.height = false := by
  simpa [check, refuse_eq_ok] using h

/-- A size that passes the check has a filter. -/
theorem Resize.filter?_of_check {r : Resize} (h : r.check = .ok ()) :
    ∃ text, r.filter? = .ok (some text) := by
  obtain ⟨hsome, hw, hh⟩ := check_ok h
  rw [filter?, hw, hh]
  rcases hw' : r.width with _ | w <;> rcases hh' : r.height with _ | h
  · exact absurd ⟨hw', hh'⟩ hsome
  all_goals exact ⟨_, rfl⟩

theorem Concatenation.inputs_ne_nil_of_check {c : Concatenation} {host : Host}
    (h : c.check host = .ok ()) : c.inputs ≠ [] := by
  simp only [check, checkInputs, throw_eq_error, error_bind, refuse_eq_ok] at h
  simpa using h.1

theorem Overlay.checkValues_of_check {o : Overlay} {host : Host} (h : o.check host = .ok ()) :
    o.checkValues = .ok () := by
  simp only [check, throw_eq_error, error_bind, refuse_eq_ok] at h
  obtain ⟨-, h⟩ := h
  obtain ⟨⟨⟩, -, hvalues⟩ := bind_eq_ok.mp h
  exact mapError_eq_ok.mp hvalues

theorem Overlay.window_check {o : Overlay} {host : Host} (h : o.check host = .ok ()) :
    o.window.check = .ok () := by
  have hvalues := checkValues_of_check h
  obtain ⟨source, place, scale, width, height, opacity, window⟩ := o
  cases opacity <;> cases scale <;> cases width <;> cases height <;>
    simp [checkValues, refuse_eq_ok, demand_eq_ok, bind_eq_ok] at hvalues <;> simp [hvalues]

theorem Caption.window_check {c : Caption} (h : c.check = .ok ()) : c.window.check = .ok () := by
  obtain ⟨text, place, fontFile, fontSize, fontColor, background, border, window⟩ := c
  cases fontSize <;> cases border <;>
    simp [check, refuse_eq_ok, bind_eq_ok] at h <;> simp [h]

end Montage

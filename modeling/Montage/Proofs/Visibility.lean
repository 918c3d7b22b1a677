import Montage.Proofs.Numeral
import Montage.Proofs.Rollback

/-!
# Checked windows, and what is shown in them

A window is checked by the values of its bounds and written by their texts. The check compares values
only, so that it lets numbers through that cannot be written, values of parts that are not finite, and a
start behind the end that an open window is given. All other checked windows are written as two numbers
in order, and what is shown in them has a filter that ends with the window.

* `Window.boundValue`: the value of a bound that may be missing.
* `Window.Renders`: a text switches a filter on between two numbers.
* `Binary64.IsSpan`: two finite numbers in order, the first not below zero.
* `Window.IsRendered`: what becomes of a checked window.
* `Window.Ends`: a filter that has a text unless its place or its window cannot be written.

Results:
* `Window.values_of_check`: what the check says of the values of the bounds.
* `Window.isSpan_iff`: when the bounds of a checked window are a span.
* `Window.shown_of_check`: windows, captions and overlays that pass their checks.
-/

namespace Montage

open Number (ReadsAs)

/-- Two finite numbers in order, the first of them not below zero. -/
structure Binary64.IsSpan (x y : Binary64) : Prop where
  isFinite_start : x.isFinite = true
  isFinite_stop : y.isFinite = true
  nonneg : 0 ≤ x.value
  le : x.value ≤ y.value

namespace Window

/-! ## Values and texts -/

/-- The value of a bound; a missing one has a value of its own. -/
def boundValue (missing : Binary64) : Option Time → Except Error Binary64
  | some t => t.toSeconds
  | none => .ok missing

/-- A text switches a filter on between two numbers: the values of the bounds, zero if there is no start
    and 999999 if there is no end. -/
structure Renders (w : Window) (text : String) (x y : Binary64) : Prop where
  start : boundValue 0 w.start = .ok x
  stop : boundValue 999999 w.stop = .ok y
  written : ∃ S E, text = s!"enable='between(t,{S},{E})'" ∧ ReadsAs S x ∧ ReadsAs E y

variable {w : Window}

theorem bound_cases (value : Binary64) {missing : String} (hmissing : value.text = missing)
    {bound : Option Time} {text : String} (h : boundText missing bound = .ok text) :
    ∃ x, boundValue value bound = .ok x ∧ text = x.text := by
  cases bound with
  | none =>
    cases h
    exact ⟨value, rfl, hmissing.symm⟩
  | some t =>
    obtain ⟨_, -, h⟩ := bind_eq_ok.mp h
    obtain ⟨x, hx, h⟩ := bind_eq_ok.mp h
    exact ⟨x, hx, (pure_eq_ok.mp h).symm⟩

/-- A window without bounds has no option; any other has the texts of both bounds in it. -/
theorem option_cases {text : String} (h : w.option = .ok text) :
    (w.start = none ∧ w.stop = none ∧ text = "") ∨
      (¬ (w.start = none ∧ w.stop = none) ∧ text ≠ "" ∧ ∃ x y, w.Renders text x y) := by
  rw [option] at h
  by_cases hnone : (w.start.isNone && w.stop.isNone) = true
  · rw [if_pos hnone] at h
    rw [Bool.and_eq_true, Option.isNone_iff_eq_none, Option.isNone_iff_eq_none] at hnone
    cases h
    exact .inl ⟨hnone.1, hnone.2, rfl⟩
  · rw [if_neg hnone] at h
    rw [Bool.and_eq_true, Option.isNone_iff_eq_none, Option.isNone_iff_eq_none] at hnone
    obtain ⟨S, hS, h⟩ := bind_eq_ok.mp h
    obtain ⟨E, hE, h⟩ := bind_eq_ok.mp h
    obtain ⟨x, hx, rfl⟩ := bound_cases 0 (by decide +kernel) hS
    obtain ⟨y, hy, rfl⟩ := bound_cases 999999 (by decide +kernel) hE
    have htext := pure_eq_ok.mp h
    refine .inr ⟨hnone, ?_, x, y, hx, hy, x.text, y.text, htext.symm, x.readsAs_text, y.readsAs_text⟩
    intro hempty
    rw [hempty, String.append_eq_empty_iff] at htext
    exact absurd htext.2 (by decide)

/-! ## The check -/

/-- What the check says of the values of the bounds: it compares what is given. -/
theorem values_of_check (h : w.check = .ok ()) {x y : Binary64} (hx : boundValue 0 w.start = .ok x)
    (hy : boundValue 999999 w.stop = .ok y) : (w.start ≠ none → ¬ x < 0) ∧ (w.stop ≠ none → ¬ y < x) := by
  obtain ⟨start, stop⟩ := w
  cases start <;> cases stop <;> simp only [boundValue, Except.ok.injEq] at hx hy <;>
    simp [check, refuse_eq_ok, hx, hy] at h ⊢ <;> exact h

/-- The bounds of a checked window are a span unless one is not finite, or an open window starts behind
    its end. -/
theorem isSpan_iff (h : w.check = .ok ()) {x y : Binary64} (hx : boundValue 0 w.start = .ok x)
    (hy : boundValue 999999 w.stop = .ok y) : x.IsSpan y ↔
      x.isFinite = true ∧ y.isFinite = true ∧ (w.stop = none → x.value ≤ 999999) := by
  obtain ⟨hstart, hstop⟩ := values_of_check h hx hy
  have hopen : (999999 : Binary64).value = 999999 := by
    exact_mod_cast (Binary64.value_ofInt (n := 999999) (by norm_num)).2
  constructor
  · intro hspan
    refine ⟨hspan.isFinite_start, hspan.isFinite_stop, fun hnone => ?_⟩
    rw [hnone] at hy
    cases hy
    rw [← hopen]
    exact hspan.le
  · rintro ⟨hxf, hyf, hend⟩
    refine ⟨hxf, hyf, ?_, ?_⟩
    · by_cases hnone : w.start = none
      · rw [hnone] at hx
        cases hx
        exact Binary64.value_zero.ge
      · have hnonneg := hstart hnone
        rwa [Binary64.lt_iff hxf (y := 0) Binary64.isUnsigned_zero.isFinite, Binary64.value_zero,
          not_lt] at hnonneg
    · by_cases hnone : w.stop = none
      · rw [hnone] at hy
        cases hy
        rw [hopen]
        exact hend hnone
      · have hle := hstop hnone
        rwa [Binary64.lt_iff hyf hxf, not_lt] at hle

/-- What becomes of a checked window: it is written unless a bound cannot be, as a text that is empty just
    if there are no bounds and switches a filter on between the two values otherwise. -/
structure IsRendered (w : Window) : Prop where
  option_iff : (∃ text, w.option = .ok text) ↔ ¬ w.HasUnwritableBound
  eq_empty_iff {text : String} : w.option = .ok text → (text = "" ↔ w.start = none ∧ w.stop = none)
  renders {text : String} : w.option = .ok text → text ≠ "" → ∃ x y, w.Renders text x y ∧
    (x.IsSpan y ↔ x.isFinite = true ∧ y.isFinite = true ∧ (w.stop = none → x.value ≤ 999999))

theorem isRendered_of_check (h : w.check = .ok ()) : w.IsRendered where
  option_iff := by
    rw [← option_error_iff h]
    rcases hoption : w.option with e | text
    · exact iff_of_false nofun (not_not_intro ⟨e, rfl⟩)
    · exact iff_of_true ⟨text, rfl⟩ nofun
  eq_empty_iff htext := by
    rcases option_cases htext with ⟨hstart, hstop, hempty⟩ | ⟨hbound, hne, -⟩
    · exact iff_of_true hempty ⟨hstart, hstop⟩
    · exact iff_of_false hne hbound
  renders htext hne := by
    rcases option_cases htext with ⟨-, -, hempty⟩ | ⟨-, -, x, y, hrenders⟩
    · exact absurd hempty hne
    · exact ⟨x, y, hrenders, isSpan_iff h hrenders.start hrenders.stop⟩

end Window

/-! ## What is shown -/

/-- A place whose coordinates can be written: at an anchor, the padding setting has to be readable. -/
def Placement.IsPlaceable (p : Placement) (h : Host) : Prop :=
  p.anchor = none ∨ ∃ n, Settings.overlayPadding h = .ok n

theorem Caption.coordinates_ok_iff (p : Placement) (h : Host) :
    (∃ xy, coordinates p h = .ok xy) ↔ p.IsPlaceable h := by
  rcases ha : p.anchor with _ | anchor
  · by_cases hxy : (p.x.isSome || p.y.isSome) = true <;> simp [coordinates, Placement.IsPlaceable, ha, hxy]
  · rcases hp : Settings.overlayPadding h with fault | n <;>
      simp [coordinates, Placement.IsPlaceable, ha, Placement.distance, hp]

theorem Overlay.coordinates_ok_iff (p : Placement) (h : Host) :
    (∃ xy, coordinates p h = .ok xy) ↔ p.IsPlaceable h := by
  rcases ha : p.anchor with _ | anchor
  · simp [coordinates, Placement.IsPlaceable, ha]
  · rcases hp : Settings.overlayPadding h with fault | n <;>
      simp [coordinates, Placement.IsPlaceable, ha, Placement.distance, hp]

namespace Window

variable {w : Window}

/-- What shows something at a place in a checked window: it has a text unless the place or the window
    cannot be written, and the option of the window ends the text. -/
structure Ends (w : Window) (p : Placement) (h : Host) (filter : Except Failure String) : Prop where
  check : w.check = .ok ()
  filter_iff : (∃ text, filter = .ok text) ↔ p.IsPlaceable h ∧ ¬ w.HasUnwritableBound
  ends {text : String} : filter = .ok text → ∃ front shown, w.option = .ok shown ∧
    text = front ++ if shown.isEmpty then "" else ":" ++ shown

/-- A filter that is put together of coordinates and a window. -/
theorem ends_of_coordinates {p : Placement} {h : Host} {coordinates : Except Failure (String × String)}
    (front : String → String → String) (hcheck : w.check = .ok ())
    (hcoordinates : (∃ xy, coordinates = .ok xy) ↔ p.IsPlaceable h) :
    w.Ends p h (do
      let (x, y) ← coordinates
      let shown ← w.option.mapError .reported
      return front x y ++ if shown.isEmpty then "" else ":" ++ shown) := by
  refine ⟨hcheck, ?_, fun htext => ?_⟩
  · rw [← hcoordinates, ← (isRendered_of_check hcheck).option_iff]
    constructor
    · rintro ⟨text, htext⟩
      obtain ⟨xy, hxy, htext⟩ := bind_eq_ok.mp htext
      obtain ⟨shown, hshown, -⟩ := bind_eq_ok.mp htext
      exact ⟨⟨xy, hxy⟩, shown, mapError_eq_ok.mp hshown⟩
    · rintro ⟨⟨xy, rfl⟩, shown, hshown⟩
      rw [hshown]
      exact ⟨_, rfl⟩
  · obtain ⟨xy, hxy, htext⟩ := bind_eq_ok.mp htext
    obtain ⟨shown, hshown, htext⟩ := bind_eq_ok.mp htext
    exact ⟨front xy.1 xy.2, shown, mapError_eq_ok.mp hshown, (pure_eq_ok.mp htext).symm⟩

theorem ends_filterText {c : Caption} (hc : c.check = .ok ()) (h : Host) :
    c.window.Ends c.place h (c.filterText h) :=
  ends_of_coordinates (fun x y =>
    c.lookText ++ Caption.option "x" (some x) ++ Caption.option "y" (some y)) (Caption.window_check hc)
    (Caption.coordinates_ok_iff c.place h)

theorem ends_overlayFilter {o : Overlay} {h : Host} (ho : o.check h = .ok ()) :
    o.window.Ends o.place h (o.overlayFilter h) :=
  ends_of_coordinates (fun x y => s!"overlay={x}:{y}") (Overlay.window_check ho)
    (Overlay.coordinates_ok_iff o.place h)

/-- **Checked windows are written unless a bound cannot be.** A window that passes the check is written
    just if none of its bounds is a number that is not finite or below zero. What is written is empty just
    if there are no bounds; otherwise the two numbers in it are read back as the values of the bounds, and
    they are a span unless one of them is not finite or an open window starts after 999999. Captions and
    overlays that pass their checks have a checked window, and they have a filter just if the window and
    the place can be written. -/
theorem shown_of_check (w : Window) (h : Host) :
    (w.check = .ok () → w.IsRendered) ∧
    (∀ c : Caption, c.window = w → c.check = .ok () → w.Ends c.place h (c.filterText h)) ∧
    (∀ o : Overlay, o.window = w → o.check h = .ok () → w.Ends o.place h (o.overlayFilter h)) := by
  refine ⟨isRendered_of_check, ?_, ?_⟩
  · rintro c rfl hc
    exact ends_filterText hc h
  · rintro o rfl ho
    exact ends_overlayFilter ho

/-- A window from a text to parts is a span of a minute and some seconds to an hour. -/
theorem shown_of_check_text_and_parts :
    let w : Window := { start := some (.clock "1:05.5"), stop := some (.parts { hours := 1 }) }
    w.check = .ok () ∧ w.option = .ok "enable='between(t,65.5,3600)'" ∧
      ∃ x y, w.Renders "enable='between(t,65.5,3600)'" x y ∧ x.IsSpan y := by
  intro w
  have hcheck : w.check = .ok () := by decide +kernel
  have hoption : w.option = .ok "enable='between(t,65.5,3600)'" := by decide +kernel
  have hstart : boundValue 0 w.start = .ok 65.5 := by decide +kernel
  have hstop : boundValue 999999 w.stop = .ok 3600 := by decide +kernel
  obtain ⟨x, y, hrenders, hspan⟩ := ((shown_of_check w {}).1 hcheck).renders hoption (by decide)
  obtain rfl : 65.5 = x := Except.ok.inj (hstart.symm.trans hrenders.start)
  obtain rfl : 3600 = y := Except.ok.inj (hstop.symm.trans hrenders.stop)
  exact ⟨hcheck, hoption, _, _, hrenders, hspan.mpr ⟨by decide +kernel, by decide +kernel, nofun⟩⟩

/-- A caption that never ends passes its check, as its window does, and has no filter. -/
theorem endless_window_is_not_written :
    let w : Window := { stop := some (.seconds (.infinity false)) }
    let c : Caption := { text := "hi", window := w }
    w.check = .ok () ∧ (∀ text, w.option ≠ .ok text) ∧ c.check = .ok () ∧
      ∀ h text, c.filterText h ≠ .ok text := by
  intro w c
  have hbound : w.HasUnwritableBound := ⟨.seconds (.infinity false), .inr rfl, rfl⟩
  have hcheck : w.check = .ok () := by decide +kernel
  have hcheck' : c.check = .ok () := by decide +kernel
  refine ⟨hcheck, fun text htext => ?_, hcheck', fun h text htext => ?_⟩
  · exact (isRendered_of_check hcheck).option_iff.mp ⟨text, htext⟩ hbound
  · exact ((ends_filterText hcheck' h).filter_iff.mp ⟨text, htext⟩).2 hbound

end Window

end Montage

import Montage.Proofs.ClockText
import Montage.Proofs.Marking
import Montage.Proofs.Overflow
import Montage.Proofs.TempoText
import Montage.Proofs.Trimming

/-!
# Numbers that are not finite

Every operation checks its numbers in its own way, and some are changed after they were checked. Here all
numbers that an operation writes are looked at: which of them can be an infinity or not-a-number, although
the operation passed its check and was added.

* `Part.IsNonFinite`: a number that is written as an infinity or as not-a-number.
* `Marks.HasNonFinite`, `Marks.AnyNonFinite`: texts with such a number.
* `Time.HasEndlessSeconds`, `Time.IsEndless`: a time in parts whose seconds, or their sum with the rest, are
  not finite.
* `Operation.IsUnguarded`: the operations whose checks let such a number through.

Results:
* `Rotation.isFinite_radians_iff`: which angles are too large for their radians.
* `Operation.anyNonFinite_iff`: the numbers in all that an operation adds.
* `Bench.writes_nonFinite_iff`: which operations write a number that is not finite.
-/

namespace Montage

/-! ## Parts -/

/-- Numbers with the same text are the same. -/
theorem Binary64.text_injective {x y : Binary64} (h : x.text = y.text) : x = y := by
  obtain ⟨r, hr, rfl⟩ := x.readsAs_text
  obtain ⟨r', hr', rfl⟩ := y.readsAs_text
  rw [h, hr', Option.some.injEq, Prod.mk.injEq] at hr
  rw [hr.1]

namespace Part

/-- How the numbers are written that are not finite. -/
def nonFiniteTexts : List String := ["inf", "-inf", "nan"]

/-- A number that is written as an infinity or as not-a-number. -/
def IsNonFinite (part : Part) : Prop := part.isNumber = true ∧ part.text ∈ nonFiniteTexts

theorem mem_of_mem_nonFiniteTexts {text : String} (h : text ∈ nonFiniteTexts) : 'n' ∈ text.toList := by
  simp only [nonFiniteTexts, List.mem_cons, List.not_mem_nil, or_false] at h
  rcases h with rfl | rfl | rfl <;> decide

theorem text_mem_iff (x : Binary64) : x.text ∈ nonFiniteTexts ↔ x.isFinite = false := by
  have hinf : (Binary64.infinity false).text = "inf" := rfl
  have hinf' : (Binary64.infinity true).text = "-inf" := rfl
  have hnan : Binary64.nan.text = "nan" := rfl
  constructor
  · intro h
    simp only [nonFiniteTexts, List.mem_cons, List.not_mem_nil, or_false] at h
    rw [← hinf, ← hinf', ← hnan] at h
    rcases h with h | h | h <;> rw [Binary64.text_injective h] <;> rfl
  · cases x with
    | nan => exact fun _ => by decide
    | infinity negative => cases negative <;> exact fun _ => by decide
    | finite => exact nofun

theorem notMem_of_isDigit {cs : List Char} (h : ∀ c ∈ cs, c.isDigit = true) : 'n' ∉ cs :=
  fun hmem => absurd (h 'n' hmem) (by decide)

theorem notMem_signText (negative : Bool) : 'n' ∉ Binary64.signText negative := by
  cases negative <;> decide

theorem fixed_mem_iff (places : Nat) (x : Binary64) :
    x.fixed places ∈ nonFiniteTexts ↔ x.isFinite = false := by
  cases x with
  | nan => exact text_mem_iff .nan
  | infinity negative => exact text_mem_iff (.infinity negative)
  | finite negative m =>
    refine iff_of_false (fun h => ?_) nofun
    have hmem := mem_of_mem_nonFiniteTexts h
    rw [Binary64.fixed, String.toList_ofList, List.mem_append, List.mem_append] at hmem
    rcases hmem with (hmem | hmem) | hmem
    · exact notMem_signText negative hmem
    · exact notMem_of_isDigit (fun _ => Decimal.isDigit_of_mem_digits) hmem
    · split at hmem
      · cases hmem
      · rw [List.mem_append, List.mem_cons] at hmem
        rcases hmem with (hmem | hmem) | hmem
        · exact absurd hmem (by decide)
        · exact notMem_of_isDigit (fun _ => Decimal.isDigit_of_mem_zeros) hmem
        · exact notMem_of_isDigit (fun _ => Decimal.isDigit_of_mem_digits) hmem

theorem padded_notMem (width : Nat) (n : Int) : Decimal.padded width n ∉ nonFiniteTexts := by
  intro h
  have hmem := mem_of_mem_nonFiniteTexts h
  rw [Decimal.padded, String.toList_ofList, List.mem_append, List.mem_append] at hmem
  rcases hmem with (hmem | hmem) | hmem
  · split at hmem <;> simp at hmem
  · exact notMem_of_isDigit (fun _ => Decimal.isDigit_of_mem_zeros) hmem
  · exact notMem_of_isDigit (fun _ => Decimal.isDigit_of_mem_digits) hmem

@[simp] theorem not_isNonFinite_words (text : String) : ¬ (words text).IsNonFinite :=
  fun h => Bool.false_ne_true h.1

@[simp] theorem not_isNonFinite_whole (width : Nat) (n : Int) : ¬ (whole width n).IsNonFinite :=
  fun h => padded_notMem width n h.2

@[simp] theorem isNonFinite_number (x : Binary64) : (number x).IsNonFinite ↔ x.isFinite = false :=
  (and_iff_right rfl).trans (text_mem_iff x)

@[simp] theorem isNonFinite_rounded (places : Nat) (x : Binary64) :
    (rounded places x).IsNonFinite ↔ x.isFinite = false :=
  (and_iff_right rfl).trans (fixed_mem_iff places x)

theorem not_isNonFinite_clock {text : String} (h : Time.isClock text.toList = true) :
    ¬ (clock text).IsNonFinite := by
  rintro ⟨-, hmem⟩
  have hletter := mem_of_mem_nonFiniteTexts hmem
  exact absurd (Time.mem_of_isClock h hletter) (by decide)

end Part

namespace Marks

/-- A text with such a number. -/
def HasNonFinite (text : Marks) : Prop := ∃ part ∈ text, part.IsNonFinite

@[simp] theorem not_hasNonFinite_nil : ¬ HasNonFinite [] := by simp [HasNonFinite]

@[simp] theorem hasNonFinite_cons (part : Part) (rest : Marks) :
    HasNonFinite (part :: rest) ↔ part.IsNonFinite ∨ HasNonFinite rest := by simp [HasNonFinite]

@[simp] theorem hasNonFinite_append (xs ys : Marks) :
    HasNonFinite (xs ++ ys) ↔ HasNonFinite xs ∨ HasNonFinite ys := by
  simp [HasNonFinite, or_and_right, exists_or]

/-- Some text has such a number. -/
def AnyNonFinite (texts : List Marks) : Prop := ∃ text ∈ texts, HasNonFinite text

@[simp] theorem not_anyNonFinite_nil : ¬ AnyNonFinite [] := by simp [AnyNonFinite]

@[simp] theorem anyNonFinite_cons (text : Marks) (rest : List Marks) :
    AnyNonFinite (text :: rest) ↔ text.HasNonFinite ∨ AnyNonFinite rest := by simp [AnyNonFinite]

@[simp] theorem anyNonFinite_append (xs ys : List Marks) :
    AnyNonFinite (xs ++ ys) ↔ AnyNonFinite xs ∨ AnyNonFinite ys := by
  simp [AnyNonFinite, or_and_right, exists_or]

@[simp] theorem hasNonFinite_join (between : String) (texts : List Marks) :
    HasNonFinite (join between texts) ↔ AnyNonFinite texts := by
  unfold join
  induction texts with
  | nil => simp
  | cons text texts ih =>
    by_cases hlast : texts = []
    · simp [hlast]
    · rw [List.intercalate_cons_of_ne_nil hlast, hasNonFinite_append, hasNonFinite_append, ih]
      simp

@[simp] theorem not_anyNonFinite_ofWords (texts : List String) : ¬ AnyNonFinite (ofWords texts) := by
  rintro ⟨text, hmem, hnot⟩
  obtain ⟨word, -, rfl⟩ := List.mem_map.mp hmem
  simp at hnot

/-- Such a number shows in the text. -/
theorem HasNonFinite.render_ne_empty {text : Marks} (h : text.HasNonFinite) : text.render ≠ "" := by
  obtain ⟨part, hmem, -, htext⟩ := h
  have hletter := Part.mem_of_mem_nonFiniteTexts htext
  intro hempty
  induction text with
  | nil => cases hmem
  | cons first rest ih =>
    rw [render_cons, String.append_eq_empty_iff] at hempty
    rcases List.mem_cons.mp hmem with rfl | hmem
    · rw [hempty.1] at hletter
      cases hletter
    · exact ih hmem hempty.2

end Marks

open Marks

/-! ## Times and windows -/

namespace Time

/-- A time in parts of which the seconds are not finite. -/
def HasEndlessSeconds (t : Time) : Prop := ∃ p, t = .parts p ∧ p.seconds.isFinite = false

/-- A time in parts that is not finite as a whole. -/
def IsEndless (t : Time) : Prop := ∃ p, t = .parts p ∧ (partsSeconds p).isFinite = false

theorem hasNonFinite_tokenMarks {t : Time} (h : t.check = .ok ()) :
    t.tokenMarks.HasNonFinite ↔ t.HasEndlessSeconds := by
  cases t with
  | seconds n => simp [tokenMarks, HasEndlessSeconds]
  | clock text =>
    have hclock : isClock text.toList = true := (demand_eq_ok.mp h).1
    simp [tokenMarks, HasEndlessSeconds, Part.not_isNonFinite_clock hclock]
  | parts p => by_cases hframes : p.frames = 0 <;> simp [tokenMarks, HasEndlessSeconds, hframes]

/-- A time that can be written has a finite value, unless it is given in parts. -/
theorem isFinite_toSeconds {t : Time} {x : Binary64} (hcheck : t.check = .ok ()) (hx : t.toSeconds = .ok x) :
    x.isFinite = false ↔ t.IsEndless := by
  cases t with
  | seconds n =>
    cases hx
    refine iff_of_false ?_ nofun
    rw [(checkNumber_eq_ok_iff.mp hcheck).1]
    exact nofun
  | clock text =>
    obtain ⟨_, -, hx⟩ := bind_eq_ok.mp hx
    obtain ⟨sum, -, hx⟩ := bind_eq_ok.mp hx
    obtain ⟨_, hnumber, hx⟩ := bind_eq_ok.mp hx
    cases hx
    refine iff_of_false ?_ nofun
    rw [(checkNumber_eq_ok_iff.mp hnumber).1]
    exact nofun
  | parts p =>
    cases hx
    simp [IsEndless]

end Time

/-- A window with a bound that is not finite. -/
def Window.HasEndlessBound (w : Window) : Prop :=
  (∃ t, w.start = some t ∧ t.IsEndless) ∨ ∃ t, w.stop = some t ∧ t.IsEndless

namespace Window

theorem isNonFinite_boundMark {missing : Int} {bound : Option Time} {text missingText : String}
    (h : boundText missingText bound = .ok text) :
    (boundMark missing bound).IsNonFinite ↔ ∃ t, bound = some t ∧ t.IsEndless := by
  cases bound with
  | none => simp [boundMark]
  | some t =>
    obtain ⟨_, hcheck, h⟩ := bind_eq_ok.mp h
    obtain ⟨x, hx, -⟩ := bind_eq_ok.mp h
    simp [boundMark, hx, Time.isFinite_toSeconds hcheck hx]

theorem hasNonFinite_marks {w : Window} {text : String} (h : w.option = .ok text) :
    w.marks.HasNonFinite ↔ w.HasEndlessBound := by
  unfold option at h
  unfold marks HasEndlessBound
  split at h
  · rename_i hnone
    rw [Bool.and_eq_true, Option.isNone_iff_eq_none, Option.isNone_iff_eq_none] at hnone
    simp [hnone]
  · obtain ⟨start, hstart, h⟩ := bind_eq_ok.mp h
    obtain ⟨stop, hstop, -⟩ := bind_eq_ok.mp h
    rw [if_neg ‹_›]
    simp [isNonFinite_boundMark hstart, isNonFinite_boundMark hstop]

theorem hasNonFinite_suffixMarks (w : Window) : w.suffixMarks.HasNonFinite ↔ w.marks.HasNonFinite := by
  unfold suffixMarks
  cases w.marks <;> simp

end Window

/-! ## Options of the command -/

/-- The bounds of a trim are checked before they are written. -/
theorem Trim.anyNonFinite_marks {t : Trim} (h : t.check = .ok ()) :
    AnyNonFinite t.marks ↔ ∃ b ∈ t.emitted, b.HasEndlessSeconds := by
  obtain ⟨x, y, z, hpasses⟩ := check_ok h
  have hbound {b : Option Time} {x : Binary64} (hx : boundSeconds b = .ok x) :
      ∀ a, b = some a → a.check = .ok () := by
    rintro a rfl
    obtain ⟨_, hcheck, -⟩ := bind_eq_ok.mp hx
    exact hcheck
  have hstart := hbound hpasses.start
  have hstop := hbound hpasses.stop
  have hduration := hbound hpasses.duration
  obtain ⟨start, stop, duration⟩ := t
  cases start <;> cases stop <;> cases duration <;>
    simp_all [marks, emitted, lasting, Time.hasNonFinite_tokenMarks]

theorem Speed.InRange.not_isNonFinite_stageMark {stage : Binary64} (h : InRange stage) :
    ¬ (stageMark stage).IsNonFinite := by
  unfold stageMark
  split
  · simp [value_fastest.1]
  split
  · simp [value_slowest.1]
  · simp [h.isFinite]

/-- A checked factor is finite, and all its stages are near one. -/
theorem Speed.not_anyNonFinite_marks {s : Speed} (h : s.check = .ok ()) : ¬ AnyNonFinite s.marks := by
  have hf := (check_eq_ok_iff s).mp h
  have hone : (1 : Binary64).isFinite = true := (Binary64.ofInt_exact (n := 1) (by decide)).1
  have hvideo : ¬ s.videoMarks.HasNonFinite := by
    unfold videoMarks
    split
    · simp [hone]
    · simp [hf.isFinite]
  have haudio : ¬ s.audioMarks.HasNonFinite := by
    rw [audioMarks, hasNonFinite_join]
    rintro ⟨text, hmem, hnot⟩
    obtain ⟨stage, hstage, rfl⟩ := List.mem_map.mp hmem
    simp [(inRange_stages hf stage hstage).not_isNonFinite_stageMark] at hnot
  unfold marks
  split <;> simp [hvideo, haudio]

/-- Only finite numbers are within a range. -/
theorem ColorAdjustment.isFinite_of_checkRange {parameter label : String} {low high : Binary64}
    {value : Option Binary64} (hlow : low.isFinite = true) (hhigh : high.isFinite = true)
    (h : checkRange parameter label low high value = .ok ()) : ∀ x, value = some x → x.isFinite = true := by
  rintro x rfl
  obtain ⟨⟨hle, hle'⟩, -⟩ := demand_eq_ok.mp h
  exact Binary64.isFinite_of_bounds hlow hhigh hle hle'

theorem ColorAdjustment.not_anyNonFinite_marks {a : ColorAdjustment} (h : a.check = .ok ()) :
    ¬ AnyNonFinite a.marks := by
  obtain ⟨_, hbrightness, h⟩ := bind_eq_ok.mp h
  obtain ⟨_, hcontrast, h⟩ := bind_eq_ok.mp h
  obtain ⟨_, hsaturation, -⟩ := bind_eq_ok.mp h
  have hb := isFinite_of_checkRange (by decide +kernel) (by decide +kernel) hbrightness
  have hc := isFinite_of_checkRange (by decide +kernel) (by decide +kernel) hcontrast
  have hs := isFinite_of_checkRange (by decide +kernel) (by decide +kernel) hsaturation
  obtain ⟨brightness, contrast, saturation⟩ := a
  cases brightness <;> cases contrast <;> cases saturation <;>
    simp_all [marks, parameterMarks]

theorem Encoding.not_anyNonFinite_marks (e : Encoding) : ¬ AnyNonFinite e.marks := by
  unfold marks
  cases e.quality <;> simp

/-! ## Filters -/

theorem Resize.not_anyNonFinite_marks (r : Resize) : ¬ AnyNonFinite r.marks := by
  obtain ⟨width, height, keepsAspect⟩ := r
  cases width <;> cases height <;> cases keepsAspect <;> simp [marks]

theorem Crop.not_hasNonFinite_marks (c : Crop) : ¬ c.marks.HasNonFinite := by
  simp [marks]

namespace Rotation

theorem isFinite_pi : pi.isFinite = true := by decide +kernel

/-- Whether the radians are finite is decided by the first product: a quotient by 180 is not larger. -/
theorem isFinite_radians_iff {degrees : Binary64} (h : degrees.isFinite = true) :
    (degrees * pi / 180).isFinite = true ↔ |degrees.value * pi.value| < Binary64.overflow := by
  obtain ⟨hfinite, hvalue⟩ : (180 : Binary64).isFinite = true ∧ (180 : Binary64).value = (180 : Int) :=
    Binary64.ofInt_exact (n := 180) (by decide)
  have hne : (180 : Binary64).value ≠ 0 := by
    rw [hvalue]
    norm_num
  rw [← Binary64.isFinite_mul_iff h isFinite_pi]
  refine ⟨Binary64.isFinite_of_div hfinite, fun hproduct => ?_⟩
  rw [Binary64.isFinite_div_iff hproduct hfinite hne]
  refine lt_of_le_of_lt ?_ (Binary64.abs_value_lt_overflow hproduct)
  rw [abs_div, hvalue]
  exact div_le_self (abs_nonneg _) (by norm_num)

/-- The radians of a right angle are finite. -/
theorem radians_lt_of_isRight {r : Rotation} (h : r.degrees.isFinite = true) (hright : r.isRight = true) :
    |r.degrees.value * pi.value| < Binary64.overflow := by
  have hangle {angle : Binary64} (hangle : angle.isFinite = true) (hsame : r.degrees.same angle = true)
      (hfinite : (angle * pi).isFinite = true) : |r.degrees.value * pi.value| < Binary64.overflow := by
    rw [(Binary64.same_iff h hangle).mp hsame]
    exact (Binary64.isFinite_mul_iff hangle isFinite_pi).mp hfinite
  simp only [isRight, Bool.or_eq_true] at hright
  rcases hright with (hsame | hsame) | hsame <;>
    exact hangle (by decide +kernel) hsame (by decide +kernel)

theorem hasNonFinite_marks {r : Rotation} (h : r.check = .ok ()) :
    r.marks.HasNonFinite ↔ Binary64.overflow ≤ |r.degrees.value * pi.value| := by
  have hfinite : r.degrees.isFinite = true := (demand_eq_ok.mp h).1
  unfold marks
  by_cases hright : r.isRight = true
  · rw [if_pos hright]
    exact iff_of_false (by simp) (not_le.mpr (radians_lt_of_isRight hfinite hright))
  · rw [← not_lt, ← isFinite_radians_iff hfinite]
    simp [hright]

end Rotation

/-! ## Captions and overlays -/

theorem Anchor.not_hasNonFinite_marks (a : Anchor) (distance : Int) (terms : SizeTerms) :
    ¬ (a.marks distance terms).1.HasNonFinite ∧ ¬ (a.marks distance terms).2.HasNonFinite := by
  have hedge (frame item : String) (e : Edge) : ¬ (e.marks frame item distance).HasNonFinite := by
    cases e <;> simp [Edge.marks]
  exact ⟨hedge _ _ _, hedge _ _ _⟩

namespace Caption

theorem not_hasNonFinite_lookMarks (c : Caption) : ¬ c.lookMarks.HasNonFinite := by
  unfold lookMarks
  cases c.background <;> cases c.border <;> simp

theorem not_hasNonFinite_placeMarks (p : Placement) (h : Host) :
    ¬ (placeMarks p h).1.HasNonFinite ∧ ¬ (placeMarks p h).2.HasNonFinite := by
  unfold placeMarks
  split
  · exact Anchor.not_hasNonFinite_marks _ _ _
  · split
    · simp
    · exact Anchor.not_hasNonFinite_marks _ _ _

/-- Only the window of a caption has numbers that may not be finite. -/
theorem hasNonFinite_marks {c : Caption} {h : Host} {text : String} (htext : c.filterText h = .ok text) :
    (c.marks h).HasNonFinite ↔ c.window.HasEndlessBound := by
  obtain ⟨_, -, htext⟩ := bind_eq_ok.mp htext
  obtain ⟨window, hwindow, -⟩ := bind_eq_ok.mp htext
  rw [← Window.hasNonFinite_marks (mapError_eq_ok.mp hwindow)]
  simp [marks, not_hasNonFinite_lookMarks, not_hasNonFinite_placeMarks, Window.hasNonFinite_suffixMarks]

end Caption

/-- An overlay whose factor is infinite, and to which no width or height is given that wins over it. -/
structure Overlay.IsEndless (o : Overlay) : Prop where
  width : o.width = none
  height : o.height = none
  scale : o.scale = some (.infinity false)

namespace Overlay

/-- What the check says of the factor and of the opacity. -/
theorem scale_opacity_check {o : Overlay} {h : Host} (hcheck : o.check h = .ok ()) :
    (∀ x, o.scale = some x → 0 < x) ∧ ∀ x, o.opacity = some x → 0 ≤ x ∧ x ≤ 1 := by
  have hvalues := checkValues_of_check hcheck
  obtain ⟨source, place, scale, width, height, opacity, window⟩ := o
  cases opacity <;> cases scale <;> cases width <;> cases height <;>
    simp [checkValues, refuse_eq_ok, demand_eq_ok, bind_eq_ok] at hvalues <;> simp [hvalues]

theorem anyNonFinite_sizeMarks {o : Overlay} {h : Host} (hcheck : o.check h = .ok ()) :
    AnyNonFinite o.sizeMarks ↔ o.IsEndless := by
  have hpos := (scale_opacity_check hcheck).1
  obtain ⟨source, place, scale, width, height, opacity, window⟩ := o
  unfold sizeMarks
  rcases width with _ | width
  · rcases height with _ | height
    · rcases scale with _ | scale
      · exact iff_of_false (by simp) fun h => Option.some_ne_none _ h.scale.symm
      · constructor
        · intro hnot
          have hinfinite : scale.isFinite = false := by simpa using hnot
          have heq := Binary64.eq_infinity_of_lt Binary64.isUnsigned_zero.isFinite (hpos scale rfl) hinfinite
          exact ⟨rfl, rfl, congrArg some heq⟩
        · rintro ⟨-, -, hscale⟩
          cases hscale
          simp [Binary64.isFinite]
    · exact iff_of_false (by simp) fun h => Option.some_ne_none _ h.height
  · exact iff_of_false (by cases height <;> simp) fun h => Option.some_ne_none _ h.width

theorem not_anyNonFinite_opacityMarks {o : Overlay} {h : Host} (hcheck : o.check h = .ok ()) :
    ¬ AnyNonFinite o.opacityMarks := by
  have hrange := (scale_opacity_check hcheck).2
  unfold opacityMarks
  cases hopacity : o.opacity with
  | none => simp
  | some opacity =>
    obtain ⟨hlow, hhigh⟩ := hrange opacity hopacity
    have hfinite : opacity.isFinite = true :=
      Binary64.isFinite_of_bounds (by decide +kernel) (by decide +kernel) hlow hhigh
    dsimp only
    split <;> simp [hfinite]

theorem hasNonFinite_sourceMarks {o : Overlay} {h : Host} (hcheck : o.check h = .ok ()) :
    o.sourceMarks.HasNonFinite ↔ o.IsEndless := by
  rw [sourceMarks, hasNonFinite_join, anyNonFinite_append, anyNonFinite_sizeMarks hcheck]
  exact or_iff_left (not_anyNonFinite_opacityMarks hcheck)

theorem not_hasNonFinite_placeMarks (p : Placement) (h : Host) :
    ¬ (placeMarks p h).1.HasNonFinite ∧ ¬ (placeMarks p h).2.HasNonFinite := by
  unfold placeMarks
  split
  · exact Anchor.not_hasNonFinite_marks _ _ _
  · simp

theorem hasNonFinite_overlayMarks {o : Overlay} {h : Host} {text : String}
    (htext : o.overlayFilter h = .ok text) : (o.overlayMarks h).HasNonFinite ↔ o.window.HasEndlessBound := by
  obtain ⟨_, -, htext⟩ := bind_eq_ok.mp htext
  obtain ⟨window, hwindow, -⟩ := bind_eq_ok.mp htext
  rw [← Window.hasNonFinite_marks (mapError_eq_ok.mp hwindow)]
  simp [overlayMarks, not_hasNonFinite_placeMarks, Window.hasNonFinite_suffixMarks]

/-- A source that needs no filter has no factor. -/
theorem anyNonFinite_filterMarks {o : Overlay} {h : Host} {text : String} (hcheck : o.check h = .ok ())
    (htext : o.overlayFilter h = .ok text) :
    AnyNonFinite ((Operation.overlay o).filterMarks h) ↔ o.window.HasEndlessBound ∨ o.IsEndless := by
  rw [Operation.filterMarks, anyNonFinite_append, anyNonFinite_cons, hasNonFinite_overlayMarks htext,
    or_iff_left not_anyNonFinite_nil, or_comm, ← hasNonFinite_sourceMarks hcheck]
  refine or_congr_right ?_
  split
  · rename_i hempty
    rw [← o.render_sourceMarks, String.isEmpty_iff] at hempty
    exact iff_of_false not_anyNonFinite_nil fun hnot => hnot.render_ne_empty hempty
  · simp

end Overlay

/-! ## All operations -/

namespace Operation

/-- The operations that write a number that is not finite although they pass their checks: times in parts
    are not checked, an angle is checked before it is multiplied, and a factor is only compared with
    zero. -/
def IsUnguarded : Operation → Prop
  | trim t => ∃ b ∈ t.emitted, b.HasEndlessSeconds
  | rotate r => Binary64.overflow ≤ |r.degrees.value * Rotation.pi.value|
  | caption c => c.window.HasEndlessBound
  | overlay o => o.window.HasEndlessBound ∨ o.IsEndless
  | _ => False

/-- The numbers in all that an operation adds. -/
theorem anyNonFinite_iff {op : Operation} {h : Host} {list : Option String} {d d' : Draft}
    (hcheck : op.check h = .ok ()) (hedits : op.Edits h list d d') :
    AnyNonFinite (op.argumentMarks list ++ op.filterMarks h) ↔ op.IsUnguarded := by
  rw [anyNonFinite_append]
  cases op with
  | trim t =>
    have hcheck := mapError_eq_ok.mp hcheck
    exact (or_iff_left not_anyNonFinite_nil).trans (t.anyNonFinite_marks hcheck)
  | resize r => exact iff_of_false (by simp [argumentMarks, filterMarks, r.not_anyNonFinite_marks]) id
  | crop c => exact iff_of_false (by simp [argumentMarks, filterMarks, c.not_hasNonFinite_marks]) id
  | rotate r =>
    rw [IsUnguarded, ← r.hasNonFinite_marks (mapError_eq_ok.mp hcheck)]
    simp [argumentMarks, filterMarks]
  | speed s =>
    have hcheck := mapError_eq_ok.mp hcheck
    exact iff_of_false (by simp [argumentMarks, filterMarks, s.not_anyNonFinite_marks hcheck]) id
  | adjustColor a =>
    have hcheck := mapError_eq_ok.mp hcheck
    exact iff_of_false (by simp [argumentMarks, filterMarks, a.not_anyNonFinite_marks hcheck]) id
  | caption c =>
    obtain ⟨text, htext, -⟩ := hedits
    rw [IsUnguarded, ← Caption.hasNonFinite_marks htext]
    simp [argumentMarks, filterMarks]
  | overlay o =>
    obtain ⟨text, htext, -⟩ := hedits
    rw [Overlay.anyNonFinite_filterMarks hcheck htext]
    exact or_iff_right (not_anyNonFinite_ofWords _)
  | encode e => exact iff_of_false (by simp [argumentMarks, filterMarks, e.not_anyNonFinite_marks]) id
  | concat c =>
    refine iff_of_false ?_ id
    cases hstrategy : c.strategy <;> simp [argumentMarks, filterMarks, hstrategy, Concatenation.marks]

end Operation

namespace Bench

/-- **Which operations write a number that is not finite.** An operation that is added puts its arguments
    behind those of the command and its filters behind those of the graph. One of the numbers in them is
    written as an infinity or as not-a-number exactly if the operation is a trim whose start, end or
    emitted duration is given in parts with seconds that are not finite, a rotation by an angle whose
    radians overflow, a caption or an overlay whose window has a bound in parts that is not finite, or an
    overlay that is scaled by an infinite factor. -/
theorem writes_nonFinite_iff {op : Operation} {b b' : Bench} (h : (add op).perform b = (.ok (), b')) :
    b'.draft.command.arguments =
      b.draft.command.arguments ++ (op.argumentMarks b'.listFile).map render ∧
    b'.draft.texts = b.draft.texts ++ (op.filterMarks b.host).map render ∧
    (AnyNonFinite (op.argumentMarks b'.listFile ++ op.filterMarks b.host) ↔ op.IsUnguarded) := by
  obtain ⟨hcheck, hedits⟩ := add_ok h
  have hmakes : (Edit.operation op b.host b'.listFile).Makes b.draft b'.draft := ⟨hcheck, hedits⟩
  refine ⟨?_, hedits.texts_eq, Operation.anyNonFinite_iff hcheck hedits⟩
  rw [hmakes.command_eq, op.map_render_argumentMarks b.host]

/-- An overlay that is scaled by an infinite factor is added, with the factor in its filter. -/
theorem writes_nonFinite_endless_overlay :
    let op : Operation := .overlay { source := "logo.png", scale := some (.infinity false) }
    let h : Host := { tree := { entries := [(["logo.png"], .file "" false)] } }
    let b : Bench := ⟨h, Draft.ofProgram "ffmpeg", none⟩
    let b' := ((add op).perform b).2
    (add op).perform b = (.ok (), b') ∧ b'.draft.texts = ["scale=iw*inf:ih*inf", "overlay=0:0"] ∧
      AnyNonFinite (op.argumentMarks b'.listFile ++ op.filterMarks b.host) := by
  intro op h b b'
  have hok : ((add op).perform b).1 = .ok () := by decide +kernel
  have hadd : (add op).perform b = (.ok (), b') := Prod.ext hok rfl
  exact ⟨hadd, by decide +kernel, (writes_nonFinite_iff hadd).2.2.mpr (.inr ⟨rfl, rfl, rfl⟩)⟩

/-- A trim that starts after endless seconds is added, and its start is written so. -/
theorem endless_start_is_written :
    let t : Trim := { start := some (.parts { seconds := .infinity false }) }
    let b : Bench := { host := {}, draft := Draft.ofProgram "ffmpeg" }
    let b' := ((add (.trim t)).perform b).2
    t.check = .ok () ∧ (add (.trim t)).perform b = (.ok (), b') ∧
      b'.draft.command.arguments = ["-ss", "00:00:inf"] ∧
      AnyNonFinite ((Operation.trim t).argumentMarks b'.listFile) := by
  intro t b b'
  have hcheck : t.check = .ok () := by decide +kernel
  have hok : ((add (.trim t)).perform b).1 = .ok () := by decide +kernel
  have hstart : ∃ a ∈ t.emitted, a.HasEndlessSeconds := ⟨_, List.mem_singleton_self _, _, rfl, rfl⟩
  exact ⟨hcheck, Prod.ext hok rfl, by decide +kernel, (t.anyNonFinite_marks hcheck).mpr hstart⟩

end Bench

end Montage
